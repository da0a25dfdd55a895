/-!
# Maps sorted by key

A finite map from text to values, held as the list of its entries in strictly ascending key order
(by code point, which is also the byte order of UTF-8). Two maps with the same entries are
therefore equal, and a reader of the list sees the order in which the entries are written.

The lemmas say what `insert` and `erase` do to `get?`; nothing else is needed to reason about a map.
-/

universe u

namespace ApiAtlas

/-- Every key is below all later ones, so none repeats. -/
def Ascending {β : Type u} (entries : List (String × β)) : Prop :=
  entries.Pairwise (fun a b => a.1 < b.1)

/-- A finite map from text to `β`, its entries in ascending key order. -/
structure SortedMap (β : Type u) where
  toList : List (String × β)
  ascending : Ascending toList
deriving DecidableEq

namespace SortedMap

variable {β : Type u}

@[ext]
theorem ext {m n : SortedMap β} (h : m.toList = n.toList) : m = n := by
  cases m; cases n; cases h; rfl

/-- The map without entries. -/
def empty : SortedMap β := ⟨[], List.Pairwise.nil⟩

instance : EmptyCollection (SortedMap β) := ⟨empty⟩

instance : Inhabited (SortedMap β) := ⟨empty⟩

/-- The keys in ascending order. -/
def keys (m : SortedMap β) : List String := m.toList.map Prod.fst

/-- The number of entries. -/
def size (m : SortedMap β) : Nat := m.toList.length

/-- The value under `k`. -/
def get? (m : SortedMap β) (k : String) : Option β := m.toList.lookup k

/-- Whether `k` is a key. -/
def contains (m : SortedMap β) (k : String) : Bool := (m.get? k).isSome

/-! ## Insertion -/

/-- Put `v` under `k`, at the place the order gives it, in the stead of an earlier value. -/
def insertEntry (k : String) (v : β) : List (String × β) → List (String × β)
  | [] => [(k, v)]
  | e :: rest =>
    if k < e.1 then (k, v) :: e :: rest
    else if k = e.1 then (k, v) :: rest
    else e :: insertEntry k v rest

theorem lt_of_not_lt_of_ne {a b : String} (h : ¬ a < b) (hne : a ≠ b) : b < a :=
  Decidable.byContradiction fun h' =>
    hne (String.le_antisymm (String.not_lt.1 h') (String.not_lt.1 h))

theorem mem_insertEntry {k : String} {v : β} {x : String × β} {l : List (String × β)}
    (h : x ∈ insertEntry k v l) : x = (k, v) ∨ x ∈ l := by
  induction l with
  | nil => simpa [insertEntry] using h
  | cons e rest ih =>
    simp only [insertEntry] at h
    split at h
    · simpa using h
    · split at h
      · rcases List.mem_cons.1 h with h | h
        · exact .inl h
        · exact .inr (List.mem_cons_of_mem _ h)
      · rcases List.mem_cons.1 h with h | h
        · exact .inr (h ▸ List.mem_cons_self)
        · exact (ih h).imp_right (List.mem_cons_of_mem _)

theorem ascending_insertEntry (k : String) (v : β) {l : List (String × β)} (h : Ascending l) :
    Ascending (insertEntry k v l) := by
  induction l with
  | nil => exact List.pairwise_singleton _ _
  | cons e rest ih =>
    have hall : ∀ x ∈ rest, e.1 < x.1 := fun _ hx => List.rel_of_pairwise_cons h hx
    have hrest : Ascending rest := List.Pairwise.of_cons h
    simp only [insertEntry]
    split
    -- the new key is below the first one, and so below all of them
    next hlt =>
      refine List.Pairwise.cons (fun x hx => ?_) h
      rcases List.mem_cons.1 hx with rfl | hx
      · exact hlt
      · exact String.lt_trans hlt (hall x hx)
    next hlt =>
      split
      next heq => exact List.Pairwise.cons (fun x hx => heq ▸ hall x hx) hrest
      -- it belongs further on: the first key stays below whatever follows
      next hne =>
        refine List.Pairwise.cons (fun x hx => ?_) (ih hrest)
        rcases mem_insertEntry hx with rfl | hx
        · exact lt_of_not_lt_of_ne hlt hne
        · exact hall x hx

/-- The map with `v` under `k` and every other entry as it was. -/
def insert (m : SortedMap β) (k : String) (v : β) : SortedMap β :=
  ⟨insertEntry k v m.toList, ascending_insertEntry k v m.ascending⟩

/-- The map of a list of pairs; a later pair wins over an earlier one of the same key. -/
def ofList (l : List (String × β)) : SortedMap β :=
  l.foldl (fun m e => m.insert e.1 e.2) empty

/-! ## Removal -/

/-- The map without the key `k`. -/
def erase (m : SortedMap β) (k : String) : SortedMap β :=
  ⟨m.toList.filter (·.1 != k), m.ascending.filter _⟩

/-- What was under the key `k`, and the map without it. -/
def take (m : SortedMap β) (k : String) : Option β × SortedMap β := (m.get? k, m.erase k)

/-! ## What a lookup sees -/

theorem lookup_insertEntry_self (k : String) (v : β) (l : List (String × β)) :
    (insertEntry k v l).lookup k = some v := by
  induction l with
  | nil => simp [insertEntry]
  | cons e rest ih =>
    simp only [insertEntry]
    split
    · simp
    · split
      · simp
      next hne => rw [List.lookup_cons, beq_false_of_ne hne]; exact ih

theorem lookup_insertEntry_of_ne {k k' : String} (hne : k' ≠ k) (v : β) (l : List (String × β)) :
    (insertEntry k v l).lookup k' = l.lookup k' := by
  induction l with
  | nil => simp [insertEntry, List.lookup_cons, beq_false_of_ne hne]
  | cons e rest ih =>
    simp only [insertEntry]
    split
    · simp [List.lookup_cons, beq_false_of_ne hne]
    · split
      next heq => rw [List.lookup_cons, List.lookup_cons, ← heq, beq_false_of_ne hne]
      next => rw [List.lookup_cons, List.lookup_cons, ih]

/-- A key reads back what was put under it last. -/
theorem get?_insert (m : SortedMap β) (k k' : String) (v : β) :
    (m.insert k v).get? k' = if k' = k then some v else m.get? k' := by
  split
  next h => subst h; exact lookup_insertEntry_self _ _ _
  next h => exact lookup_insertEntry_of_ne h _ _

/-- Removal forgets the one key and no other. -/
theorem get?_erase (m : SortedMap β) (k k' : String) :
    (m.erase k).get? k' = if k' = k then none else m.get? k' := by
  obtain ⟨l, hl⟩ := m
  simp only [get?, erase]
  clear hl
  induction l with
  | nil => simp
  | cons e rest ih =>
    by_cases he : e.1 = k
    -- an entry under `k` goes, and a lookup of any other key did not stop there
    · rw [List.filter_cons_of_neg (by simp [he]), ih, List.lookup_cons]
      by_cases hk : k' = k
      · simp [hk]
      · simp [hk, he, beq_false_of_ne hk]
    · rw [List.filter_cons_of_pos (by simp [he]), List.lookup_cons, List.lookup_cons, ih]
      by_cases hk : k' = k
      · subst hk; simp [beq_false_of_ne (Ne.symm he)]
      · simp [hk]

@[simp]
theorem get?_empty (k : String) : (empty : SortedMap β).get? k = none := rfl

end SortedMap

end ApiAtlas
