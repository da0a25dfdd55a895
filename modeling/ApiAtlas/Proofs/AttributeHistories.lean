import Mathlib.Data.Set.Card
import ApiAtlas.Proofs.ByteOrder
import ApiAtlas.Proofs.IntegerValues

/-!
# What a history of changes leaves of attributes

Texts are put under keys, replaced and removed in any order. What the attributes say in the end can be read
off the history alone: under a key there is the text that the last change of this key put there, and
nothing if that change was a removal or if there was none (`LastSet`). One more change takes precedence
over all before it for its own key, and leaves the others alone; lookups and histories agree on this
(`get?_apply`, `lastSet_concat`), and that carries the induction over the history.

All else is a matter of lookups. As the entries ascend by key, each key is there once, and to put `type`
in front takes one key out of the middle and leaves the rest ascending.
-/

namespace ApiAtlas

/-! ## Histories -/

/-- A text is put under a key, or the key is removed. -/
inductive Change where
  | set (key value : String)
  | remove (key : String)

namespace Change

/-- The key that is changed. -/
def key : Change → String
  | set key _ => key
  | remove key => key

/-- The last change of this key puts this text under it. -/
def LastSet (history : List Change) (key value : String) : Prop :=
  ∃ before later, history = before ++ set key value :: later ∧ ∀ c ∈ later, c.key ≠ key

/-- The last change of this key puts a text under it. -/
def Live (history : List Change) (key : String) : Prop := ∃ value, LastSet history key value

variable {history : List Change} {c : Change} {key value : String}

theorem not_lastSet_nil : ¬ LastSet [] key value := by
  rintro ⟨before, later, hsplit, _⟩
  cases before <;> cases hsplit

/-- One more change decides for its own key and for no other one. -/
theorem lastSet_concat : LastSet (history ++ [c]) key value
    ↔ c = set key value ∨ (c.key ≠ key ∧ LastSet history key value) := by
  constructor
  · rintro ⟨before, later, hsplit, hlater⟩
    rcases List.eq_nil_or_concat later with rfl | ⟨earlier, last, rfl⟩
    · obtain ⟨_, hc⟩ := List.append_inj' hsplit rfl
      cases hc
      exact .inl rfl
    · have hsplit' : history ++ [c] = (before ++ set key value :: earlier) ++ [last] := by
        rw [hsplit]
        simp
      obtain ⟨hhistory, hc⟩ := List.append_inj' hsplit' rfl
      cases hc
      refine .inr ⟨hlater _ (by simp), before, earlier, hhistory, fun e he => ?_⟩
      exact hlater e (by simp [he])
  · rintro (rfl | ⟨hne, before, later, rfl, hlater⟩)
    · exact ⟨history, [], rfl, fun e he => by cases he⟩
    · refine ⟨before, later ++ [c], by simp, fun e he => ?_⟩
      rcases List.mem_append.1 he with he | he
      · exact hlater e he
      · rw [List.mem_singleton.1 he]
        exact hne

end Change

namespace Attributes

open Change (LastSet Live lastSet_concat not_lastSet_nil)

variable {a : Attributes} {history : List Change} {key value : String}

/-- The attributes after one more change. -/
def apply (a : Attributes) : Change → Attributes
  | .set key value => a.insert key value
  | .remove key => (a.take key).2

/-- The attributes after a history of changes. -/
def after (a : Attributes) (history : List Change) : Attributes := history.foldl apply a

/-- The initial pairs as changes. -/
def settings (init : List (String × String)) : List Change := init.map fun e => .set e.1 e.2

theorem get?_apply (a : Attributes) (c : Change) : (a.apply c).get? key = some value
    ↔ c = .set key value ∨ (c.key ≠ key ∧ a.get? key = some value) := by
  cases c with
  | set key' value' =>
    rw [apply, SortedMap.get?_insert, Change.set.injEq, Change.key]
    by_cases hkey : key = key'
    · simp [hkey]
    · simp [hkey, Ne.symm hkey]
  | remove key' =>
    show (a.erase key').get? key = some value ↔ _
    rw [SortedMap.get?_erase, Change.key]
    by_cases hkey : key = key'
    · simp [hkey]
    · simp [hkey, Ne.symm hkey]

/-- **A lookup finds what was put there last.** -/
theorem get?_after : (after SortedMap.empty history).get? key = some value
    ↔ LastSet history key value := by
  induction history using List.reverseRecOn with
  | nil => simp [after, not_lastSet_nil]
  | append_singleton history c ih =>
    have hstep : after SortedMap.empty (history ++ [c])
        = (after SortedMap.empty history).apply c := by
      rw [after, List.foldl_append]
      rfl
    rw [hstep, get?_apply, ih, lastSet_concat]

/-- The pairs that attributes are made of are the first changes. -/
theorem after_ofList (init : List (String × String)) (steps : List Change) :
    after (SortedMap.ofList init) steps = after SortedMap.empty (settings init ++ steps) := by
  rw [after, after, settings, List.foldl_append, List.foldl_map]
  rfl

/-! ## The number of entries -/

/-- There are as many entries as keys. -/
theorem size_eq_ncard (h : ∀ key, key ∈ a.keys ↔ Live history key) :
    a.size = {key | Live history key}.ncard := by
  have hset : {key | Live history key} = ↑a.keys.toFinset := by
    refine Set.ext fun key => ?_
    rw [Finset.mem_coe, List.mem_toFinset, h]
    rfl
  rw [hset, Set.ncard_coe_finset, List.toFinset_card_of_nodup a.nodup_keys, SortedMap.keys,
    List.length_map]
  rfl

/-! ## The order in which entries are written -/

/-- Keys that ascend by their bytes, none of which is `type`. -/
structure PlainOrder (keys : List String) : Prop where
  ascending : keys.Pairwise fun key key' => Text.bytes key < Text.bytes key'
  untyped : "type" ∉ keys

/-- The key `type` is in front if it is there at all. -/
inductive WrittenOrder : List String → Prop where
  | typed {rest : List String} : PlainOrder rest → WrittenOrder ("type" :: rest)
  | untyped {keys : List String} : PlainOrder keys → WrittenOrder keys

theorem PlainOrder.nodup {keys : List String} (h : PlainOrder keys) : keys.Nodup := by
  refine h.ascending.imp fun hlt he => ?_
  rw [he] at hlt
  exact List.lt_irrefl _ hlt

theorem WrittenOrder.nodup {keys : List String} (h : WrittenOrder keys) : keys.Nodup := by
  cases h with
  | typed hrest => exact List.nodup_cons.2 ⟨hrest.untyped, hrest.nodup⟩
  | untyped hkeys => exact hkeys.nodup

/-- What is left when `type` is taken out of the middle. -/
theorem plainOrder_rest (a : Attributes) :
    PlainOrder ((a.toList.filter (·.1 != "type")).map Prod.fst) where
  ascending := by
    rw [List.pairwise_map]
    exact (a.ascending.filter _).imp Text.bytes_lt
  untyped := by
    intro hmem
    obtain ⟨e, he, htype⟩ := List.mem_map.1 hmem
    have hne : (e.1 != "type") = true := (List.mem_filter.1 he).2
    rw [htype] at hne
    exact absurd hne (by decide)

theorem writtenOrder_entries (a : Attributes) : WrittenOrder (a.entries.map Prod.fst) := by
  rw [entries]
  cases a.get? "type" with
  | none => exact .untyped a.plainOrder_rest
  | some text => exact .typed a.plainOrder_rest

/-! ## All that a history decides -/

/-- The attributes are those of a history: lookups, size and removals say what the last change of a key
has left, and so do the entries, in the order in which they are written. -/
structure Reflects (a : Attributes) (history : List Change) : Prop where
  get : ∀ key value, a.get? key = some value ↔ LastSet history key value
  contains : ∀ key, a.contains key = true ↔ Live history key
  size : a.size = {key | Live history key}.ncard
  taken : ∀ key value, (a.take key).1 = some value ↔ LastSet history key value
  entry : ∀ key value, (key, value) ∈ a.entries ↔ LastSet history key value
  once : (a.entries.map Prod.fst).Nodup
  order : WrittenOrder (a.entries.map Prod.fst)
  written : ∃ es, a.toValue = .map es ∧ es.map Prod.fst = a.entries.map Prod.fst

/-- All of it is a matter of lookups. -/
theorem Reflects.of_get (h : ∀ key value, a.get? key = some value ↔ LastSet history key value) :
    a.Reflects history where
  get := h
  contains := by
    intro key
    rw [SortedMap.contains, Option.isSome_iff_exists]
    exact exists_congr (h key)
  size := by
    refine size_eq_ncard fun key => ?_
    rw [SortedMap.mem_keys]
    exact exists_congr (h key)
  taken := h
  entry := by
    intro key value
    rw [mem_entries, h]
  once := a.writtenOrder_entries.nodup
  order := a.writtenOrder_entries
  written := ⟨_, rfl, by rw [List.map_map]; rfl⟩

/-- **The history decides the attributes.** Whatever pairs they are made of and whatever changes follow,
each key has the text that was put under it last, unless it was removed after that; there are as many
entries as keys with a text, and a removal gives back the text that is there. The entries are written
with each key once, `type` in front and the others ascending by their bytes. -/
theorem history_decides_attributes (init : List (String × String)) (steps : List Change) :
    (after (SortedMap.ofList init) steps).Reflects (settings init ++ steps) := by
  refine .of_get fun key value => ?_
  rw [after_ofList]
  exact get?_after

/-- A key that is set again after its removal is there again. -/
example : (after (SortedMap.ofList [("type", "integer"), ("default", "5"), ("type", "number")])
    [.remove "default", .set "minimum" "1", .set "default" "2"]).entries
      = [("type", "number"), ("default", "2"), ("minimum", "1")] := by decide

end Attributes

end ApiAtlas
