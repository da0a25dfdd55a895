/-!
# Entries in order of first insertion

A list of key-value pairs in which a key keeps the place of its first insertion and takes the value
of its last. This is the order of object properties, of responses and of security schemes in a
document (`keys_put`).
-/

universe u v

namespace ApiAtlas

/-- Key-value pairs in order of first insertion. -/
abbrev Keyed (κ : Type u) (β : Type v) := List (κ × β)

namespace Keyed

variable {κ : Type u} {β : Type v} [DecidableEq κ]

/-- The keys, in order of first insertion. -/
def keys (l : Keyed κ β) : List κ := l.map Prod.fst

/-- The value under `k`. -/
def get? (k : κ) : Keyed κ β → Option β
  | [] => none
  | e :: rest => if k = e.1 then some e.2 else get? k rest

/-- Put `x` under `k`: in place of the value that is there, at the end otherwise. -/
def put (k : κ) (x : β) : Keyed κ β → Keyed κ β
  | [] => [(k, x)]
  | e :: rest => if k = e.1 then (k, x) :: rest else e :: put k x rest

/-- Insert a list of pairs one after the other. -/
def ofList (l : List (κ × β)) : Keyed κ β :=
  l.foldl (fun acc e => put e.1 e.2 acc) []

/-- A key that is there keeps its place; a new one goes to the end. -/
theorem keys_put (k : κ) (x : β) (l : Keyed κ β) :
    keys (put k x l) = if k ∈ keys l then keys l else keys l ++ [k] := by
  induction l with
  | nil => rfl
  | cons e rest ih =>
    simp only [put]
    split
    next he => subst he; simp [keys]
    next he =>
      have hkeys (l : Keyed κ β) : keys (e :: l) = e.1 :: keys l := rfl
      simp only [hkeys, ih, List.mem_cons, he, false_or]
      split <;> rfl

/-- No key is there twice. -/
theorem nodup_keys_put (k : κ) (x : β) {l : Keyed κ β} (h : (keys l).Nodup) :
    (keys (put k x l)).Nodup := by
  rw [keys_put]
  split
  · exact h
  -- the key that is appended was not there
  next hk =>
    refine List.nodup_append.2 ⟨h, List.pairwise_singleton _ _, fun a ha b hb hab => hk ?_⟩
    rw [List.mem_singleton] at hb
    exact hb ▸ hab ▸ ha

end Keyed

end ApiAtlas
