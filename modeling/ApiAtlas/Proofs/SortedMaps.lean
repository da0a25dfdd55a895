import Mathlib.Data.List.Sort
import ApiAtlas.SortedMap

/-!
# A sorted map is what its lookups say

The entries of a sorted map ascend by key, so that a lookup finds every entry, each key is there once, and
two maps with the same lookups have the same entries, in the same order.
-/

universe u v

namespace ApiAtlas

variable {β : Type u} {γ : Type v}

instance antisymm_key_lt : Std.Antisymm fun a b : String × β => a.1 < b.1 :=
  ⟨fun _ _ hab hba => absurd (String.lt_trans hab hba) (String.lt_irrefl _)⟩

instance irrefl_key_lt : Std.Irrefl fun a b : String × β => a.1 < b.1 :=
  ⟨fun _ => String.lt_irrefl _⟩

theorem lookup_eq_some_iff {l : List (String × β)} (h : Ascending l) {k : String} {v : β} :
    l.lookup k = some v ↔ (k, v) ∈ l := by
  induction l with
  | nil => simp
  | cons e rest ih =>
    obtain ⟨hfirst, hrest⟩ := List.pairwise_cons.1 h
    rw [List.lookup_cons, List.mem_cons]
    by_cases hk : k = e.1
    · rw [hk, beq_self_eq_true]
      constructor
      · intro hv
        exact .inl (by rw [← Option.some.inj hv])
      · rintro (hv | hv)
        · rw [← hv]
        -- every later key is above this one
        · exact absurd (hfirst _ hv) (String.lt_irrefl _)
    · rw [beq_false_of_ne hk, ih hrest]
      constructor
      · intro hv
        exact .inr hv
      · rintro (hv | hv)
        · exact absurd (congrArg Prod.fst hv) hk
        · exact hv

namespace SortedMap

theorem get?_eq_some {m : SortedMap β} {k : String} {v : β} :
    m.get? k = some v ↔ (k, v) ∈ m.toList :=
  lookup_eq_some_iff m.ascending

/-- Maps with the same lookups are the same. -/
theorem ext_get? {m n : SortedMap β} (h : ∀ k, m.get? k = n.get? k) : m = n := by
  refine SortedMap.ext (List.Pairwise.eq_of_mem_iff m.ascending n.ascending fun e => ?_)
  rw [← get?_eq_some, ← get?_eq_some, h]

theorem nodup_keys (m : SortedMap β) : m.keys.Nodup := by
  rw [keys, List.Nodup, List.pairwise_map]
  exact m.ascending.imp String.ne_of_lt

theorem mem_keys {m : SortedMap β} {k : String} : k ∈ m.keys ↔ ∃ v, m.get? k = some v := by
  rw [keys, List.mem_map]
  constructor
  · rintro ⟨e, he, rfl⟩
    exact ⟨e.2, get?_eq_some.2 he⟩
  · rintro ⟨v, hv⟩
    exact ⟨(k, v), get?_eq_some.1 hv, rfl⟩

end SortedMap

end ApiAtlas
