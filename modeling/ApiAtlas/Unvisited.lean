/-!
# Counting what is left to visit

A walk that never enters the same node twice ends, because each step leaves fewer nodes of a finite
list unvisited. `unvisited` is that number, and `unvisited_cons_lt` the step.
-/

universe u

namespace ApiAtlas

variable {α : Type u} [DecidableEq α]

/-- The number of entries of `nodes` that are not among `visited`. -/
def unvisited (nodes visited : List α) : Nat := nodes.countP (· ∉ visited)

theorem unvisited_cons_le (nodes visited : List α) (a : α) :
    unvisited nodes (a :: visited) ≤ unvisited nodes visited :=
  List.countP_mono_left fun x _ h => by
    simp only [decide_eq_true_eq, List.mem_cons, not_or] at h ⊢
    exact h.2

/-- To visit a node for the first time leaves fewer. -/
theorem unvisited_cons_lt {nodes visited : List α} {a : α} (ha : a ∈ nodes) (hv : a ∉ visited) :
    unvisited nodes (a :: visited) < unvisited nodes visited := by
  induction nodes with
  | nil => cases ha
  | cons n rest ih =>
    have hle := unvisited_cons_le rest visited a
    have hcons (l : List α) : unvisited (n :: rest) l = unvisited rest l + if n ∉ l then 1 else 0 := by
      simp [unvisited, List.countP_cons]
    rw [hcons, hcons]
    by_cases hn : n = a
    -- this place counted before and does not count now; the rest counts no more than before
    · subst hn
      simp only [List.mem_cons, true_or, not_true_eq_false, if_false, hv, not_false_eq_true, if_true]
      omega
    · have hlt := ih ((List.mem_cons.1 ha).resolve_left (Ne.symm hn))
      simp only [List.mem_cons, hn, false_or]
      omega

end ApiAtlas
