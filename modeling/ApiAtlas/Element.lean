import ApiAtlas.Descriptor

/-!
# What a slice holds at bottom

`TypeTable.peel` goes from a slice to its element, from there on if that is a slice again, and
counts the steps. A predicate may stop it earlier: to the renderer a slice with a rule of its own is
a single value.

Slices that hold each other in a circle have no bottom, nor has a slice of something that cannot be
described. `peel` stops there, where it would enter a defined type again; what it stops at is still
a slice to be opened and has an element, and so `leadsOn` tells that the way has no end.
-/

namespace ApiAtlas

/-- The number of wrappers around the innermost type. -/
def TypeExpr.depth : TypeExpr → Nat
  | .empty | .primitive _ | .named _ => 0
  | .option t | .pointer _ t | .sequence _ t | .array t _ | .dictionary _ t => t.depth + 1

theorem TypeExpr.depth_core_le (t : TypeExpr) : t.core.depth ≤ t.depth := by
  induction t <;> simp_all [core, depth] <;> omega

namespace TypeTable

variable (T : TypeTable)

/-- Whether a type is a slice to be opened. -/
def opens (stop : Descriptor → Bool) (d : Descriptor) : Bool := d.hasKind .slice && !stop d

/-- Whether a type is a slice to be opened that has an element. -/
def leadsOn (stop : Descriptor → Bool) (d : Descriptor) : Bool :=
  opens stop d && (d.facts.bind fun i => T.element? i.id).isSome

/-- The defined types entered after this one; none if it was entered before. -/
def enter? (visited : List String) : TypeId → Option (List String)
  | .named key => if key ∈ T.keys ∧ key ∉ visited then some (key :: visited) else none
  | _ => some visited

/-- The element of a slice that is no defined type is one of its wrapped types. -/
theorem depth_element?_lt {T : TypeTable} {t item : TypeExpr} (hk : T.kind? t = some .slice)
    (he : T.element? t = some item) (hn : ∀ key, t.core ≠ .named key) : item.depth < t.depth := by
  -- only a defined type can have another type behind it
  have hund : T.underlying t = t.core := by
    unfold underlying underlyingFrom
    split
    next key h => exact absurd h (hn key)
    · rfl
  have hle := t.depth_core_le
  unfold kind? at hk
  unfold element? at he
  rw [hund] at hk he
  cases hc : t.core <;> simp [hc] at hk he <;> try (exact absurd hc (hn _))
  -- no primitive is a slice; for the wrappers the element is what they wrap
  next p => cases p <;> simp [Primitive.kind] at hk
  all_goals subst he; rw [hc] at hle; simp [TypeExpr.depth] at hle; omega

theorem item?_eq_some {T : TypeTable} {t item : TypeExpr} :
    T.item? t = some item ↔ T.element? t = some item ∧ T.isCircular item = false := by
  simp [item?, Option.filter_eq_some_iff]

/-- The type at the bottom of a type's slices, and their number. -/
def peelFrom (stop : Descriptor → Bool) (visited : List String) (t : TypeExpr) : Nat × TypeExpr :=
  if _ho : opens stop (T.describe t) = true then
    match _he : T.item? t, _hv : T.enter? visited t.core with
    | some item, some visited' =>
      let (n, bottom) := peelFrom stop visited' item
      (n + 1, bottom)
    | _, _ => (0, t)
  else (0, t)
termination_by (unvisited T.keys visited, t.depth)
decreasing_by
  have hk : T.kind? t = some .slice := by
    simp only [opens, describe, Descriptor.hasKind, Descriptor.kind?, facts?, Bool.and_eq_true,
      decide_eq_true_eq, Option.map_map] at _ho
    obtain ⟨k, hk, h⟩ := Option.map_eq_some_iff.1 _ho.1
    simp only [Function.comp] at h
    rw [hk, h]
  cases hc : t.core
  -- a defined type is entered for the first time; any other slice is larger than its element
  case named key =>
    simp only [hc, enter?] at _hv
    split at _hv
    next h => cases _hv; exact Prod.Lex.left _ _ (unvisited_cons_lt h.1 h.2)
    · cases _hv
  all_goals
    simp only [hc, enter?] at _hv
    cases _hv
    exact Prod.Lex.right _ (depth_element?_lt hk (item?_eq_some.1 _he).1 (by simp [hc]))

/-- The descriptor at the bottom of a descriptor's slices, and their number. -/
def peel (stop : Descriptor → Bool) (d : Descriptor) : Nat × Descriptor :=
  match d.facts with
  | none => (0, d)
  | some i =>
    if opens stop d then
      match T.item? i.id, T.enter? [] i.id with
      | some item, some visited =>
        let (n, bottom) := T.peelFrom stop visited item
        (n + 1, T.describe bottom)
      | _, _ => (0, d)
    else (0, d)

end TypeTable

end ApiAtlas
