import ApiAtlas.Proofs.Histories

/-!
# What registrations preserve

Rules are only ever added to a registry: a registration puts its rule before those that are there,
so a kind that has a rule keeps one. The built-in registry starts with a rule for every kind that
has no structure of its own, either through the primitive that speaks for the kind or through the
kind itself. So however a registry came from the built-in one, no type of such a kind lacks a rule.
-/

namespace ApiAtlas.Registry

/-- The registries that come from the built-in one by registrations, in any number and order. -/
inductive FromBuiltin : Registry → Prop where
  | builtin : FromBuiltin Registry.builtin
  | withTypeRule {R : Registry} (d : Descriptor) (r : Rule) :
      FromBuiltin R → FromBuiltin (R.withTypeRule d r)
  | withKindRule {R : Registry} (k : Kind) (r : Rule) :
      FromBuiltin R → FromBuiltin (R.withKindRule k r)

/-- There is a rule for the types of this kind that have none of their own. -/
def Covers (R : Registry) (k : Kind) : Prop := (R.byKind.lookup k).isSome

variable {R : Registry} {d : Descriptor} {k : Kind}

/-! ## One registration -/

/-- A kind that has a rule has one after any registration, its old or the new one. -/
theorem Covers.apply (h : R.Covers k) (e : Registration) : (R.apply e).Covers k := by
  unfold Covers
  rw [lookup_byKind_apply]
  cases e.kindRule? k with
  | some r => rfl
  | none => exact h

/-! ## All registrations -/

/-- **Every kind without a structure of its own has a rule,** whatever was registered. -/
theorem FromBuiltin.covers (h : R.FromBuiltin) (hstruct : k ≠ .struct) (hslice : k ≠ .slice) :
    R.Covers k := by
  induction h with
  | builtin =>
    unfold Covers
    rw [lookup_byKind_builtin hstruct hslice]
    rfl
  | withTypeRule d r _ ih => exact ih.apply (.ofType d r)
  | withKindRule k' r _ ih => exact ih.apply (.ofKind k' r)

/-- A type of a kind that has a rule is never without one. -/
theorem Covers.rule?_ne_none {i : TypeFacts} (h : R.Covers i.kind) (hi : d.facts = some i) :
    R.rule? d ≠ none := by
  obtain ⟨r, hr⟩ := Option.isSome_iff_exists.1 h
  simp [rule?, hi, hr]

end ApiAtlas.Registry
