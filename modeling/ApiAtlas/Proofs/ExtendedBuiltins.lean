import ApiAtlas.Document
import ApiAtlas.Proofs.Newtypes

/-!
# How far an extra rule reaches

A rule that is to say more about every number and every text is added to the built-in rule of each type
that has one, and each of these types is registered anew. For the types themselves it is plain what that
does. Newtypes and enumerations are not registered; the extra rule gets to them through their kind,
because one of the types that are registered speaks for it. So what decides is the history, once more:
who is reached is a matter of two lookups in it (`last?_typeRule?_builtinRegistrations`,
`last?_kindRule?_builtinRegistrations`). Every scalar kind has a primitive that speaks for it, and the
kinds that have none are left as they were.
-/

namespace ApiAtlas

/-- The kinds for which a primitive speaks are the scalar ones. -/
theorem Kind.isScalar_iff {k : Kind} : k.isScalar = true ↔ ∃ p, k.canonical? = some p := by
  cases k with
  | struct | slice | map | any => exact iff_of_false Bool.false_ne_true fun ⟨_, h⟩ => by cases h
  | _ => exact iff_of_true rfl ⟨_, rfl⟩

/-- The type has a built-in rule of its own, or it is of a scalar kind. -/
def Descriptor.IsBuiltinOrScalar (d : Descriptor) : Prop :=
  ∃ i, d.facts = some i ∧ (i.id ∈ Rule.builtinIds ∨ i.kind.isScalar = true)

theorem Document.rules_extendBuiltins (doc : Document) (extra : List Rule) :
    (doc.extendBuiltins extra).rules = doc.rules.after (Registry.builtinRegistrations extra) := by
  unfold extendBuiltins Registry.builtinRegistrations Registry.after
  rw [List.foldl_map]
  generalize Registry.builtinDescriptors = ds
  induction ds generalizing doc with
  | nil => rfl
  | cons d rest ih => exact ih _

namespace Registry

open Registration (last?_append)

variable {T : TypeTable} {R : Registry} {d : Descriptor} {i : TypeFacts} {extra : List Rule}

theorem attributesOf_of_rule? {r : Rule} (hi : d.facts = some i) (hr : R.rule? d = some r) :
    R.attributesOf T d = .ok (r.run T d) := by
  rw [attributesOf, hi]
  simp only [hr]

/-- Two registries that have one rule for a descriptor, or both none, agree about its attributes. -/
theorem attributesOf_congr {S : Registry} (h : R.rule? d = S.rule? d) :
    R.attributesOf T d = S.attributesOf T d := by
  unfold attributesOf
  rw [h]

/-! ## The rule of a type when the built-in ones have been extended -/

theorem rule?_extended_of_type (hi : d.facts = some i) (hmem : i.id ∈ Rule.builtinIds) :
    (R.after (builtinRegistrations extra)).rule? d = some (Rule.builtin i.id extra) := by
  rw [rule?, hi, Option.bind_some, lookup_byType_after, last?_typeRule?_builtinRegistrations,
    if_pos hmem, Option.some_or, Option.some_or]

theorem rule?_extended_of_not_type (hi : d.facts = some i) (hmem : i.id ∉ Rule.builtinIds) :
    (R.after (builtinRegistrations extra)).rule? d = (R.byType.lookup i.id).or
      ((i.kind.canonical?.map fun p => Rule.builtin (.primitive p) extra).or
        (R.byKind.lookup i.kind)) := by
  rw [rule?, hi, Option.bind_some, lookup_byType_after, last?_typeRule?_builtinRegistrations,
    if_neg hmem, Option.none_or, lookup_byKind_after, last?_kindRule?_builtinRegistrations]

/-- One built-in type has the say about a type that is reached, before and after: the type itself, or
the primitive that speaks for its kind. -/
theorem exists_builtin_rule? (h : d.IsBuiltinOrScalar) (extra : List Rule) :
    ∃ id, builtin.rule? d = some (Rule.builtin id [])
      ∧ (builtin.after (builtinRegistrations extra)).rule? d = some (Rule.builtin id extra) := by
  obtain ⟨i, hi, hreached⟩ := h
  by_cases hmem : i.id ∈ Rule.builtinIds
  · exact ⟨i.id, rule?_builtin_of_type hi hmem, rule?_extended_of_type hi hmem⟩
  · obtain ⟨p, hp⟩ := Kind.isScalar_iff.1 (hreached.resolve_left hmem)
    have hnone : builtin.byType.lookup i.id = none := by
      rw [lookup_byType_builtin, if_neg hmem]
    have hkind : builtin.byKind.lookup i.kind = some (Rule.builtin (.primitive p) []) := by
      have hstruct : i.kind ≠ .struct := by intro hk; rw [hk] at hp; cases hp
      have hslice : i.kind ≠ .slice := by intro hk; rw [hk] at hp; cases hp
      rw [lookup_byKind_builtin hstruct hslice, builtinKindRule, hp]
    refine ⟨.primitive p, ?_, ?_⟩
    · rw [rule?, hi, Option.bind_some, hnone, hkind, Option.none_or]
    · rw [rule?_extended_of_not_type hi hmem, hnone, hp, Option.none_or]
      rfl

/-- A struct that is no built-in type has no rule: no primitive speaks for its kind. -/
theorem rule?_builtin_of_struct (hi : d.facts = some i) (hmem : i.id ∉ Rule.builtinIds)
    (hk : i.kind = .struct) : builtin.rule? d = none := by
  have hnone : builtin.byKind.lookup .struct = none := by
    rw [builtin_eq_after, lookup_byKind_after, builtinHistory_eq, last?_append,
      last?_kindRule?_builtinRegistrations]
    rfl
  rw [rule?, hi, Option.bind_some, lookup_byType_builtin, if_neg hmem, Option.none_or, hk, hnone]

theorem not_isBuiltinOrScalar_of_struct (hi : d.facts = some i) (hmem : i.id ∉ Rule.builtinIds)
    (hk : i.kind = .struct) : ¬ d.IsBuiltinOrScalar := by
  rintro ⟨j, hj, h⟩
  cases hi.symm.trans hj
  rcases h with h | h
  · exact hmem h
  · rw [hk] at h
    cases h

/-- No other type notices. -/
theorem rule?_extended_of_other (h : ¬ d.IsBuiltinOrScalar) (extra : List Rule) :
    (builtin.after (builtinRegistrations extra)).rule? d = builtin.rule? d := by
  cases hi : d.facts with
  | none => simp only [rule?, hi, Option.bind_none]
  | some i =>
    have hmem : i.id ∉ Rule.builtinIds := fun hmem => h ⟨i, hi, .inl hmem⟩
    have hcanonical : i.kind.canonical? = none := by
      cases hp : i.kind.canonical? with
      | none => rfl
      | some p => exact absurd ⟨i, hi, .inr (Kind.isScalar_iff.2 ⟨p, hp⟩)⟩ h
    rw [rule?_extended_of_not_type hi hmem, hcanonical, Option.map_none, Option.none_or, rule?, hi,
      Option.bind_some]

end Registry

/-- What is of a scalar kind is reached, under whatever name it goes. -/
theorem TypeTable.isBuiltinOrScalar_describe {T : TypeTable} {t : TypeExpr} {k : Kind}
    (hk : T.kind? t = some k) (hscalar : k.isScalar = true) :
    (T.describe t).IsBuiltinOrScalar := by
  refine ⟨⟨t.core, T.fullName t.core, T.name? t.core, T.isExported t.core, k⟩, ?_, .inr hscalar⟩
  show T.facts? t = _
  rw [TypeTable.facts?, hk]
  rfl

namespace Registry

/-- **A rule that is added to all built-in ones reaches every scalar and nothing else.** Over a type that
has a built-in rule or is of a scalar kind it runs after what was written before; there always is
something. All other types have the attributes that they had, or the error. A document that adds the rule
does so by the same registrations. -/
theorem extra_rule_reaches_scalars_only {T : TypeTable} (extra : Rule) :
    (∀ d : Descriptor, d.IsBuiltinOrScalar → ∃ a, builtin.attributesOf T d = .ok a
        ∧ (builtin.after (builtinRegistrations [extra])).attributesOf T d = .ok (extra T d a))
      ∧ (∀ d : Descriptor, ¬ d.IsBuiltinOrScalar →
        (builtin.after (builtinRegistrations [extra])).attributesOf T d = builtin.attributesOf T d)
      ∧ ∀ doc : Document, (doc.extendBuiltins [extra]).rules
        = doc.rules.after (builtinRegistrations [extra]) := by
  refine ⟨fun d h => ?_, fun d h => attributesOf_congr (rule?_extended_of_other h [extra]),
    fun doc => doc.rules_extendBuiltins [extra]⟩
  obtain ⟨id, hbefore, hafter⟩ := exists_builtin_rule? h [extra]
  obtain ⟨i, hi, _⟩ := h
  -- the extra rule is the last member of the new rule, and the others are those of the old one
  exact ⟨_, attributesOf_of_rule? hi hbefore, attributesOf_of_rule? hi hafter⟩

/-- A least value is written for amounts, which are integers by another name, and not for days, which
no rule knows. -/
theorem extra_rule_reaches_scalars_only_cents :
    (∃ a, builtin.attributesOf Example.ledger (Example.ledger.describe (.named "Cents")) = .ok a
        ∧ (builtin.after (builtinRegistrations [Rule.set "minimum" "0"])).attributesOf Example.ledger
          (Example.ledger.describe (.named "Cents")) = .ok (a.insert "minimum" "0"))
      ∧ (builtin.after (builtinRegistrations [Rule.set "minimum" "0"])).attributesOf Example.ledger
        (Example.ledger.describe (.named "Day")) = .error (.noRule .struct "app::Day") := by
  obtain ⟨hreached, hother, _⟩ :=
    extra_rule_reaches_scalars_only (T := Example.ledger) (Rule.set "minimum" "0")
  have hcents : Example.ledger.kind? (.named "Cents") = some .i64 := by
    have hn : Example.ledger.newtype? "Cents" = some (.primitive .i64) := rfl
    rw [TypeTable.kind?_newtype hn]
    exact TypeTable.kind?_of_primitive _
  have hday : (Example.ledger.describe (.named "Day")).facts
      = some ⟨.named "Day", "app::Day", some "Day", true, .struct⟩ := by
    have hkind : Example.ledger.kind? (.named "Day") = some .struct := by
      have hn : Example.ledger.newtype? "Day" = some (.primitive .naiveDate) := rfl
      rw [TypeTable.kind?_newtype hn]
      exact TypeTable.kind?_of_primitive _
    show Example.ledger.facts? (.named "Day") = _
    rw [TypeTable.facts?, hkind]
    rfl
  have hmem : TypeExpr.named "Day" ∉ Rule.builtinIds := fun h => by
    obtain ⟨p, hp⟩ := exists_primitive_of_mem_builtinIds h
    cases hp
  refine ⟨hreached _ (TypeTable.isBuiltinOrScalar_describe hcents rfl), ?_⟩
  rw [hother _ (not_isBuiltinOrScalar_of_struct hday hmem rfl), attributesOf, hday]
  simp only [rule?_builtin_of_struct hday hmem rfl]

end Registry

end ApiAtlas
