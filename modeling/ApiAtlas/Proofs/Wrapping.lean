import ApiAtlas.Proofs.ComposedRules
import ApiAtlas.Proofs.CorrespondingDocuments
import ApiAtlas.Proofs.Redeclaration
import ApiAtlas.Proofs.References

/-!
# Options and pointers around the types of fields

A field may hold a type itself or the type inside options and pointers. The document is the same but
for the attribute `nullable`, and quite the same where no option was added: identities, names, kinds
and everything else that walks and renderings look at are those of the type within.

A table whose field types are wrapped corresponds to the table as it was. That leaves the rules, the
only ones to see whether a type may be null. A composed rule looks at that to decide about `nullable`
and at nothing that it has written before, so all other attributes come out the same.
-/

namespace ApiAtlas

/-! ## Wrapped tables -/

/-- The second type is the first one inside options and pointers, in any nesting; inside pointers
only, if there are to be no `options`. -/
inductive TypeExpr.Wraps (options : Bool) (t : TypeExpr) : TypeExpr → Prop where
  | itself : Wraps options t t
  | pointer (p : Pointer) {u : TypeExpr} : Wraps options t u → Wraps options t (.pointer p u)
  | option {u : TypeExpr} : options = true → Wraps options t u → Wraps options t (.option u)

/-- The fields are the same, but for wrappers around the type. -/
structure Field.Wraps (options : Bool) (f f' : Field) : Prop where
  untyped : f.untyped = f'.untyped
  type : Option.Rel (TypeExpr.Wraps options) f.type f'.type

theorem Field.Wraps.refl {options : Bool} (f : Field) : f.Wraps options f where
  untyped := rfl
  type := by
    cases f.type with
    | none => exact .none
    | some t => exact .some .itself

theorem Field.Wraps.look {options : Bool} {f f' : Field} {α : Type} (h : f.Wraps options f')
    (look : Field → α) (hlook : ∀ f : Field, look f.untyped = look f) : look f = look f' := by
  rw [← hlook, h.untyped, hlook]

theorem Field.Wraps.isVisible {options : Bool} {f f' : Field} (h : f.Wraps options f') :
    f.isVisible = f'.isVisible :=
  h.look Field.isVisible fun _ => rfl

/-- The bodies are the same, but for wrappers around the types of fields. -/
inductive TypeBody.Wraps (options : Bool) : TypeBody → TypeBody → Prop where
  | struct {fields fields' : List Field} : List.Forall₂ (Field.Wraps options) fields fields' →
      Wraps options (.struct fields) (.struct fields')
  | other (body : TypeBody) : Wraps options body body

/-- The definitions are the same, but for wrappers around the types of fields. -/
structure TypeDef.Wraps (options : Bool) (d d' : TypeDef) : Prop where
  name : d.name = d'.name
  fullName : d.fullName = d'.fullName
  exported : d.exported = d'.exported
  body : TypeBody.Wraps options d.body d'.body

/-- The tables have the same definitions, but for wrappers around the types of fields. -/
def TypeTable.Wraps (options : Bool) (T T' : TypeTable) : Prop :=
  List.Forall₂ (fun e e' => e.1 = e'.1 ∧ TypeDef.Wraps options e.2 e'.2) T.defs T'.defs

theorem TypeDef.Wraps.redeclares {options : Bool} {d d' : TypeDef} (h : d.Wraps options d') :
    d.Redeclares (List.Forall₂ (Field.Wraps options)) d' where
  name := h.name
  fullName := h.fullName
  exported := h.exported
  body := by
    obtain ⟨_, _, _, body⟩ := d
    obtain ⟨_, _, _, body'⟩ := d'
    cases h.body with
    | struct hfields => exact .struct hfields
    | other body => exact .other body

namespace TypeTable

variable {options : Bool} {T T' : TypeTable}

theorem facts?_of_wraps {t u : TypeExpr} (h : t.Wraps options u) : T.facts? u = T.facts? t := by
  induction h with
  | itself => rfl
  | pointer p _ ih => rw [facts?_pointer, ih]
  | option _ _ ih => rw [facts?_option, ih]

theorem isCircular_of_wraps {t u : TypeExpr} (h : t.Wraps options u) :
    T.isCircular u = T.isCircular t := by
  induction h with
  | itself => rfl
  | pointer p _ ih => rw [isCircular, underlyingFrom_pointer, ← isCircular, ih]
  | option _ _ ih => rw [isCircular_option, ih]

theorem isNullable_pointer (p : Pointer) (t : TypeExpr) :
    T.isNullable (.pointer p t) = T.isNullable t := by
  rw [isNullable, underlyingFrom_pointer, isNullable]

/-- Pointers alone leave no trace at all. -/
theorem isNullable_of_wraps {t u : TypeExpr} (h : t.Wraps false u) :
    T.isNullable u = T.isNullable t := by
  induction h with
  | itself => rfl
  | pointer p _ ih => rw [isNullable_pointer, ih]
  | option hoptions _ _ => cases hoptions

/-! ## Wrapped tables correspond -/

namespace Wraps

variable (h : T.Wraps options T')

include h

theorem redeclares : T.Redeclares (List.Forall₂ (Field.Wraps options)) T' := by
  intro key
  obtain ⟨defs⟩ := T
  obtain ⟨defs'⟩ := T'
  unfold TypeTable.find?
  simp only [TypeTable.Wraps] at h
  induction h with
  | nil => exact .none
  | @cons e e' rest rest' he _ ih =>
    rw [List.lookup_cons, List.lookup_cons, he.1]
    split
    · exact .some he.2.redeclares
    · exact ih

theorem describe (t : TypeExpr) : T'.describe t = T.describe t := h.redeclares.describe t

/-- A field and the same field with its type wrapped lead to alike descriptors. -/
theorem fieldsMatch {f f' : Field} (hf : f.Wraps options f') (hv : f.isVisible = true) :
    FieldsMatch (Descriptor.Alike options) T T' f f' where
  visible := hf.isVisible.symm.trans hv
  label := hf.look Field.label fun _ => rfl
  flattened := hf.look Field.flattened fun _ => rfl
  type := by
    have htype := hf.type
    generalize f.type = o at htype
    generalize f'.type = o' at htype
    cases htype with
    | none => exact .none
    | @some t u hwraps =>
      refine .some ⟨?_, ?_, fun hoptions => ?_, congrArg some hf.untyped⟩
      · rw [h.redeclares.isCircular, isCircular_of_wraps hwraps]
      · rw [h.describe]
        exact (facts?_of_wraps hwraps).symm
      · rw [h.describe]
        rw [hoptions] at hwraps
        exact (isNullable_of_wraps hwraps).symm

/-- **Wrapping the types of fields leaves a table that corresponds to the first.** -/
theorem corresponds : Corresponds (Descriptor.Alike options) T T' := by
  refine h.redeclares.corresponds (fun fields => List.forall₂_same.2 fun f _ => .refl f)
    (similarity_alike options) (fun fields fields' hfields => ?_) fun fields fields' hfields => ?_
  · rw [← List.length_eq_zero_iff, ← List.length_eq_zero_iff, hfields.length_eq]
  · have hvisible : List.Forall₂ (Field.Wraps options) (fields.filter (·.isVisible))
        (fields'.filter (·.isVisible)) := by
      refine List.rel_filter (fun f f' hf => ?_) hfields
      exact iff_of_eq (congrArg (· = true) hf.isVisible)
    have hall : ∀ f ∈ fields.filter (·.isVisible), f.isVisible = true :=
      fun f hf => (List.mem_filter.1 hf).2
    exact ((List.forall₂_and_left _ _).2 ⟨hall, hvisible⟩).imp fun f f' hf =>
      h.fieldsMatch hf.2 hf.1

end Wraps

end TypeTable

namespace Policy

/-- The policies by which the parts of a document are rendered. -/
def provided : List Policy := [inlineAll, referExported, inlineUnreferable]

theorem respects_of_provided {D : Descriptor → Descriptor → Prop} (h : Similarity D)
    {policy : Policy} (hpolicy : policy ∈ provided) : policy.Respects D := by
  simp only [provided, List.mem_cons, List.not_mem_nil, or_false] at hpolicy
  rcases hpolicy with rfl | rfl | rfl
  · exact respects_inlineAll
  · exact respects_referExported h
  · exact respects_inlineUnreferable h

end Policy

/-! ## An example: the field of a session, boxed and optional -/

namespace Example

/-- A field whose type is wrapped. -/
def wrappedProperty (wrap : TypeExpr → TypeExpr) (name : String) (t : TypeExpr) : Field :=
  { property name t with type := some (wrap t) }

/-- The table of the example with every field's type wrapped. -/
def wrapped (wrap : TypeExpr → TypeExpr) : TypeTable :=
  ⟨[("Device", { deviceDef with
      body := .struct [wrappedProperty wrap "model" (.primitive .string)] }),
    ("Session", { sessionDef with
      body := .struct [wrappedProperty wrap "device" (.named "Device")] })]⟩

theorem wraps_wrapped {options : Bool} {wrap : TypeExpr → TypeExpr}
    (h : ∀ t : TypeExpr, t.Wraps options (wrap t)) : table.Wraps options (wrapped wrap) := by
  have hbody : ∀ name t, TypeBody.Wraps options (.struct [property name t])
      (.struct [wrappedProperty wrap name t]) :=
    fun name t => .struct (.cons ⟨rfl, .some (h t)⟩ .nil)
  exact .cons ⟨rfl, rfl, rfl, rfl, hbody _ _⟩ (.cons ⟨rfl, rfl, rfl, rfl, hbody _ _⟩ .nil)

theorem composed_rules : document.rules.Composed where
  byType := fun entry hentry => by
    rw [List.mem_singleton.1 hentry]
    exact ⟨.typed "string" "", rfl⟩
  byKind := fun entry hentry => by cases hentry

end Example

namespace Document

/-- **Options and pointers around the types of fields add `nullable` and nothing else.** The type of a
descriptor that both tables have is described alike. Alike descriptors, such as a descriptor and
itself or those of a field and the same field wrapped, have the same schema and the same object but for
`nullable`, under every policy by which parts of a document are rendered, or fail with the same error;
and a document comes out the same but for `nullable`, or fails with the same error. Where no options
were added, `nullable` is the same too. -/
theorem wrappers_add_nullable_only {options : Bool} {T T' : TypeTable} {R : Registry}
    (hT : T.Wraps options T') (hR : R.Composed) :
    (∀ t, T'.describe t = T.describe t)
      ∧ (∀ policy ∈ Policy.provided, ∀ d e : Descriptor, d.Alike options e →
        (T.schemaOf R policy d).map (Schema.mapData Attributes.withoutNullable)
            = (T'.schemaOf R policy e).map (Schema.mapData Attributes.withoutNullable)
          ∧ (T.objectOf R policy d).map (Schema.mapData Attributes.withoutNullable)
            = (T'.objectOf R policy e).map (Schema.mapData Attributes.withoutNullable))
      ∧ (∀ doc : Document, doc.rules = R →
        (assemble T doc).map (·.mapSchemas (Schema.mapData Attributes.withoutNullable))
          = (assemble T' doc).map (·.mapSchemas (Schema.mapData Attributes.withoutNullable)))
      ∧ (options = false →
        (∀ policy ∈ Policy.provided, ∀ d e : Descriptor, d.Alike false e →
          T.schemaOf R policy d = T'.schemaOf R policy e
            ∧ T.objectOf R policy d = T'.objectOf R policy e)
        ∧ ∀ doc : Document, doc.rules = R → assemble T doc = assemble T' doc) := by
  have h := hT.corresponds
  refine ⟨hT.describe, fun policy hpolicy d e hde => ?_, fun doc hdoc => ?_, fun hoptions => ?_⟩
  · have hrespects : policy.Respects (Descriptor.Alike options) :=
      Policy.respects_of_provided h.similar hpolicy
    exact ⟨(h.schemaOf (hR.respects T T') hrespects hde).map_eq,
      (h.objectOf (hR.respects T T') hrespects hde.facts).map_eq⟩
  · subst hdoc
    exact (assemble_agree h (hR.respects T T')).map_eq
  · subst hoptions
    -- with attributes left as they are, agreement is equality
    refine ⟨fun policy hpolicy d e hde => ?_, fun doc hdoc => ?_⟩
    · have hrespects : policy.Respects (Descriptor.Alike false) :=
        Policy.respects_of_provided h.similar hpolicy
      exact ⟨(h.schemaOf (hR.respects_id T T') hrespects hde).eq Schema.mapData_id,
        (h.objectOf (hR.respects_id T T') hrespects hde.facts).eq Schema.mapData_id⟩
    · subst hdoc
      exact (assemble_agree h (hR.respects_id T T')).eq
        (OpenApi.Document.mapSchemas_id Schema.mapData_id)

/-- The example's document is the same with every field optional and boxed, but for `nullable`. With
every field just boxed, and under the built-in rules, it is quite the same. -/
theorem wrappers_add_nullable_only_document :
    (∃ out out', assemble Example.table Example.document = .ok out
        ∧ assemble (Example.wrapped fun t => .option (.pointer .box t)) Example.document = .ok out'
        ∧ out'.mapSchemas (Schema.mapData Attributes.withoutNullable)
          = out.mapSchemas (Schema.mapData Attributes.withoutNullable))
      ∧ assemble Example.table { Example.document with rules := Registry.builtin }
        = assemble (Example.wrapped fun t => .pointer .box t)
          { Example.document with rules := Registry.builtin } := by
  constructor
  · have hT : Example.table.Wraps true (Example.wrapped fun t => .option (.pointer .box t)) :=
      Example.wraps_wrapped fun t => .option rfl (.pointer .box .itself)
    have hsame := (wrappers_add_nullable_only hT Example.composed_rules).2.2.1 Example.document rfl
    obtain ⟨out, hout, _⟩ := Example.document_assembles
    rw [hout] at hsame
    obtain ⟨out', hout', heq⟩ := map_eq_ok.1 hsame.symm
    exact ⟨out, out', hout, hout', heq⟩
  · have hT : Example.table.Wraps false (Example.wrapped fun t => .pointer .box t) :=
      Example.wraps_wrapped fun t => .pointer .box .itself
    exact ((wrappers_add_nullable_only hT Registry.composed_builtin).2.2.2 rfl).2 _ rfl

end Document

end ApiAtlas
