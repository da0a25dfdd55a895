import ApiAtlas.Derive.Item
import ApiAtlas.Proofs.Failures
import ApiAtlas.Proofs.Registries
import ApiAtlas.Proofs.Roots

/-!
# Defects do not occur

Some errors report a defect rather than a mistake: no type where there has to be one, a visible field
without a type, a slice without an element, a kind without a rule. They stay out as long as the types
are derived, declared as placeholders or as newtypes, nothing that is no type stands for a field, an
element or the inside of a newtype, and the rules come from the built-in ones.

The argument is one invariant. A type is *solid* if there is a type behind it and behind the items of
all slices that are written in it. What the definitions of a well-formed table mention is solid; then
so is what a newtype leads to, what a slice holds, and every member of a struct. A rendering comes by
solid types only, and at a solid type none of the defects is met. Whatever type is left at a site has
a rule, since the kinds that need one are covered by every registry that comes from the built-in one.

A well-formed table may still have types without end, newtypes or slices that lead back to
themselves. They are no defects either: where a run comes to one, there is no outcome at all.
-/

namespace ApiAtlas

/-- The errors that are the author's to mend, by changing the types or the operations. -/
def Error.IsMistake : Error → Prop
  | .endlessType _ | .flattenedNonStruct _ _ | .nameClash _ _ _ | .repeatedOperation _ _
  | .repeatedResponse _ _ => True
  | .noRule _ _ | .defect _ | .notWritten _ | .noEnd => False

/-! ## Well-formed input -/

/-- The item types of the slices that are written in a type, from the outside in. A dictionary shows
nothing of its values, so what is written in them does not count. -/
def TypeExpr.items : TypeExpr → List TypeExpr
  | .option t | .pointer _ t => t.items
  | .sequence _ t | .array t _ => t :: t.items
  | .empty | .primitive _ | .named _ | .dictionary _ _ => []

/-- The types that a definition mentions. -/
def TypeBody.mentions : TypeBody → List TypeExpr
  | .struct fields => fields.filterMap (·.type)
  | .newtype inner => [inner]
  | .enumeration => []
  | .raw _ element => element.toList

/-- The definitions that are not written by hand. -/
inductive TypeDef.Declared : TypeDef → Prop where
  /-- What is derived from an item. -/
  | derived (item : Derive.Item) (d : Derive.Derived) (fullName : String) :
      item.derive = .ok d → Declared (d.toTypeDef fullName)
  /-- A type that only a rule gives a form. -/
  | placeholder (name : Option String) (fullName : String) : Declared (.placeholder name fullName)
  /-- Another type under a new name. -/
  | newtype (name : Option String) (fullName : String) (exported : Bool) (inner : TypeExpr) :
      Declared ⟨name, fullName, exported, .newtype inner⟩

namespace TypeTable

/-- There is a type, which may be one that newtypes never arrive at. (A key without a definition is no
type.) -/
def IsType (T : TypeTable) (t : TypeExpr) : Prop :=
  T.isCircular t = true ∨ (T.describe t).isEmpty = false

/-- There is a type, and there are types for the items of all slices that are written in it. -/
structure Solid (T : TypeTable) (t : TypeExpr) : Prop where
  isType : T.IsType t
  items : ∀ item ∈ t.items, T.IsType item

/-- Some type goes on without end: its newtypes, or its slices, lead back to themselves. -/
def HasEndlessType (T : TypeTable) : Prop :=
  (∃ t, T.isCircular t = true) ∨ ∃ d, T.Describes d ∧ T.isBottomless d = true

/-- No definition is written by hand, and none mentions what is no type. -/
structure WellFormed (T : TypeTable) : Prop where
  declared : ∀ {key d}, T.find? key = some d → d.Declared
  solid : ∀ {key d}, T.find? key = some d → ∀ t ∈ d.body.mentions, T.Solid t

end TypeTable

/-- The bodies of what an operation returns. -/
def Returns.bodies : Returns → List TypeExpr
  | .shape body => [body.type]
  | .responses list => list.map (·.body.type)

/-- The types that an operation mentions. -/
def Operation.mentions (op : Operation) : List TypeExpr :=
  op.params.type :: (op.onSuccess.bodies ++ op.onFailure.bodies)

/-- The operation may be without parameters and bodies, but none of its slices is without an item
type. -/
def Operation.WellFormed (T : TypeTable) (op : Operation) : Prop :=
  ∀ t ∈ op.mentions, ∀ item ∈ t.items, T.IsType item

/-! ## What is derived -/

namespace Derive

theorem ItemField.type_of_visible {f : ItemField} {style : Option NamingStyle} {field : Field}
    (h : f.field? style = .ok (some field)) (hv : field.isVisible = true) : field.type ≠ none := by
  unfold ItemField.field? at h
  obtain ⟨attributes, _, h⟩ := bind_eq_ok.1 h
  split at h
  · cases h
  · cases h
    -- a derived field has a name, so it is visible only as one that is exported or flattened
    have hlooked : (!f.visibility.isEmpty || attributes.flatten) = true := by
      rw [Bool.or_comm]
      exact hv
    rw [if_pos hlooked]
    exact Option.some_ne_none f.type

theorem type_of_visible_of_fieldsOf {style : Option NamingStyle} {fields : List ItemField}
    {out : List Field} (h : fieldsOf style fields = .ok out) :
    ∀ f ∈ out, f.isVisible = true → f.type ≠ none := by
  induction fields generalizing out with
  | nil =>
    rw [fieldsOf] at h
    cases h
    intro f hf
    cases hf
  | cons f rest ih =>
    rw [fieldsOf] at h
    obtain ⟨field, hfield, h⟩ := bind_eq_ok.1 h
    obtain ⟨later, hlater, h⟩ := bind_eq_ok.1 h
    cases h
    intro g hg hv
    rcases List.mem_append.1 hg with hg | hg
    · rw [Option.mem_toList] at hg
      rw [hg] at hfield
      exact f.type_of_visible hfield hv
    · exact ih hlater g hg hv

/-- The body of a derived type is that of a struct whose visible fields all have a type, a newtype,
or an enumeration. -/
theorem ItemBody.derive_cases {body : ItemBody} {style : Option NamingStyle} {out : TypeBody}
    (h : body.derive style = .ok out) :
    (∃ fields, out = .struct fields ∧ ∀ f ∈ fields, f.isVisible = true → f.type ≠ none)
      ∨ (∃ inner, out = .newtype inner) ∨ out = .enumeration := by
  unfold ItemBody.derive at h
  split at h
  · obtain ⟨fields, hfields, rfl⟩ := map_eq_ok.1 h
    exact .inl ⟨fields, rfl, type_of_visible_of_fieldsOf hfields⟩
  · cases h
    exact .inl ⟨[], rfl, fun f hf => by cases hf⟩
  · cases h
    exact .inl ⟨[], rfl, fun f hf => by cases hf⟩
  · cases h
    exact .inr (.inl ⟨_, rfl⟩)
  · cases h
  · split at h
    · cases h
    · cases h
      exact .inr (.inr rfl)
  · cases h

theorem Item.derive_body {item : Item} {d : Derived} (h : item.derive = .ok d) :
    ∃ style, item.body.derive style = .ok d.body := by
  unfold Item.derive at h
  split at h
  · cases h
  obtain ⟨container, _, h⟩ := bind_eq_ok.1 h
  obtain ⟨body, hbody, h⟩ := bind_eq_ok.1 h
  cases h
  exact ⟨container.naming, hbody⟩

end Derive

/-- The same three kinds of body are those of all definitions that are not written by hand. -/
theorem TypeDef.Declared.body_cases {d : TypeDef} (h : d.Declared) :
    (∃ fields, d.body = .struct fields ∧ ∀ f ∈ fields, f.isVisible = true → f.type ≠ none)
      ∨ (∃ inner, d.body = .newtype inner) ∨ d.body = .enumeration := by
  cases h with
  | derived item d fullName h =>
    obtain ⟨style, hbody⟩ := Derive.Item.derive_body h
    exact Derive.ItemBody.derive_cases hbody
  | placeholder name fullName => exact .inl ⟨[], rfl, fun f hf => by cases hf⟩
  | newtype name fullName exported inner => exact .inr (.inl ⟨inner, rfl⟩)

/-! ## Solid types -/

theorem TypeExpr.items_core (t : TypeExpr) : t.core.items = t.items := by
  induction t with
  | option t ih => exact ih
  | pointer p t ih => exact ih
  | _ => rfl

theorem TypeExpr.items_of_mem {t item : TypeExpr} (h : item ∈ t.items) :
    ∀ e ∈ item.items, e ∈ t.items := by
  induction t with
  | option t ih => exact ih h
  | pointer p t ih => exact ih h
  | sequence s t ih | array t n ih =>
    intro e he
    rcases List.mem_cons.1 h with rfl | h
    · exact List.mem_cons_of_mem _ he
    · exact List.mem_cons_of_mem _ (ih h e he)
  | _ => cases h

namespace TypeTable

variable {T : TypeTable} {R : Registry}

/-- A field of a type is declared in the definition of some key. -/
theorem exists_struct_of_mem_fields {id : TypeId} {f : Field} (h : f ∈ T.fields id) :
    ∃ key d fields, T.find? key = some d ∧ d.body = .struct fields ∧ f ∈ fields := by
  unfold fields at h
  split at h
  · split at h
    next key _ =>
      split at h
      next name fullName exported fields hd => exact ⟨key, _, fields, hd, rfl, h⟩
      · cases h
    · cases h
  · cases h

theorem exists_newtype {key : String} {inner : TypeExpr} (h : T.newtype? key = some inner) :
    ∃ d, T.find? key = some d ∧ d.body = .newtype inner := by
  obtain ⟨d, hd, hbody⟩ := Option.bind_eq_some_iff.1 h
  refine ⟨d, hd, ?_⟩
  split at hbody
  next inner' hinner =>
    cases hbody
    exact hinner
  · cases hbody

/-- What the newtypes of a well-formed table lead to mentions no item that is no type. -/
theorem WellFormed.items_of_unwraps (hT : T.WellFormed) {n : Nat} {t : TypeExpr}
    {u : TypeId × Bool} (h : T.Unwraps n t u) (ht : ∀ item ∈ t.items, T.IsType item) :
    ∀ item ∈ u.1.items, T.IsType item := by
  induction h with
  | bottom _ =>
    rw [TypeExpr.items_core]
    exact ht
  | newtype _ hn _ ih =>
    obtain ⟨d, hd, hbody⟩ := exists_newtype hn
    have hinner : T.Solid _ := hT.solid hd _ (by rw [hbody]; exact List.mem_singleton_self _)
    exact ih hinner.items

/-- The items that are written in what a solid type comes to are solid themselves. -/
theorem WellFormed.solid_items_underlying (hT : T.WellFormed) {t : TypeExpr} (ht : T.Solid t) :
    ∀ item ∈ (T.underlying t).items, T.Solid item := by
  have hitems : ∀ item ∈ (T.underlying t).items, T.IsType item := by
    cases hu : T.underlyingFrom [] t with
    | none =>
      rw [underlying, hu]
      exact fun item hitem => by cases hitem
    | some u =>
      obtain ⟨_, h⟩ := exists_unwraps hu
      rw [underlying, hu]
      exact hT.items_of_unwraps h ht.items
  intro item hitem
  exact ⟨hitems item hitem, fun e he => hitems e (TypeExpr.items_of_mem hitem e he)⟩

/-- A slice holds something, and that is solid again. -/
theorem WellFormed.exists_element? (hT : T.WellFormed) {t : TypeExpr} (ht : T.Solid t)
    (hk : T.kind? t = some .slice) : ∃ item, T.element? t = some item ∧ T.Solid item := by
  have hsolid := hT.solid_items_underlying ht
  unfold kind? at hk
  unfold element?
  cases hu : T.underlying t with
  | sequence s item =>
    rw [hu] at hsolid
    exact ⟨item, rfl, hsolid item List.mem_cons_self⟩
  | array item n =>
    rw [hu] at hsolid
    exact ⟨item, rfl, hsolid item List.mem_cons_self⟩
  | named key =>
    rw [hu] at hk
    obtain ⟨d, hd, hkind⟩ := Option.bind_eq_some_iff.1 hk
    -- of the definitions only one written by hand is that of a slice
    rcases (hT.declared hd).body_cases with ⟨fields, hbody, _⟩ | ⟨inner, hbody⟩ | hbody
    all_goals rw [hbody] at hkind; cases hkind
  | primitive p =>
    rw [hu] at hk
    cases p <;> cases hk
  | empty => rw [hu] at hk; cases hk
  | dictionary d value => rw [hu] at hk; cases hk
  | option t => rw [hu] at hk; cases hk
  | pointer p t => rw [hu] at hk; cases hk

/-! ## Solid descriptors -/

/-- The descriptor is that of a solid type, reached in any way. -/
def IsSolid (T : TypeTable) (d : Descriptor) : Prop :=
  d.isEmpty = false ∧ ∃ t, d.facts = T.facts? t ∧ T.Solid t

theorem IsSolid.describes {d : Descriptor} (h : T.IsSolid d) : T.Describes d := by
  obtain ⟨_, t, hd, _⟩ := h
  exact ⟨t, hd⟩

theorem IsSolid.exists_facts {d : Descriptor} (h : T.IsSolid d) : ∃ i, d.facts = some i := by
  have hsome := h.1
  cases hi : d.facts with
  | none =>
    rw [Descriptor.isEmpty, hi] at hsome
    cases hsome
  | some i => exact ⟨i, rfl⟩

/-- A solid type that can be described is described. -/
theorem Solid.describe {t : TypeExpr} (h : T.Solid t) (hc : T.isCircular t = false) :
    T.IsSolid (T.describe t) := by
  refine ⟨?_, t, rfl, h⟩
  rcases h.isType with hcircular | hsome
  · rw [hc] at hcircular
    cases hcircular
  · exact hsome

theorem WellFormed.exists_element?_id (hT : T.WellFormed) {d : Descriptor} (h : T.IsSolid d)
    {i : TypeFacts} (hi : d.facts = some i) (hk : i.kind = .slice) :
    ∃ item, T.element? i.id = some item ∧ T.Solid item := by
  obtain ⟨_, t, hd, ht⟩ := h
  have hfacts : T.facts? t = some i := by rw [← hd, hi]
  rw [id_of_facts? hfacts, element?_core]
  exact hT.exists_element? ht (by rw [kind?_of_facts? hfacts, hk])

/-- What lies behind the slices of a solid type is solid. -/
theorem WellFormed.isSolid_of_behind (hT : T.WellFormed) {stop : Descriptor → Bool} {n : Nat}
    {d b : Descriptor} (h : T.Behind stop n d b) (hd : T.IsSolid d) : T.IsSolid b := by
  induction h with
  | here => exact hd
  | element ho he _ ih =>
    obtain ⟨i, item, hi, hitem, rfl⟩ := element_eq_some.1 he
    obtain ⟨hitem, hc⟩ := item?_eq_some.1 hitem
    obtain ⟨item', hitem', hsolid⟩ :=
      hT.exists_element?_id hd hi ((hasKind_iff hi).1 (hasKind_of_opens ho))
    rw [hitem] at hitem'
    cases hitem'
    exact ih (hsolid.describe hc)

theorem WellFormed.isSolid_of_mem_members (hT : T.WellFormed) {d m : Descriptor}
    {ms : List Descriptor} (h : T.members d = .ok ms) (hm : m ∈ ms) : T.IsSolid m := by
  refine forall_of_mem_members (fun id f hf _ _ t ht hc => ?_) h hm
  obtain ⟨key, d, fields, hd, hbody, hmem⟩ := exists_struct_of_mem_fields hf
  have hsolid : T.Solid t := hT.solid hd t (by rw [hbody]; exact List.mem_filterMap.2 ⟨f, hmem, ht⟩)
  exact ⟨(hsolid.describe hc).1, t, rfl, hsolid⟩

/-! ## No defect at any site -/

/-- The outcome is a mistake, or there is none for want of an end. -/
def Expects (T : TypeTable) (e : Error) : Prop := e.IsMistake ∨ e = .noEnd ∧ T.HasEndlessType

/-- Where renderings of solid types fail, the author is to mend it. -/
theorem WellFormed.failureSites (hT : T.WellFormed) (hR : R.FromBuiltin) :
    FailureSites T R T.IsSolid T.Expects where
  member := fun _ _ h _ hm => hT.isSolid_of_mem_members h hm
  endless := fun _ => .inl trivial
  bottomless := fun d hd hb => .inr ⟨rfl, .inr ⟨d, hd, hb⟩⟩
  walk := by
    intro d i hi
    refine (failsOnly_walk (fun _ => .inl trivial) (fun _ _ => .inl trivial) ?_ ?_).1 [] d ?_
    · intro id f hf hv hnone
      obtain ⟨key, d, fields, hd, hbody, hmem⟩ := exists_struct_of_mem_fields hf
      rcases (hT.declared hd).body_cases with ⟨fields', hbody', htyped⟩ | ⟨inner, hbody'⟩ | hbody'
      · rw [hbody] at hbody'
        cases hbody'
        exact absurd hnone (htyped f hmem hv)
      · rw [hbody] at hbody'
        cases hbody'
      · rw [hbody] at hbody'
        cases hbody'
    · exact fun _ _ _ t _ hc => .inr ⟨rfl, .inl ⟨t, hc⟩⟩
    · intro hnone
      rw [hi] at hnone
      cases hnone
  site := by
    intro d policy hd
    have hbottom : T.IsSolid (T.peelArrays R d).2 := hT.isSolid_of_behind (behind_of_peel _ d) hd
    obtain ⟨i, hi⟩ := hbottom.exists_facts
    refine failsOnly_siteSchema? ?_ ?_ (fun hon => ?_) ?_
    · intro hnone
      rw [hi] at hnone
      cases hnone
    · intro j hj hstruct hslice hnone
      exact absurd hnone ((hR.covers hstruct hslice).rule?_ne_none hj)
    · have hb := isBottomless_of_leadsOn hasTypeRule_congr hd.describes hon
      exact .inr ⟨rfl, .inr ⟨d, hd.describes, hb⟩⟩
    · intro j hj hk hnone
      obtain ⟨item, hitem, _⟩ := hT.exists_element?_id hbottom hj hk
      rw [hnone] at hitem
      cases hitem

end TypeTable

/-! ## The example, derived -/

namespace Example

/-- An item with one public field. -/
def item (visibility : List Derive.TokenTree) (ident field : String) (t : TypeExpr) : Derive.Item :=
  ⟨visibility, ident, [], [], .struct [⟨[.word "pub"], field, t, []⟩]⟩

theorem declared_deviceDef : deviceDef.Declared :=
  .derived (item [.word "pub"] "Device" "model" (.primitive .string))
    ⟨some "Device", true, [], deviceDef.body⟩ "app::Device" (by rfl)

theorem declared_sessionDef : sessionDef.Declared :=
  .derived (item [] "Session" "device" (.named "Device"))
    ⟨some "Session", false, [], sessionDef.body⟩ "app::Session" (by rfl)

theorem find?_table {key : String} {d : TypeDef} (h : table.find? key = some d) :
    d = deviceDef ∨ d = sessionDef := by
  unfold TypeTable.find? table at h
  rw [List.lookup_cons] at h
  split at h
  · exact .inl (Option.some.inj h).symm
  · rw [List.lookup_cons] at h
    split at h
    · exact .inr (Option.some.inj h).symm
    · cases h

theorem wellFormed_table : table.WellFormed where
  declared := by
    intro key d h
    rcases find?_table h with rfl | rfl
    · exact declared_deviceDef
    · exact declared_sessionDef
  solid := by
    intro key d h t ht
    rcases find?_table h with rfl | rfl
    · cases List.mem_singleton.1 ht
      refine ⟨.inr ?_, fun item hitem => by cases hitem⟩
      rw [Descriptor.isEmpty, TypeTable.describe, TypeTable.facts?_of_primitive]
      rfl
    · cases List.mem_singleton.1 ht
      refine ⟨.inr ?_, fun item hitem => by cases hitem⟩
      rw [Descriptor.isEmpty, TypeTable.describe, TypeTable.facts?_of_struct find?_device rfl]
      rfl

theorem wellFormed_operation : operation.WellFormed table := by
  intro t ht item hitem
  simp only [Operation.mentions, operation, Operation.bare, Returns.bodies, Shape.of, Shape.empty,
    List.mem_cons, List.singleton_append, List.not_mem_nil, or_false] at ht
  rcases ht with rfl | rfl | rfl <;> cases hitem

end Example

namespace Document

variable {T : TypeTable} {doc : Document}

theorem body_mem_mentions {op : Operation} {r : Response} (h : r ∈ op.responses T) :
    r.body = .empty ∨ r.body.type ∈ op.mentions := by
  rcases List.mem_append.1 h with h | h
  · cases hs : op.onSuccess with
    | shape body =>
      rw [Operation.successResponses, hs] at h
      simp only at h
      split at h
      · exact .inl (by rw [List.mem_singleton.1 h])
      · refine .inr ?_
        rw [List.mem_singleton.1 h]
        simp [Operation.mentions, Returns.bodies, hs]
    | responses list =>
      rw [Operation.successResponses, hs] at h
      refine .inr ?_
      simp only [Operation.mentions, Returns.bodies, hs]
      exact List.mem_cons_of_mem _ (List.mem_append_left _ (List.mem_map_of_mem h))
  · refine .inr (List.mem_cons_of_mem _ (List.mem_append_right _ ?_))
    cases hs : op.onFailure with
    | shape body =>
      rw [Operation.failureResponses, hs] at h
      rw [List.mem_singleton.1 h]
      exact List.mem_singleton_self _
    | responses list =>
      rw [Operation.failureResponses, hs] at h
      exact List.mem_map_of_mem h

theorem renders_of_wellFormed {op : Operation} (h : op.WellFormed T) :
    Renders T T.IsSolid op := by
  have hmention : ∀ s : Shape, s.type ∈ op.mentions → (T.view s).isEmpty = false →
      T.IsSolid (T.view s) :=
    fun s hs hsome => ⟨hsome, s.type, rfl, .inr hsome, h s.type hs⟩
  refine ⟨hmention _ List.mem_cons_self, fun r hr hsome => ?_⟩
  rcases body_mem_mentions hr with hempty | hmem
  · rw [hempty, TypeTable.view_empty, TypeTable.isEmpty_describe_empty] at hsome
    cases hsome
  · exact hmention _ hmem hsome

/-- **Well-formed input meets no defect.** Where a table holds nothing written by hand, nothing that
is no type stands for a field, an item or the inside of a newtype, and the rules come from the
built-in ones by registrations, a document that cannot be finished has a mistake in it: a type that
contains itself, a flattened field that is no struct, two components of one name, two operations in
one slot or two responses of one code. The one other way not to finish is never to end, which takes
newtypes or slices that lead back to themselves. -/
theorem assemble_meets_no_defect (hT : T.WellFormed) (hops : ∀ op ∈ doc.operations, op.WellFormed T)
    (hR : doc.rules.FromBuiltin) :
    ∀ e, assemble T doc = .error e → e.IsMistake ∨ e = .noEnd ∧ T.HasEndlessType := by
  have hsites := hT.failureSites hR
  have hpaths : FailsOnly T.Expects (paths T doc) :=
    failsOnly_pathsFrom hsites (fun _ _ => .inl trivial) (fun _ _ => .inl trivial) fun op hop =>
      renders_of_wellFormed (hops op (List.mem_mergeSort.1 hop))
  have hschemas : FailsOnly T.Expects (schemas T doc) :=
    failsOnly_schemas hsites fun _ _ _ => .inl trivial
  exact hpaths.bind fun _ _ => hschemas.bind fun _ _ => .ok _

/-- The example's types are derived; with rules registered over the built-in ones, all that could
stop its operation, added twice, is a mistake. -/
theorem assemble_meets_no_defect_document :
    let doc := { Example.document with
      rules := (Registry.builtin.withKindRule .map Rule.nothing).withTypeRule Example.device
        Rule.copyDefault
      operations := [Example.operation, Example.operation] }
    Example.table.WellFormed ∧ (∀ op ∈ doc.operations, op.WellFormed Example.table)
      ∧ doc.rules.FromBuiltin
      ∧ ∀ e, assemble Example.table doc = .error e →
        e.IsMistake ∨ e = .noEnd ∧ Example.table.HasEndlessType := by
  intro doc
  have hops : ∀ op ∈ doc.operations, op.WellFormed Example.table := by
    intro op hop
    simp only [doc, List.mem_cons, List.not_mem_nil, or_false, or_self] at hop
    rw [hop]
    exact Example.wellFormed_operation
  have hR : doc.rules.FromBuiltin := .withTypeRule _ _ (.withKindRule _ _ .builtin)
  exact ⟨Example.wellFormed_table, hops, hR,
    assemble_meets_no_defect Example.wellFormed_table hops hR⟩

end Document

end ApiAtlas
