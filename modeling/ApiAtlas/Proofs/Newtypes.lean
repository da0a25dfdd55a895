import ApiAtlas.Proofs.ExpansionPath
import ApiAtlas.Proofs.Histories
import ApiAtlas.Proofs.InlineExpansion
import ApiAtlas.Proofs.Splicing

/-!
# Newtypes by the built-in rules

A newtype keeps the shape of its inner type: kind, element, fields, and whether it may be null. It does
not keep the identity, so rules for the inner type are none for the newtype. Two descriptors of one
shape (`SameShape`) render alike by the built-in rules all the same, case by case. A slice is opened by
its element. A struct is made of its members, under whatever name it stands on the path. All else has
the rule of its kind (`Registry.rule?_builtin`).

The one exception are the timestamps. They are structs without fields, their kind has no rule, and only
the rules for the types themselves say that they are texts. A newtype over one of them is an empty
object.
-/

namespace ApiAtlas

/-! ## Rules that look at the use of a type -/

/-- The rule looks at the use of a type and not at the type, nor at what lies inside: whether it may be
null there, and through which field it is reached. -/
def Rule.LooksAtUse (r : Rule) : Prop :=
  ∀ (T T' : TypeTable) (d e : Descriptor), d.nullable = e.nullable → d.field = e.field →
    r T d = r T' e

namespace Rule

theorem looksAtUse_nothing : LooksAtUse nothing := fun _ _ _ _ _ _ => rfl

theorem looksAtUse_typed (schemaType format : String) : LooksAtUse (typed schemaType format) := by
  intro T T' d e hnullable _
  funext a
  simp only [typed, hnullable]

theorem looksAtUse_copyDefault : LooksAtUse copyDefault := by
  intro T T' d e _ hfield
  funext a
  simp only [copyDefault, Descriptor.tag, hfield]

theorem looksAtUse_inOrder {rules : List Rule} (h : ∀ r ∈ rules, LooksAtUse r) :
    LooksAtUse (inOrder rules) := by
  intro T T' d e hnullable hfield
  funext a
  induction rules generalizing a with
  | nil => rfl
  | cons r rest ih =>
    have hr : r T d = r T' e := h r List.mem_cons_self T T' d e hnullable hfield
    show inOrder rest T d (r T d a) = inOrder rest T' e (r T' e a)
    rw [hr, ih fun r' hr' => h r' (List.mem_cons_of_mem _ hr')]

theorem looksAtUse_builtin (id : TypeId) : LooksAtUse (builtin id []) := by
  refine looksAtUse_inOrder fun r hr => ?_
  rcases List.mem_cons.1 hr with rfl | hr
  · unfold builtinBase
    split
    · exact looksAtUse_typed _ _
    · exact looksAtUse_nothing
  · rw [List.mem_singleton.1 hr]
    exact looksAtUse_copyDefault

end Rule

theorem Registry.looksAtUse_builtinKindRule (k : Kind) : (builtinKindRule k).LooksAtUse := by
  unfold builtinKindRule
  split
  · exact Rule.looksAtUse_builtin _
  · split
    · exact Rule.looksAtUse_typed _ _
    · exact Rule.looksAtUse_nothing

namespace TypeTable

variable {T : TypeTable}

/-! ## What a newtype is -/

section Newtype

variable {key : String} {inner : TypeExpr} (hn : T.newtype? key = some inner)

include hn

/-- **A newtype is what its inner type is,** and both are endless if one is. -/
theorem underlyingFrom_newtype :
    T.underlyingFrom [] (.named key) = T.underlyingFrom [] inner := by
  refine Option.ext fun u => ?_
  rw [underlyingFrom_nil_iff, underlyingFrom_nil_iff]
  constructor
  · rintro ⟨n, h⟩
    cases h with
    | bottom hno => exact absurd hn (hno key inner rfl)
    | newtype hkey hn' h =>
      cases hkey
      rw [hn] at hn'
      cases hn'
      exact ⟨_, h⟩
  · rintro ⟨n, h⟩
    exact ⟨n + 1, .newtype rfl hn h⟩

theorem underlying_newtype : T.underlying (.named key) = T.underlying inner := by
  rw [underlying, underlying, underlyingFrom_newtype hn]

theorem kind?_newtype : T.kind? (.named key) = T.kind? inner := by
  simp only [kind?, underlying_newtype hn]

theorem item?_newtype : T.item? (.named key) = T.item? inner := by
  simp only [item?, element?, underlying_newtype hn]

theorem isNullable_newtype : T.isNullable (.named key) = T.isNullable inner := by
  rw [isNullable, isNullable, underlyingFrom_newtype hn]

theorem fields_newtype : T.fields (.named key) = T.fields inner.core := by
  have hund : T.underlying (.named key) = T.underlying inner.core := by
    rw [underlying_newtype hn, underlying_core]
  cases hcore : inner.core with
  | named key' =>
    rw [hcore] at hund
    simp only [fields, hund]
  | _ =>
    have hno : ∀ k, inner.core.core ≠ .named k := by
      intro k hk
      rw [TypeExpr.core_core, hcore] at hk
      cases hk
    have hself : T.underlying inner.core = inner.core := by
      rw [underlying, underlyingFrom_of_not_named hno, TypeExpr.core_core]
      rfl
    rw [hself, hcore] at hund
    simp only [fields, hund]

end Newtype

/-! ## Descriptors of one shape -/

/-- The descriptors differ in identity and names only. -/
structure SameShape (T : TypeTable) (d e : Descriptor) : Prop where
  kind : d.kind? = e.kind?
  fields : T.ownFields d = T.ownFields e
  element : T.element d = T.element e
  nullable : d.nullable = e.nullable
  field : d.field = e.field

theorem SameShape.symm {d e : Descriptor} (h : T.SameShape d e) : T.SameShape e d where
  kind := h.kind.symm
  fields := h.fields.symm
  element := h.element.symm
  nullable := h.nullable.symm
  field := h.field.symm

theorem SameShape.exists_facts {d e : Descriptor} {i : TypeFacts} (h : T.SameShape d e)
    (hi : d.facts = some i) : ∃ j, e.facts = some j ∧ j.kind = i.kind := by
  have hkind : e.facts.map (·.kind) = some i.kind := by
    show e.kind? = _
    rw [← h.kind, Descriptor.kind?, hi]
    rfl
  exact Option.map_eq_some_iff.1 hkind

theorem ownFields_eq {d : Descriptor} {i : TypeFacts} (hi : d.facts = some i) :
    T.ownFields d = T.fields i.id := by
  rw [ownFields, hi]

theorem describes_view (s : Shape) : T.Describes (T.view s) := ⟨s.type, rfl⟩

/-- **A newtype has the shape of its inner type.** -/
theorem sameShape_newtype {key : String} {inner : TypeExpr} (hn : T.newtype? key = some inner)
    (field : Option Field) :
    T.SameShape (T.view ⟨.named key, field⟩) (T.view ⟨inner, field⟩) := by
  have hkey : (T.view ⟨.named key, field⟩).facts = (T.kind? inner).map fun k =>
      ⟨.named key, T.fullName (.named key), T.name? (.named key), T.isExported (.named key), k⟩ := by
    rw [← kind?_newtype hn]
    rfl
  have hinner : (T.view ⟨inner, field⟩).facts = (T.kind? inner).map fun k =>
      ⟨inner.core, T.fullName inner.core, T.name? inner.core, T.isExported inner.core, k⟩ := rfl
  refine ⟨?_, ?_, ?_, isNullable_newtype hn, rfl⟩
  · rw [Descriptor.kind?, Descriptor.kind?, hkey, hinner, Option.map_map, Option.map_map]
    rfl
  · cases hk : T.kind? inner with
    | none => rw [ownFields, ownFields, hkey, hinner, hk]; rfl
    | some k =>
      rw [hk, Option.map_some] at hkey hinner
      rw [ownFields_eq hkey, ownFields_eq hinner, fields_newtype hn]
  · rw [element, element, hkey, hinner, Option.bind_map, Option.bind_map]
    simp only [Function.comp_def, item?_newtype hn, item?_core]

/-! ## Slices -/

/-- There are no built-in rules for slices, so all of them are opened. -/
theorem hasTypeRule_builtin_of_slice {d : Descriptor} (hd : T.Describes d)
    (hk : d.hasKind .slice = true) : Registry.builtin.hasTypeRule d = false := by
  cases hrule : Registry.builtin.hasTypeRule d with
  | false => rfl
  | true =>
    obtain ⟨i, p, hi, _, hkind⟩ := Registry.exists_primitive_of_hasTypeRule_builtin hd hrule
    rw [(hasKind_iff hi).1 hk] at hkind
    cases p <;> cases hkind

section Rendering

variable {policy : Policy} {d e : Descriptor} {i j : TypeFacts} {s : Schema}

theorem siteSchema?_builtin_of_slice (hd : T.Describes d) (hk : d.hasKind .slice = true)
    (o : Option Schema) : T.siteSchema? Registry.builtin policy d ≠ .ok o := by
  obtain ⟨i, hi, hkind⟩ := exists_facts_of_hasKind hk
  have hrule := hasTypeRule_builtin_of_slice hd hk
  unfold siteSchema?
  simp only [hi, hrule, hkind, Bool.false_eq_true, if_false]
  cases T.element? i.id with
  | none => intro h; cases h
  | some item => intro h; cases h

/-- From the element on, the ways of two slices are one. -/
theorem schemaOf_of_slice (hd : T.Describes d) (he : T.Describes e) (h : T.SameShape d e)
    (hk : d.hasKind .slice = true) (hs : T.schemaOf Registry.builtin policy d = .ok s) :
    T.schemaOf Registry.builtin policy e = .ok s := by
  have hke : e.hasKind .slice = true := by rw [Descriptor.hasKind, ← h.kind]; exact hk
  have ho : opens Registry.builtin.hasTypeRule d = true := by
    simp [opens, hk, hasTypeRule_builtin_of_slice hd hk]
  have hoe : opens Registry.builtin.hasTypeRule e = true := by
    simp [opens, hke, hasTypeRule_builtin_of_slice he hke]
  cases hitem : T.element d with
  | none =>
    -- a slice that cannot be opened has no schema
    rw [schemaOf, schemaFrom_eq, show T.peelArrays Registry.builtin d = (0, d) from
      peel_of_no_element hitem] at hs
    obtain ⟨o, ho, _⟩ := bind_eq_ok.1 hs
    exact absurd ho (siteSchema?_builtin_of_slice hd hk o)
  | some x =>
    rw [schemaOf, schemaFrom_of_element hd ho hitem] at hs
    rw [schemaOf, schemaFrom_of_element he hoe (h.element ▸ hitem)]
    exact hs

/-! ## Structs -/

theorem schemaOf_of_sameFields (hd : T.Describes d) (he : T.Describes e) (h : T.SameShape d e)
    (hi : d.facts = some i) (hk : i.kind = .struct)
    (hdrule : Registry.builtin.hasTypeRule d = false)
    (herule : Registry.builtin.hasTypeRule e = false)
    (hs : T.schemaOf Registry.builtin Policy.inlineAll d = .ok s) :
    T.schemaOf Registry.builtin Policy.inlineAll e = .ok s := by
  obtain ⟨j, hj, hkind⟩ := h.exists_facts hi
  rw [schemaOf_of_struct hi hk hdrule] at hs
  rw [schemaOf_of_struct hj (hkind.trans hk) herule]
  -- the members were rendered inside `d`, hence on their own, and can be inside `e`
  obtain ⟨ms, pairs, hms, hpairs, rfl⟩ := (objectOf_eq_ok_iff hd hi).1 hs
  refine (objectOf_eq_ok_iff he hj).2 ⟨ms, pairs, ?_, hpairs, rfl⟩
  rw [members_eq_ok_iff hj, ← ownFields_eq hj, ← h.fields, ownFields_eq hi]
  exact (members_eq_ok_iff hi).1 hms

/-! ## All else -/

/-- What is neither a slice nor a struct has the schema that the built-in rule for its kind gives. -/
theorem schemaOf_of_kindRule (hd : T.Describes d) (hi : d.facts = some i) (hstruct : i.kind ≠ .struct)
    (hslice : i.kind ≠ .slice) : T.schemaOf Registry.builtin policy d
      = .ok (.data ((Registry.builtinKindRule i.kind).run T d)) :=
  schemaFrom_of_rule hi (.inr ⟨hstruct, hslice⟩) (Registry.rule?_builtin hd hi hstruct hslice)

/-- Descriptors of one shape have the same schemas, unless they are structs with a rule. -/
theorem schemaOf_of_sameShape (hd : T.Describes d) (he : T.Describes e) (h : T.SameShape d e)
    (hdrule : d.hasKind .struct = true → Registry.builtin.hasTypeRule d = false)
    (herule : e.hasKind .struct = true → Registry.builtin.hasTypeRule e = false)
    (hs : T.schemaOf Registry.builtin Policy.inlineAll d = .ok s) :
    T.schemaOf Registry.builtin Policy.inlineAll e = .ok s := by
  cases hi : d.facts with
  | none =>
    have hempty := isEmpty_of_schemaFrom hs
    rw [Descriptor.isEmpty, hi] at hempty
    cases hempty
  | some i =>
    obtain ⟨j, hj, hkind⟩ := h.exists_facts hi
    by_cases hslice : i.kind = .slice
    · exact schemaOf_of_slice hd he h ((hasKind_iff hi).2 hslice) hs
    · by_cases hstruct : i.kind = .struct
      · exact schemaOf_of_sameFields hd he h hi hstruct (hdrule ((hasKind_iff hi).2 hstruct))
          (herule ((hasKind_iff hj).2 (hkind.trans hstruct))) hs
      · rw [schemaOf_of_kindRule hd hi hstruct hslice] at hs
        rw [schemaOf_of_kindRule he hj (hkind ▸ hstruct) (hkind ▸ hslice), hkind, ← hs]
        rw [Rule.run, Rule.run,
          Registry.looksAtUse_builtinKindRule i.kind T T d e h.nullable h.field]

end Rendering

/-! ## Newtypes -/

theorem hasTypeRule_builtin_of_newtype {key : String} {field : Option Field} :
    Registry.builtin.hasTypeRule (T.view ⟨.named key, field⟩) = false := by
  cases hrule : Registry.builtin.hasTypeRule (T.view ⟨.named key, field⟩) with
  | false => rfl
  | true =>
    obtain ⟨i, p, hi, hp, _⟩ :=
      Registry.exists_primitive_of_hasTypeRule_builtin (describes_view _) hrule
    rw [id_of_facts? hi] at hp
    cases hp

/-- A timestamp has a rule of its own. -/
theorem mem_builtinIds_of_struct {p : Primitive} (hp : p.kind = .struct) :
    .primitive p ∈ Rule.builtinIds := by
  cases p <;> first | (cases hp; done) | decide

theorem facts_view_of_primitive {t : TypeExpr} {p : Primitive} {field : Option Field}
    (hp : t.core = .primitive p) : (T.view ⟨t, field⟩).facts
      = some ⟨.primitive p, p.fullName, p.name?, true, p.kind⟩ := by
  show T.facts? t = _
  rw [← facts?_core, hp, facts?_of_primitive]

/-- A timestamp is the text that its rule says. -/
theorem schemaOf_of_timestamp {t : TypeExpr} {p : Primitive} {field : Option Field} {policy : Policy}
    (hp : t.core = .primitive p) (hk : p.kind = .struct) :
    T.schemaOf Registry.builtin policy (T.view ⟨t, field⟩)
      = .ok (.data ((Rule.builtin (.primitive p) []).run T (T.view ⟨t, field⟩))) := by
  have hi : (T.view ⟨t, field⟩).facts = some ⟨.primitive p, p.fullName, p.name?, true, p.kind⟩ :=
    facts_view_of_primitive hp
  have hmem := mem_builtinIds_of_struct hk
  exact schemaFrom_of_rule hi (.inl ((Registry.hasTypeRule_builtin_iff hi).2 hmem))
    (Registry.rule?_builtin_of_type hi hmem)

/-- A newtype over a timestamp is what the timestamp would be without its rule. -/
theorem schemaOf_of_newtype_of_timestamp {key : String} {inner : TypeExpr} {p : Primitive}
    {field : Option Field} (hn : T.newtype? key = some inner) (hp : inner.core = .primitive p)
    (hk : p.kind = .struct) : T.schemaOf Registry.builtin Policy.inlineAll
      (T.view ⟨.named key, field⟩) = .ok (.object []) := by
  have hshape := sameShape_newtype hn field
  obtain ⟨i, hi, hkind⟩ := hshape.symm.exists_facts (facts_view_of_primitive hp)
  have hfields : T.fields i.id = [] := by
    rw [← ownFields_eq hi, hshape.fields, ownFields_eq (facts_view_of_primitive hp)]
    rfl
  rw [schemaOf_of_struct hi (hkind.trans hk) hasTypeRule_builtin_of_newtype, objectOf,
    objectFrom_eq hi List.not_mem_nil, members_of_fields_eq_nil hi hfields]
  simp only [Except.bind, propertiesFrom]
  rfl

end TypeTable

/-! ## An example: amounts and days -/

namespace Example

/-- Amounts are integers under a new name, and days are dates. -/
def ledger : TypeTable :=
  ⟨[("Cents", ⟨some "Cents", "app::Cents", true, .newtype (.primitive .i64)⟩),
    ("Day", ⟨some "Day", "app::Day", true, .newtype (.primitive .naiveDate)⟩)]⟩

end Example

namespace TypeTable

/-- **Newtypes render like their inner types, but for newtypes over timestamps.** Where everything is
written out by the built-in rules, a newtype and its inner type, reached through the same field, have
the same schema or none, unless the inner type is a timestamp. A timestamp is the text that its rule
says, and a newtype over it an empty object. -/
theorem newtypes_render_alike_but_for_timestamps {T : TypeTable} {key : String} {inner : TypeExpr}
    (hn : T.newtype? key = some inner) (field : Option Field) :
    ((∀ p, inner.core = .primitive p → p.kind ≠ .struct) →
      (T.schemaOf Registry.builtin Policy.inlineAll (T.view ⟨.named key, field⟩)).toOption
        = (T.schemaOf Registry.builtin Policy.inlineAll (T.view ⟨inner, field⟩)).toOption)
      ∧ ∀ p, inner.core = .primitive p → p.kind = .struct →
        T.schemaOf Registry.builtin Policy.inlineAll (T.view ⟨.named key, field⟩)
            = .ok (.object [])
          ∧ T.schemaOf Registry.builtin Policy.inlineAll (T.view ⟨inner, field⟩)
            = .ok (.data ((Rule.builtin (.primitive p) []).run T (T.view ⟨inner, field⟩))) := by
  refine ⟨fun htimestamp => ?_, fun p hp hk =>
    ⟨schemaOf_of_newtype_of_timestamp hn hp hk, schemaOf_of_timestamp hp hk⟩⟩
  have hshape := sameShape_newtype hn field
  have hnewtype : (T.view ⟨.named key, field⟩).hasKind .struct = true →
      Registry.builtin.hasTypeRule (T.view ⟨.named key, field⟩) = false :=
    fun _ => hasTypeRule_builtin_of_newtype
  have hinner : (T.view ⟨inner, field⟩).hasKind .struct = true →
      Registry.builtin.hasTypeRule (T.view ⟨inner, field⟩) = false := by
    intro hk
    cases hrule : Registry.builtin.hasTypeRule (T.view ⟨inner, field⟩) with
    | false => rfl
    | true =>
      obtain ⟨i, p, hi, hp, hkind⟩ :=
        Registry.exists_primitive_of_hasTypeRule_builtin (describes_view _) hrule
      rw [id_of_facts? hi] at hp
      rw [(hasKind_iff hi).1 hk] at hkind
      exact absurd hkind.symm (htimestamp p hp)
  refine toOption_eq fun s => ⟨?_, ?_⟩
  · exact schemaOf_of_sameShape (describes_view _) (describes_view _) hshape hnewtype hinner
  · exact schemaOf_of_sameShape (describes_view _) (describes_view _) hshape.symm hinner hnewtype

/-- An amount is rendered as the integer that it is. -/
theorem newtypes_render_alike_but_for_timestamps_cents :
    Example.ledger.newtype? "Cents" = some (.primitive .i64)
      ∧ (Example.ledger.schemaOf Registry.builtin Policy.inlineAll
          (Example.ledger.view ⟨.named "Cents", none⟩)).toOption
        = (Example.ledger.schemaOf Registry.builtin Policy.inlineAll
          (Example.ledger.view ⟨.primitive .i64, none⟩)).toOption := by
  have hn : Example.ledger.newtype? "Cents" = some (.primitive .i64) := rfl
  refine ⟨hn, (newtypes_render_alike_but_for_timestamps hn none).1 fun p hp => ?_⟩
  cases hp
  decide

/-- A day is an empty object, and the date that it is a text. -/
theorem newtype_over_date_is_no_date :
    Example.ledger.newtype? "Day" = some (.primitive .naiveDate)
      ∧ Registry.builtin.hasTypeRule (Example.ledger.view ⟨.named "Day", none⟩) = false
      ∧ (∃ s, Example.ledger.schemaOf Registry.builtin Policy.inlineAll
          (Example.ledger.view ⟨.named "Day", none⟩) = .ok s
        ∧ s.toValue = .map [("type", .str "object")])
      ∧ ∃ s, Example.ledger.schemaOf Registry.builtin Policy.inlineAll
          (Example.ledger.view ⟨.primitive .naiveDate, none⟩) = .ok s
        ∧ s.toValue = .map [("type", .str "string"), ("format", .str "date")] := by
  have hn : Example.ledger.newtype? "Day" = some (.primitive .naiveDate) := rfl
  refine ⟨hn, hasTypeRule_builtin_of_newtype,
    ⟨_, schemaOf_of_newtype_of_timestamp hn rfl rfl, rfl⟩, _, schemaOf_of_timestamp rfl rfl, ?_⟩
  -- the rule sees a date that may not be null and was reached through no field
  have hnullable : Example.ledger.isNullable (.primitive .naiveDate) = false := by
    rw [isNullable, underlyingFrom_of_not_named fun key hkey => by cases hkey]
    rfl
  have hrule := Rule.looksAtUse_builtin (.primitive .naiveDate) Example.ledger ⟨[]⟩
    (Example.ledger.view ⟨.primitive .naiveDate, none⟩) Descriptor.empty hnullable rfl
  rw [Rule.run, hrule]
  rfl

end TypeTable

end ApiAtlas
