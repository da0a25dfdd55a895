import ApiAtlas.Proofs.DerivedNames
import ApiAtlas.Proofs.InlineExpansion
import ApiAtlas.Proofs.References

/-!
# Parameter structs

The struct with the parameters of an operation that has a request body is read twice: for a parameter
from each member that has a place in the path, the query or a header, and for the request body from each
member that has a property name. Nothing compares the two readings. That no field is sent twice, or lost,
is owed to the tags that are derived for it: a field that is placed is not told a name, and a field that
is not placed is told one unless the serializer leaves it out.

`Share` is what one member gives to either side. An operation is made of the shares of its members
(`exists_shares`), and which side the share of a derived field is on can be read off its attributes
(`IsShare.goesOneWay`).
-/

namespace ApiAtlas

open Relation (ReflTransGen)
open OpenApi (Content OperationObject Parameter ParameterLocation operationAt)
open Derive (FieldAttributes ItemAttributes ItemField NamingStyle plainIdentifier styledName)

/-! ## The shares of members -/

/-- What a member of a parameter struct gives to the parameters and to the request body. -/
structure Share where
  member : Descriptor
  parameters : List Parameter
  properties : List (String × Schema)

namespace Document

variable {T : TypeTable} {doc : Document} {path : List TypeId}

/-- The two sides of the share are what the member gives if it is the only one. -/
structure IsShare (T : TypeTable) (doc : Document) (path : List TypeId) (s : Share) : Prop where
  parameters : parametersOf T doc [s.member] = .ok s.parameters
  properties : T.propertiesFrom doc.rules Policy.inlineAll path [s.member] = .ok s.properties

theorem parametersOf_cons (d : Descriptor) (rest : List Descriptor) :
    parametersOf T doc (d :: rest) = (parametersOf T doc [d]).bind fun here =>
      (parametersOf T doc rest).map (here ++ ·) := by
  rw [parametersOf, parametersOf, parametersOf]
  cases placement d with
  | none =>
    dsimp only [Except.bind]
    cases parametersOf T doc rest with
    | error e => rfl
    | ok ps => rfl
  | some place =>
    obtain ⟨location, name⟩ := place
    dsimp only
    cases T.schemaOf doc.rules Policy.inlineAll d with
    | error e => rfl
    | ok schema =>
      cases parametersOf T doc rest with
      | error e => rfl
      | ok ps => rfl

theorem propertiesFrom_cons {R : Registry} {policy : Policy} (d : Descriptor)
    (rest : List Descriptor) :
    T.propertiesFrom R policy path (d :: rest)
      = (T.propertiesFrom R policy path [d]).bind fun here =>
        (T.propertiesFrom R policy path rest).map (here ++ ·) := by
  rw [TypeTable.propertiesFrom, TypeTable.propertiesFrom, TypeTable.propertiesFrom]
  cases d.propertyName with
  | none =>
    dsimp only [Except.bind]
    cases T.propertiesFrom R policy path rest with
    | error e => rfl
    | ok ps => rfl
  | some name =>
    dsimp only
    cases T.schemaFrom R policy path d with
    | error e => rfl
    | ok schema =>
      cases T.propertiesFrom R policy path rest with
      | error e => rfl
      | ok ps => rfl

/-- Members that can be rendered give parameters and properties. -/
theorem exists_parametersOf {ds : List Descriptor}
    (h : ∀ d ∈ ds, ∃ s, T.schemaOf doc.rules Policy.inlineAll d = .ok s) :
    ∃ ps, parametersOf T doc ds = .ok ps := by
  induction ds with
  | nil => exact ⟨[], by rw [parametersOf]⟩
  | cons d rest ih =>
    obtain ⟨later, hlater⟩ := ih fun d' hd' => h d' (List.mem_cons_of_mem _ hd')
    obtain ⟨s, hs⟩ := h d List.mem_cons_self
    rw [parametersOf]
    cases placement d with
    | none => exact ⟨later, hlater⟩
    | some place =>
      obtain ⟨location, name⟩ := place
      simp only [hs, hlater]
      exact ⟨_, rfl⟩

theorem exists_propertiesFrom {R : Registry} {policy : Policy} {ms : List Descriptor}
    (h : ∀ m ∈ ms, ∃ s, T.schemaFrom R policy path m = .ok s) :
    ∃ pairs, T.propertiesFrom R policy path ms = .ok pairs := by
  cases hpairs : T.propertiesFrom R policy path ms with
  | ok pairs => exact ⟨pairs, rfl⟩
  | error e =>
    obtain ⟨m, hm, _, herror⟩ := TypeTable.exists_member_of_error hpairs
    obtain ⟨s, hs⟩ := h m hm
    rw [hs] at herror
    cases herror

/-- **The members of a struct share its parameters and its properties among them.** -/
theorem exists_shares {ms : List Descriptor} {ps : List Parameter} {pairs : List (String × Schema)}
    (hps : parametersOf T doc ms = .ok ps)
    (hpairs : T.propertiesFrom doc.rules Policy.inlineAll path ms = .ok pairs) :
    ∃ shares : List Share, shares.map Share.member = ms ∧ ps = shares.flatMap Share.parameters
      ∧ pairs = shares.flatMap Share.properties ∧ ∀ s ∈ shares, IsShare T doc path s := by
  induction ms generalizing ps pairs with
  | nil =>
    rw [parametersOf] at hps
    rw [TypeTable.propertiesFrom] at hpairs
    cases hps
    cases hpairs
    exact ⟨[], rfl, rfl, rfl, fun s hs => by cases hs⟩
  | cons m rest ih =>
    rw [parametersOf_cons] at hps
    rw [propertiesFrom_cons] at hpairs
    obtain ⟨here, hhere, hps⟩ := bind_eq_ok.1 hps
    obtain ⟨later, hlater, rfl⟩ := map_eq_ok.1 hps
    obtain ⟨here', hhere', hpairs⟩ := bind_eq_ok.1 hpairs
    obtain ⟨later', hlater', rfl⟩ := map_eq_ok.1 hpairs
    obtain ⟨shares, hmembers, rfl, rfl, hall⟩ := ih hlater hlater'
    refine ⟨⟨m, here, here'⟩ :: shares, by rw [List.map_cons, hmembers], rfl, rfl, fun s hs => ?_⟩
    rcases List.mem_cons.1 hs with rfl | hs
    · exact ⟨hhere, hhere'⟩
    · exact hall s hs

namespace IsShare

variable {s : Share}

theorem parameters_of_no_placement (h : IsShare T doc path s) (hp : placement s.member = none) :
    s.parameters = [] := by
  have hps := h.parameters
  rw [parametersOf, hp] at hps
  dsimp only at hps
  rw [parametersOf] at hps
  exact (Except.ok.inj hps).symm

theorem parameters_of_placement (h : IsShare T doc path s) {location : ParameterLocation}
    {name : String} (hp : placement s.member = some (location, name)) :
    ∃ p, s.parameters = [p] ∧ p.location = location ∧ p.name = name := by
  have hps := h.parameters
  rw [parametersOf, hp] at hps
  obtain ⟨schema, _, hps⟩ := bind_eq_ok.1 hps
  rw [parametersOf] at hps
  exact ⟨_, (Except.ok.inj hps).symm, rfl, rfl⟩

theorem properties_of_no_name (h : IsShare T doc path s) (hn : s.member.propertyName = none) :
    s.properties = [] := by
  have hpairs := h.properties
  rw [TypeTable.propertiesFrom, hn] at hpairs
  dsimp only at hpairs
  rw [TypeTable.propertiesFrom] at hpairs
  exact (Except.ok.inj hpairs).symm

theorem properties_of_name (h : IsShare T doc path s) {name : String}
    (hn : s.member.propertyName = some name) : ∃ schema, s.properties = [(name, schema)] := by
  have hpairs := h.properties
  rw [TypeTable.propertiesFrom, hn] at hpairs
  obtain ⟨schema, _, hpairs⟩ := bind_eq_ok.1 hpairs
  rw [TypeTable.propertiesFrom] at hpairs
  exact ⟨schema, (Except.ok.inj hpairs).symm⟩

end IsShare

end Document

/-! ## What a derived field gives -/

namespace Derive

variable {f : ItemField} {a : FieldAttributes} {style : Option NamingStyle}

/-- The last tag of some place is not empty. -/
def FieldAttributes.HasPlace (a : FieldAttributes) : Prop :=
  ∃ (location : ParameterLocation) (name : String),
    a.tags.last? location.name = some name ∧ name ≠ ""

/-- A name that the serializer is told can be written into a tag, and so can the identifier in the
style of the struct. An identifier has no comma. -/
structure PlainlyNamed (f : ItemField) (a : FieldAttributes) (style : Option NamingStyle) : Prop where
  told : ∀ name, a.serializedAs = some name → IsPlain name
  no_comma : ',' ∉ (plainIdentifier f.ident).toList
  nonempty : styledName (plainIdentifier f.ident) style ≠ ""
  not_hyphen : styledName (plainIdentifier f.ident) style ≠ "-"

theorem PlainlyNamed.isPlain (h : PlainlyNamed f a style) :
    IsPlain (a.serializedName (plainIdentifier f.ident) style) := by
  rw [FieldAttributes.serializedName_eq]
  cases hname : a.serializedAs with
  | some name => exact h.told name hname
  | none =>
    refine ⟨h.nonempty, h.not_hyphen, ?_⟩
    cases style with
    | none => exact h.no_comma
    | some s => exact s.no_comma_apply h.no_comma

/-- A place is none of the two tags that are derived. -/
theorem tag_location (d : Descriptor) (location : ParameterLocation) :
    (d.through (f.fieldWith a style)).tag location.name = a.tags.last? location.name := by
  show (a.allTags (plainIdentifier f.ident) style).last? location.name = _
  cases location with
  | path => exact FieldAttributes.last?_allTags_of_ne (by decide) (by decide)
  | query => exact FieldAttributes.last?_allTags_of_ne (by decide) (by decide)
  | header => exact FieldAttributes.last?_allTags_of_ne (by decide) (by decide)

/-- A field has the place that its explicit tags give it. -/
theorem placement_eq_some {d : Descriptor} {location : ParameterLocation} {name : String}
    (h : Document.placement (d.through (f.fieldWith a style)) = some (location, name)) :
    a.tags.last? location.name = some name ∧ name ≠ "" := by
  obtain ⟨location', _, hplace⟩ := List.exists_of_findSome?_eq_some h
  obtain ⟨name', hname, he⟩ := Option.map_eq_some_iff.1 hplace
  cases he
  obtain ⟨value, hvalue, hunless⟩ := Option.bind_eq_some_iff.1 hname
  rw [tag_location] at hvalue
  unfold unlessEmpty at hunless
  split at hunless
  · cases hunless
  · next hne =>
    cases hunless
    exact ⟨hvalue, hne⟩

theorem exists_placement (d : Descriptor) (h : a.HasPlace) :
    ∃ location name, Document.placement (d.through (f.fieldWith a style)) = some (location, name) := by
  obtain ⟨location, name, hlast, hne⟩ := h
  have hsome : Document.placement (d.through (f.fieldWith a style)) ≠ none := by
    intro hnone
    have hhere := List.findSome?_eq_none_iff.1 hnone location (by cases location <;> decide)
    rw [tag_location, hlast, Option.bind_some, unlessEmpty, if_neg hne] at hhere
    cases hhere
  obtain ⟨place, hplace⟩ := Option.ne_none_iff_exists'.1 hsome
  exact ⟨place.1, place.2, hplace⟩

theorem placement_of_not_placed (d : Descriptor) (h : ¬ a.IsPlaced) :
    Document.placement (d.through (f.fieldWith a style)) = none := by
  cases hplace : Document.placement (d.through (f.fieldWith a style)) with
  | none => rfl
  | some place =>
    obtain ⟨hlast, _⟩ := placement_eq_some hplace
    refine absurd ⟨place.1.name, ?_, Tags.has_of_last? hlast⟩ h
    cases place.1 <;> decide

/-- A field that is placed or left out has no property name. -/
theorem propertyName_of_no_name (d : Descriptor) (hjson : a.tags.has "json" = false)
    (h : a.IsPlaced ∨ a.omitted = true) :
    (d.through (f.fieldWith a style)).propertyName = none := by
  show ((a.allTags (plainIdentifier f.ident) style).last? "json").bind
    (Field.nameOfTag (some (plainIdentifier f.ident))) = none
  by_cases homitted : a.omitted = true
  · rw [FieldAttributes.last?_json_of_omitted homitted]
    rfl
  · have hkept : a.omitted = false := by simpa using homitted
    rw [FieldAttributes.last?_json_of_placed hkept hjson (h.resolve_right homitted)]
    rfl

theorem propertyName_of_takesName (d : Descriptor) (h : a.TakesName)
    (hplain : PlainlyNamed f a style) : (d.through (f.fieldWith a style)).propertyName
      = some (a.serializedName (plainIdentifier f.ident) style) := by
  show (f.fieldWith a style).propertyName = _
  rw [propertyName_fieldWith h, Field.nameOfTag_of_isPlain hplain.isPlain]

/-- The attributes `a` are those of a visible field that is not flattened, and they leave no doubt where
it goes: its name is plain, no explicit tag speaks for the serializer, and if there are tags of places,
one of them is not empty. -/
structure Settled (f : ItemField) (a : FieldAttributes) (style : Option NamingStyle) : Prop where
  read : FieldAttributes.ofAttributes f.attributes = .ok a
  kept : a.skip = false
  whole : a.flatten = false
  visible : (f.fieldWith a style).isVisible = true
  untagged : a.tags.has "json" = false
  named : PlainlyNamed f a style
  placed : a.IsPlaced → a.HasPlace

/-- A visible field has a type. -/
theorem Settled.type_eq (h : Settled f a style) : (f.fieldWith a style).type = some f.type := by
  have hvisible : (!f.visibility.isEmpty || a.flatten) = true := by
    have hv := h.visible
    simp only [Field.isVisible, ItemField.fieldWith, Option.isNone_some, Bool.false_or] at hv
    rw [Bool.or_comm]
    exact hv
  show (if !f.visibility.isEmpty || a.flatten then some f.type else none) = some f.type
  rw [if_pos hvisible]

end Derive

open Derive (Settled)

/-- The share of a field with these attributes and this name is on one side: one parameter, or one
property, or nothing at all. -/
structure Share.GoesOneWay (s : Share) (a : FieldAttributes) (name : String) : Prop where
  /-- A field with the tag of a place gives one parameter, there and under the name it has there. -/
  placed : a.IsPlaced → s.properties = [] ∧ ∃ p, s.parameters = [p]
    ∧ a.tags.last? p.location.name = some p.name ∧ p.name ≠ ""
  /-- Any other field that the serializer keeps gives one property. -/
  named : ¬ a.IsPlaced → a.omitted = false → s.parameters = []
    ∧ ∃ schema, s.properties = [(name, schema)]
  /-- A field that the serializer leaves out gives neither. -/
  left_out : ¬ a.IsPlaced → a.omitted = true → s.parameters = [] ∧ s.properties = []

/-- **The share of a derived field is on one side.** -/
theorem Document.IsShare.goesOneWay {T : TypeTable} {doc : Document} {path : List TypeId} {s : Share}
    (h : Document.IsShare T doc path s) {f : ItemField} {a : FieldAttributes}
    {style : Option NamingStyle} (hf : Settled f a style) {d : Descriptor}
    (hmember : s.member = d.through (f.fieldWith a style)) :
    s.GoesOneWay a (a.serializedName (plainIdentifier f.ident) style) where
  placed := by
    intro hplaced
    have hname : s.member.propertyName = none := by
      rw [hmember]
      exact Derive.propertyName_of_no_name d hf.untagged (.inl hplaced)
    have hplace : ∃ location name, Document.placement s.member = some (location, name) := by
      rw [hmember]
      exact Derive.exists_placement d (hf.placed hplaced)
    obtain ⟨location, name, hplace⟩ := hplace
    obtain ⟨p, hp, rfl, rfl⟩ := h.parameters_of_placement hplace
    rw [hmember] at hplace
    obtain ⟨hlast, hne⟩ := Derive.placement_eq_some hplace
    exact ⟨h.properties_of_no_name hname, p, hp, hlast, hne⟩
  named := by
    intro hplaced hkept
    have hplace : Document.placement s.member = none := by
      rw [hmember]
      exact Derive.placement_of_not_placed d hplaced
    have hname : s.member.propertyName
        = some (a.serializedName (plainIdentifier f.ident) style) := by
      rw [hmember]
      exact Derive.propertyName_of_takesName d ⟨hkept, hf.untagged, hplaced⟩ hf.named
    exact ⟨h.parameters_of_no_placement hplace, h.properties_of_name hname⟩
  left_out := by
    intro hplaced homitted
    have hplace : Document.placement s.member = none := by
      rw [hmember]
      exact Derive.placement_of_not_placed d hplaced
    have hname : s.member.propertyName = none := by
      rw [hmember]
      exact Derive.propertyName_of_no_name d hf.untagged (.inr homitted)
    exact ⟨h.parameters_of_no_placement hplace, h.properties_of_no_name hname⟩

/-! ## The fields of a derived struct are members -/

namespace TypeTable

variable {T : TypeTable}

/-- Behind its newtypes `b` is a derived struct with names in this style, and declares the field. -/
def Declares (T : TypeTable) (b : TypeId) (style : Option NamingStyle) (f : ItemField) : Prop :=
  ∃ (name key fullName : String) (item : Derive.Item) (d : Derive.Derived)
    (container : ItemAttributes) (fs : List ItemField),
    b = .named name ∧ T.underlying b = .named key ∧ T.find? key = some (d.toTypeDef fullName)
      ∧ item.derive = .ok d ∧ item.body = .struct fs
      ∧ ItemAttributes.ofAttributes item.attributes = .ok container ∧ container.naming = style
      ∧ f ∈ fs

theorem Declares.mem_fields {b : TypeId} {style : Option NamingStyle} {f : ItemField}
    {a : FieldAttributes} (h : T.Declares b style f)
    (ha : FieldAttributes.ofAttributes f.attributes = .ok a) (hskip : a.skip = false) :
    f.fieldWith a style ∈ T.fields b := by
  obtain ⟨name, key, fullName, item, d, container, fs, rfl, hunder, hfind, hderive, hfs, hcontainer,
    rfl, hf⟩ := h
  obtain ⟨container', fields, hcontainer', hfields, hbody⟩ := Derive.Item.derive_struct hderive hfs
  rw [hcontainer] at hcontainer'
  cases hcontainer'
  have hall : T.fields (.named name) = fields := by
    simp only [TypeTable.fields, hunder, hfind, Derive.Derived.toTypeDef, hbody]
  rw [hall]
  exact Derive.mem_fieldsOf hfields hf (ItemField.field?_eq ha hskip)

/-- A struct shows what the structs that it flattens show. -/
theorem Shows.of_flattens {a b : TypeId} {m : Descriptor} (h : ReflTransGen T.Flattens a b)
    (hm : T.Shows b m) : T.Shows a m := by
  induction h using ReflTransGen.head_induction_on with
  | refl => exact hm
  | head hstep _ ih => exact .within hstep ih

/-- A derived field that can be described is shown by each struct that flattens the one with it. -/
theorem Declares.shows {a b : TypeId} {style : Option NamingStyle} {f : ItemField}
    {attributes : FieldAttributes} (h : T.Declares b style f)
    (hab : ReflTransGen T.Flattens a b) (hf : Settled f attributes style)
    (hc : T.isCircular f.type = false) :
    T.Shows a ((T.describe f.type).through (f.fieldWith attributes style)) :=
  .of_flattens hab (.plain (h.mem_fields hf.read hf.kept) hf.visible hf.whole hf.type_eq hc)

end TypeTable

/-! ## The operation -/

namespace Document

variable {T : TypeTable} {doc : Document}

/-- The object of a struct, written out whole, has the properties that its members give. -/
theorem schemaOf_struct {d : Descriptor} {i : TypeFacts} {s : Schema} (hi : d.facts = some i)
    (hk : i.kind = .struct) (hrule : doc.rules.hasTypeRule d = false)
    (h : T.schemaOf doc.rules Policy.inlineAll d = .ok s) {ms : List Descriptor}
    (hms : T.members d = .ok ms) :
    ∃ pairs, T.propertiesFrom doc.rules Policy.inlineAll [i.id] ms = .ok pairs
      ∧ s = Schema.ofProperties pairs := by
  rw [TypeTable.schemaOf_of_struct hi hk hrule, TypeTable.objectOf,
    TypeTable.objectFrom_eq hi List.not_mem_nil, hms] at h
  obtain ⟨pairs, hpairs, rfl⟩ := map_eq_ok.1 h
  exact ⟨pairs, hpairs, rfl⟩

/-- An operation with a body whose parameters are a struct is made of the shares of its members. -/
theorem operationObject_of_struct {op : Operation} {object : OperationObject}
    (h : operationObject T doc op = .ok object) (hmethod : op.method.carriesBody = true)
    {i : TypeFacts} (hi : (T.view op.params).facts = some i) (hk : i.kind = .struct)
    (hrule : doc.rules.hasTypeRule (T.view op.params) = false) :
    ∃ (content : Content) (shares : List Share), object.requestBody = some content
      ∧ T.members (T.view op.params) = .ok (shares.map Share.member)
      ∧ object.parameters = shares.flatMap Share.parameters
      ∧ content.schema = Schema.ofProperties (shares.flatMap Share.properties)
      ∧ ∀ s ∈ shares, IsShare T doc [i.id] s := by
  obtain ⟨hbody, _, hparameters⟩ := operationObject_eq_ok h
  have hcontent : ∃ content, object.requestBody = some content := by
    have hhas : op.hasRequestBody T = true := by
      have hsome : (T.view op.params).isEmpty = false := by rw [Descriptor.isEmpty, hi]; rfl
      rw [Operation.hasRequestBody, hmethod, hsome]
      rfl
    rw [requestBody, if_pos hhas] at hbody
    obtain ⟨schema, _, hbody⟩ := bind_eq_ok.1 hbody
    exact ⟨_, (Except.ok.inj hbody).symm⟩
  obtain ⟨content, hcontent⟩ := hcontent
  rw [hcontent] at hbody
  have hstruct : ((T.view op.params).hasKind .struct
      && !doc.rules.hasTypeRule (T.view op.params)) = true := by
    rw [(TypeTable.hasKind_iff hi).2 hk, hrule]
    rfl
  rw [parameters, if_pos hstruct] at hparameters
  obtain ⟨ms, hms, hps⟩ := bind_eq_ok.1 hparameters
  obtain ⟨pairs, hpairs, hschema⟩ :=
    schemaOf_struct hi hk hrule (schema_of_requestBody hbody) hms
  obtain ⟨shares, rfl, hps, rfl, hall⟩ := exists_shares hps hpairs
  exact ⟨content, shares, hcontent, hms, hps, hschema, hall⟩

end Document

/-! ## An example: an update with a placed, a plain and a secret field -/

namespace Example

open TypeTable

/-- A public field that is a text. -/
def textField (ident : String) (attributes : List Derive.Attribute) : ItemField :=
  ⟨[.word "pub"], ident, .primitive .string, attributes⟩

def placedField : ItemField := textField "id" [⟨"describe", .list (assignment "path" "id")⟩]

def plainField : ItemField := textField "label" []

def secretField : ItemField := textField "secret" [⟨"serde", .list [.word "skip"]⟩]

def placedAttributes : FieldAttributes := { FieldAttributes.none with tags := [("path", "id")] }

def secretAttributes : FieldAttributes := { FieldAttributes.none with omitted := true }

def updateItem : Derive.Item :=
  ⟨[.word "pub"], "Update", [], [], .struct [placedField, plainField, secretField]⟩

def updateFields : List Field :=
  [placedField.fieldWith placedAttributes none, plainField.fieldWith FieldAttributes.none none,
    secretField.fieldWith secretAttributes none]

def updateDerived : Derive.Derived := ⟨some "Update", true, [], .struct updateFields⟩

def updateTable : TypeTable := ⟨[("Update", updateDerived.toTypeDef "app::Update")]⟩

def updateOperation : Operation :=
  { Operation.bare .put "/items/:id" "" with params := .of (.named "Update") }

def updateDocument : Document := { document with operations := [updateOperation] }

/-- The members of the update. -/
def updateMembers : List Descriptor :=
  updateFields.map (updateTable.describe (.primitive .string)).through

theorem settled_textField {ident : String} {attributes : List Derive.Attribute}
    {a : FieldAttributes} (read : FieldAttributes.ofAttributes attributes = .ok a)
    (kept : a.skip = false) (whole : a.flatten = false) (untagged : a.tags.has "json" = false)
    (told : a.serializedAs = none) (hident : IsPlain (plainIdentifier ident))
    (placed : a.IsPlaced → a.HasPlace) : Settled (textField ident attributes) a none where
  read := read
  kept := kept
  whole := whole
  visible := by simp [Field.isVisible, ItemField.fieldWith, textField]
  untagged := untagged
  named := by
    refine ⟨fun name hname => ?_, hident.no_comma, hident.nonempty, hident.not_hyphen⟩
    rw [told] at hname
    cases hname
  placed := placed

theorem settled_placed : Settled placedField placedAttributes none :=
  settled_textField (by rfl) rfl rfl rfl rfl ⟨by decide, by decide, by decide⟩
    fun _ => ⟨.path, "id", rfl, by decide⟩

theorem settled_plain : Settled plainField FieldAttributes.none none :=
  settled_textField (by rfl) rfl rfl rfl rfl ⟨by decide, by decide, by decide⟩
    fun hplaced => absurd hplaced (FieldAttributes.not_isPlaced_of_tags_eq_nil rfl)

theorem settled_secret : Settled secretField secretAttributes none :=
  settled_textField (by rfl) rfl rfl rfl rfl ⟨by decide, by decide, by decide⟩
    fun hplaced => absurd hplaced (FieldAttributes.not_isPlaced_of_tags_eq_nil rfl)

theorem derive_update : updateItem.derive = .ok updateDerived := by rfl

theorem find?_update : updateTable.find? "Update" = some (updateDerived.toTypeDef "app::Update") :=
  rfl

theorem declares_update {f : ItemField} (hf : f ∈ [placedField, plainField, secretField]) :
    updateTable.Declares (.named "Update") none f :=
  ⟨"Update", "Update", "app::Update", updateItem, updateDerived, ItemAttributes.none, _, rfl,
    underlying_of_struct find?_update rfl, find?_update, derive_update, rfl, rfl, rfl, hf⟩

theorem facts_update : (updateTable.describe (.named "Update")).facts
    = some ⟨.named "Update", "app::Update", some "Update", true, .struct⟩ :=
  facts?_of_struct find?_update rfl

theorem hasTypeRule_update :
    updateDocument.rules.hasTypeRule (updateTable.describe (.named "Update")) = false := by
  rw [Registry.hasTypeRule, facts_update]
  rfl

theorem members_update :
    updateTable.members (updateTable.describe (.named "Update")) = .ok updateMembers := by
  have hfields : updateTable.fields (.named "Update") = updateFields :=
    fields_of_struct find?_update rfl
  rw [members, membersFrom, facts_update]
  simp only [List.not_mem_nil, if_false, hfields, updateFields]
  have htext : ∀ f ∈ [placedField, plainField, secretField],
      updateTable.isCircular f.type = false := by
    intro f hf
    simp only [List.mem_cons, List.not_mem_nil, or_false] at hf
    rcases hf with rfl | rfl | rfl <;> exact isCircular_primitive .string
  rw [membersOf_of_plain rfl rfl rfl (htext _ (by simp)),
    membersOf_of_plain rfl rfl rfl (htext _ (by simp)),
    membersOf_of_plain rfl rfl rfl (htext _ (by simp)), membersOf]
  rfl

/-- Each member can be rendered. -/
theorem schemaFrom_updateMember {policy : Policy} {path : List TypeId} {m : Descriptor}
    (hm : m ∈ updateMembers) :
    ∃ s, updateTable.schemaFrom updateDocument.rules policy path m = .ok s := by
  obtain ⟨f, _, rfl⟩ := List.mem_map.1 hm
  exact ⟨_, schemaFrom_of_text (facts?_of_primitive .string)⟩

theorem schemaOf_update : ∃ s, updateTable.schemaOf updateDocument.rules Policy.inlineAll
    (updateTable.describe (.named "Update")) = .ok s := by
  have hexpands : updateTable.Expands updateDocument.rules
      (updateTable.describe (.named "Update"))
      ⟨.named "Update", "app::Update", some "Update", true, .struct⟩ := by
    refine ⟨enterable?_eq_some.2 ⟨facts_update, rfl, hasTypeRule_update⟩, ?_⟩
    rw [fields_of_struct find?_update rfl]
    exact List.cons_ne_nil _ _
  obtain ⟨pairs, hpairs⟩ : ∃ pairs, updateTable.propertiesFrom updateDocument.rules
      Policy.inlineAll [.named "Update"] updateMembers = .ok pairs :=
    Document.exists_propertiesFrom fun m hm => schemaFrom_updateMember hm
  rw [schemaOf, schemaFrom_of_inlines ⟨hexpands, .inr rfl⟩,
    objectFrom_eq facts_update List.not_mem_nil, members_update]
  simp only [Except.bind, hpairs]
  exact ⟨_, rfl⟩

theorem parameters_update :
    ∃ ps, Document.parameters updateTable updateDocument updateOperation = .ok ps := by
  have hstruct : (updateTable.view updateOperation.params).hasKind .struct = true :=
    (hasKind_iff facts_update).2 rfl
  have hrule : updateDocument.rules.hasTypeRule (updateTable.view updateOperation.params)
      = false := hasTypeRule_update
  have hmembers : updateTable.members (updateTable.view updateOperation.params)
      = .ok updateMembers := members_update
  rw [Document.parameters]
  simp only [hstruct, hrule, hmembers]
  exact Document.exists_parametersOf fun m hm => schemaFrom_updateMember hm

theorem responses_update : updateOperation.responses updateTable
    = [⟨.status 204, "The operation completed successfully.", .empty⟩,
      ⟨.default, "error response", .empty⟩] := by
  show updateOperation.successResponses updateTable ++ updateOperation.failureResponses = _
  simp [Operation.successResponses, Operation.failureResponses, updateOperation, Operation.bare,
    isEmpty_describe_empty]

theorem updateOperation_finishes :
    ∃ object, Document.operationObject updateTable updateDocument updateOperation = .ok object := by
  obtain ⟨s, hs⟩ := schemaOf_update
  obtain ⟨ps, hps⟩ := parameters_update
  have hbody : ∃ body,
      Document.requestBody updateTable updateDocument updateOperation = .ok body := by
    have hhas : updateOperation.hasRequestBody updateTable = true := by
      have hsome : (updateTable.view updateOperation.params).isEmpty = false := by
        show ((updateTable.describe (.named "Update")).facts).isNone = false
        rw [facts_update]
        rfl
      rw [Operation.hasRequestBody, hsome]
      rfl
    have hschema : updateTable.schemaOf updateDocument.rules Policy.inlineAll
        (updateTable.view updateOperation.params) = .ok s := hs
    rw [Document.requestBody, if_pos hhas]
    simp only [hschema]
    exact ⟨_, rfl⟩
  obtain ⟨body, hbody⟩ := hbody
  unfold Document.operationObject
  rw [hbody, hps, responses_update]
  simp only [Document.responseObjects, Document.responseObject, view_empty, isEmpty_describe_empty]
  exact ⟨_, rfl⟩

/-- Neither of the two responses has a body, so there are no components. -/
theorem schemas_update : Document.schemas updateTable updateDocument = .ok [] := by
  have hroots : updateDocument.roots updateTable
      = [updateTable.describe .empty, updateTable.describe .empty] := by
    simp [Document.roots, updateDocument, responses_update]
  have hdiscover : updateTable.discover updateDocument.rules (updateDocument.roots updateTable)
      = .ok [] := by
    rw [hroots, discover, discoverFrom_of_empty,
      discoverFrom_of_empty, discoverFrom]
  have hcomponents : updateTable.components updateDocument.rules (updateDocument.roots updateTable)
      = .ok [] := components_eq_ok.2 ⟨_, hdiscover, List.mergeSort_nil.symm, .nil⟩
  exact Document.schemas_eq_ok.2 ⟨_, hcomponents, .nil⟩

theorem updateDocument_assembles :
    ∃ out, Document.assemble updateTable updateDocument = .ok out := by
  have hslots : (updateDocument.operations.map Document.slot).Nodup := List.pairwise_singleton _ _
  obtain ⟨paths, hpaths⟩ := Document.exists_paths hslots fun op hop => by
    rw [List.mem_singleton.1 hop]
    exact updateOperation_finishes
  exact ⟨_, bind_eq_ok.2 ⟨paths, hpaths, bind_eq_ok.2 ⟨_, schemas_update, rfl⟩⟩⟩

end Example

namespace Document

variable {T : TypeTable} {doc : Document}

/-- **A field of a parameter struct goes one way.** The parameters of an operation with a request body
and the properties of that body are made of the shares of the struct's members. Each derived field that
settles where it goes, whether the struct declares it or flattens it in, is among the members, and its
share is one parameter if it has the tag of a place, one property if it has none and the serializer keeps
it, and nothing otherwise. A struct that is flattened in twice brings its fields as members twice. -/
theorem parameter_fields_go_one_way {out : OpenApi.Document} (h : assemble T doc = .ok out)
    {op : Operation} (hop : op ∈ doc.operations) (hmethod : op.method = .post ∨ op.method = .put)
    {i : TypeFacts} (hi : (T.view op.params).facts = some i) (hk : i.kind = .struct)
    (hrule : doc.rules.hasTypeRule (T.view op.params) = false) :
    ∃ (object : OperationObject) (content : Content) (shares : List Share),
      operationAt out.paths op.template op.method = some object
      ∧ object.requestBody = some content
      ∧ T.members (T.view op.params) = .ok (shares.map Share.member)
      ∧ object.parameters = shares.flatMap Share.parameters
      ∧ content.schema = .object (Keyed.ofList (shares.flatMap Share.properties))
      ∧ (∀ s ∈ shares, IsShare T doc [i.id] s)
      ∧ ∀ b style f a, ReflTransGen T.Flattens i.id b → T.Declares b style f → Settled f a style →
        (∃ s ∈ shares, s.member = (T.describe f.type).through (f.fieldWith a style))
          ∧ (∀ s ∈ shares, s.member = (T.describe f.type).through (f.fieldWith a style) →
            s.GoesOneWay a (a.serializedName (plainIdentifier f.ident) style))
          ∧ (¬ a.IsPlaced → a.omitted = false →
            a.serializedName (plainIdentifier f.ident) style
              ∈ Keyed.keys (Keyed.ofList (shares.flatMap Share.properties))) := by
  obtain ⟨hpaths, _⟩ := assemble_eq_ok h
  obtain ⟨object, hobject⟩ := exists_operationObject hpaths hop
  have hat := (operationAt_paths hpaths).2 ⟨op, hop, rfl, hobject⟩
  have hcarries : op.method.carriesBody = true := by
    rcases hmethod with hm | hm
    · rw [hm]; rfl
    · rw [hm]; rfl
  obtain ⟨content, shares, hcontent, hms, hps, hschema, hall⟩ :=
    operationObject_of_struct hobject hcarries hi hk hrule
  refine ⟨object, content, shares, hat, hcontent, hms, hps, hschema, hall, ?_⟩
  intro b style f a hb hdeclares hf
  have hc : T.isCircular f.type = false := TypeTable.not_circular_of_members hi hms hb
    (hdeclares.mem_fields hf.read hf.kept) hf.visible hf.type_eq
  have hshare : ∃ s ∈ shares, s.member = (T.describe f.type).through (f.fieldWith a style) :=
    List.mem_map.1 ((TypeTable.mem_members_iff hi hms).2 (hdeclares.shows hb hf hc))
  refine ⟨hshare, fun s hs hmember => (hall s hs).goesOneWay hf hmember, fun hplaced hkept => ?_⟩
  obtain ⟨s, hs, hmember⟩ := hshare
  obtain ⟨_, schema, hproperty⟩ := ((hall s hs).goesOneWay hf hmember).named hplaced hkept
  have hmem : (a.serializedName (plainIdentifier f.ident) style, schema)
      ∈ shares.flatMap Share.properties := by
    refine List.mem_flatMap.2 ⟨s, hs, ?_⟩
    rw [hproperty]
    exact List.mem_singleton_self _
  exact Keyed.mem_keys_ofList hmem

/-- Of the three fields of the update one is a parameter and one a property. -/
theorem parameter_fields_go_one_way_update :
    ∃ (out : OpenApi.Document) (object : OperationObject) (content : Content),
      assemble Example.updateTable Example.updateDocument = .ok out
      ∧ operationAt out.paths Example.updateOperation.template .put = some object
      ∧ object.requestBody = some content
      ∧ (∃ p, object.parameters = [p] ∧ p.location = .path ∧ p.name = "id")
      ∧ ∃ schema, content.schema = .object [("label", schema)] := by
  obtain ⟨out, hout⟩ := Example.updateDocument_assembles
  obtain ⟨object, content, shares, hat, hcontent, hmembers, hps, hschema, _, hfields⟩ :=
    parameter_fields_go_one_way hout (List.mem_singleton_self _) (.inr rfl) Example.facts_update rfl
      Example.hasTypeRule_update
  refine ⟨out, object, content, hout, hat, hcontent, ?_⟩
  have hshares : Example.updateMembers = shares.map Share.member :=
    Except.ok.inj (Example.members_update.symm.trans hmembers)
  obtain ⟨placed, rest, rfl, hplaced, hrest⟩ := List.map_eq_cons_iff.1 hshares.symm
  obtain ⟨plain, rest, rfl, hplain, hrest⟩ := List.map_eq_cons_iff.1 hrest
  obtain ⟨secret, rest, rfl, hsecret, hrest⟩ := List.map_eq_cons_iff.1 hrest
  have hnil : rest = [] := List.map_eq_nil_iff.1 hrest
  subst hnil
  have hway : ∀ {f a s}, f ∈ [Example.placedField, Example.plainField, Example.secretField] →
      Settled f a none → s ∈ [placed, plain, secret] →
      s.member = (Example.updateTable.describe f.type).through (f.fieldWith a none) →
      s.GoesOneWay a (a.serializedName (plainIdentifier f.ident) none) :=
    fun hf hsettled hs hmember =>
      (hfields _ _ _ _ .refl (Example.declares_update hf) hsettled).2.1 _ hs hmember
  obtain ⟨hplacedNone, p, hp, hlast, _⟩ :=
    (hway (by simp) Example.settled_placed (by simp) hplaced).placed ⟨"path", by decide, rfl⟩
  obtain ⟨hplainNone, schema, hs⟩ := (hway (by simp) Example.settled_plain (by simp) hplain).named
    (FieldAttributes.not_isPlaced_of_tags_eq_nil rfl) rfl
  obtain ⟨hsecretNone, hsecretNone'⟩ :=
    (hway (by simp) Example.settled_secret (by simp) hsecret).left_out
      (FieldAttributes.not_isPlaced_of_tags_eq_nil rfl) rfl
  refine ⟨⟨p, by simp [hps, hp, hplainNone, hsecretNone], ?_⟩, schema, ?_⟩
  · -- the field has a tag for no other place than the path
    rw [Example.placedAttributes] at hlast
    revert hlast
    cases p.location with
    | path => exact fun hlast => ⟨rfl, (Option.some.inj hlast).symm⟩
    | query => exact fun hlast => nomatch hlast
    | header => exact fun hlast => nomatch hlast
  · rw [hschema]
    simp only [List.flatMap_cons, List.flatMap_nil, hplacedNone, hs, hsecretNone']
    rfl

end Document

end ApiAtlas
