import Mathlib.Data.List.TakeWhile
import ApiAtlas.Derive.Item
import ApiAtlas.Proofs.Letters
import ApiAtlas.Proofs.Outcome

/-!
# The names of derived fields

A derived field is told its serialized name by a `json` tag, and a tag has a syntax of its own: what
comes after a comma is no part of the name, a lone hyphen and an empty text stand for a field that is
not serialized. A name is written into the tag as it is. So it can be read back if it is neither empty
nor a hyphen and has no comma (`IsPlain`), and not otherwise.

An identifier that is written in some style is such a name unless it is made of underscores alone. A
name that the serializer is told can be anything, and `rename_with_comma` is one that is lost.
-/

namespace ApiAtlas

/-! ## The last tag of a key -/

namespace Tags

theorem last?_append (tags later : Tags) (key : String) :
    last? (tags ++ later) key = (last? later key).or (last? tags key) := by
  unfold last?
  rw [List.reverse_append, List.lookup_append]

theorem last?_singleton (key value : String) : last? [(key, value)] key = some value := by
  simp [last?]

theorem last?_of_not_has {tags : Tags} {key : String} (h : has tags key = false) :
    last? tags key = none := by
  refine List.lookup_eq_none_iff.2 fun e he => ?_
  have hne : ¬ e.1 = key := by
    intro hkey
    rw [has, List.any_eq_false] at h
    exact h e (List.mem_reverse.1 he) (by simp [hkey])
  simpa using fun hkey : key = e.1 => hne hkey.symm

theorem last?_filter_ne {tags : Tags} {key other : String} (h : key ≠ other) :
    last? (tags.filter (·.1 ≠ other)) key = last? tags key := by
  unfold last?
  rw [← List.filter_reverse]
  induction tags.reverse with
  | nil => rfl
  | cons e rest ih =>
    by_cases he : e.1 = other
    · have hkey : (key == e.1) = false := by
        rw [he]
        exact beq_false_of_ne h
      rw [List.filter_cons_of_neg (by simp [he]), ih, List.lookup_cons, hkey]
    · rw [List.filter_cons_of_pos (by simp [he]), List.lookup_cons, List.lookup_cons, ih]

theorem has_of_last? {tags : Tags} {key value : String} (h : last? tags key = some value) :
    has tags key = true := by
  by_contra hno
  rw [last?_of_not_has (by simpa using hno)] at h
  cases h

end Tags

/-! ## Names that a tag can tell -/

/-- Neither empty nor a hyphen, and without a comma. -/
structure IsPlain (name : String) : Prop where
  nonempty : name ≠ ""
  not_hyphen : name ≠ "-"
  no_comma : ',' ∉ name.toList

/-- A character that is no hyphen is enough, if there is no comma. -/
theorem isPlain_of_mem {name : String} {c : Char} (hcomma : ',' ∉ name.toList)
    (hc : c ∈ name.toList) (hne : c ≠ '-') : IsPlain name where
  nonempty := by
    rintro rfl
    cases hc
  not_hyphen := by
    rintro rfl
    exact hne (List.mem_singleton.1 hc)
  no_comma := hcomma

namespace Field

/-- A plain name is read as it is. -/
theorem nameOfTag_of_isPlain {declared : Option String} {name : String} (h : IsPlain name) :
    nameOfTag declared name = some name := by
  have hall : name.toList.takeWhile (· != ',') = name.toList := by
    refine List.takeWhile_eq_self_iff.2 fun c hc => ?_
    have hne : c ≠ ',' := fun he => h.no_comma (he ▸ hc)
    simpa using hne
  have hnil : name.toList ≠ [] := fun he => h.nonempty (String.toList_eq_nil_iff.1 he)
  simp only [nameOfTag, if_neg h.not_hyphen, hall, if_neg hnil, String.ofList_toList]

/-- A hyphen and an empty tag are no name. -/
theorem nameOfTag_of_none {declared : Option String} {name : String}
    (h : name = "" ∨ name = "-") : nameOfTag declared name = none := by
  rcases h with rfl | rfl
  · rfl
  · rfl

/-- Of a tag with a comma what stands before it is read, or else the declared name. -/
theorem nameOfTag_of_comma {declared : Option String} {name : String} {p rest : List Char}
    (hname : name.toList = p ++ ',' :: rest) (hp : ',' ∉ p) :
    nameOfTag declared name = if p = [] then declared else some (String.ofList p) := by
  have hbefore : name.toList.takeWhile (· != ',') = p := by
    have hall : ∀ c ∈ p, (c != ',') = true := by
      intro c hc
      have hne : c ≠ ',' := fun he => hp (he ▸ hc)
      simpa using hne
    rw [hname, List.takeWhile_append_of_pos hall]
    simp
  have hhyphen : name ≠ "-" := by
    rintro rfl
    have hmem : ',' ∈ "-".toList := by rw [hname]; simp
    exact absurd hmem (by decide)
  have hcomma : name.toList.contains ',' = true := by
    rw [hname]
    simp
  simp only [nameOfTag, if_neg hhyphen, hbefore, hcomma, if_true]

end Field

/-! ## Styles -/

namespace Derive

/-- What is no capital letter in upper case was none before and is unchanged. -/
theorem eq_of_toUpper {c p : Char} (hp : p.isUpper = false) (h : c.toUpper = p) : c = p := by
  by_cases hc : c.isLower = true
  · rw [← h, isUpper_toUpper hc] at hp
    cases hp
  · rw [← h, toUpper_of_not_isLower hc]

theorem eq_of_toLower {c p : Char} (hp : p.isLower = false) (h : c.toLower = p) : c = p := by
  by_cases hc : c.isUpper = true
  · rw [← h, isLower_toLower hc] at hp
    cases hp
  · rw [← h, toLower_of_not_isUpper hc]

/-- Some character is neither an underscore nor a hyphen. -/
def HasLetter (cs : List Char) : Prop := ∃ c ∈ cs, c ≠ '_' ∧ c ≠ '-'

namespace NamingStyle

/-- No style brings a comma into a name, in so far as each part of it brings none. -/
theorem mem_of_mem_map_toUpper {cs : List Char} (h : ',' ∈ cs.map Char.toUpper) : ',' ∈ cs := by
  obtain ⟨c, hc, hcomma⟩ := List.mem_map.1 h
  rw [← eq_of_toUpper (by decide) hcomma]
  exact hc

theorem mem_of_mem_hyphenate {cs : List Char} (h : ',' ∈ hyphenate cs) : ',' ∈ cs := by
  obtain ⟨c, hc, hcomma⟩ := List.mem_map.1 h
  by_cases hunder : c = '_'
  · rw [if_pos hunder] at hcomma
    exact absurd hcomma (by decide)
  · rw [if_neg hunder] at hcomma
    rw [← hcomma]
    exact hc

theorem mem_of_mem_pascalFrom {fresh : Bool} {cs : List Char} (h : ',' ∈ pascalFrom fresh cs) :
    ',' ∈ cs := by
  induction cs generalizing fresh with
  | nil => exact h
  | cons c rest ih =>
    rw [pascalFrom] at h
    by_cases hunder : c = '_'
    · rw [if_pos hunder] at h
      exact List.mem_cons_of_mem _ (ih h)
    · rw [if_neg hunder] at h
      rcases List.mem_cons.1 h with hfirst | hrest
      · have hc : c = ',' := by
          cases fresh with
          | true => exact eq_of_toUpper (by decide) hfirst.symm
          | false => exact hfirst.symm
        rw [hc]
        exact List.mem_cons_self
      · exact List.mem_cons_of_mem _ (ih hrest)

theorem mem_of_mem_lowerFirst {cs : List Char} (h : ',' ∈ lowerFirst cs) : ',' ∈ cs := by
  cases cs with
  | nil => exact h
  | cons c rest =>
    rcases List.mem_cons.1 h with hfirst | hrest
    · rw [← eq_of_toLower (by decide) hfirst.symm]
      exact List.mem_cons_self
    · exact List.mem_cons_of_mem _ hrest

/-- **No style brings a comma into a name.** -/
theorem no_comma_apply (s : NamingStyle) {name : String} (h : ',' ∉ name.toList) :
    ',' ∉ (s.apply name).toList := by
  rw [apply, String.toList_ofList]
  intro hmem
  apply h
  cases s with
  | lower | snake => exact hmem
  | upper | screamingSnake => exact mem_of_mem_map_toUpper hmem
  | pascal => exact mem_of_mem_pascalFrom hmem
  | camel => exact mem_of_mem_pascalFrom (mem_of_mem_lowerFirst hmem)
  | kebab => exact mem_of_mem_hyphenate hmem
  | screamingKebab => exact mem_of_mem_map_toUpper (mem_of_mem_hyphenate hmem)

theorem hasLetter_map_toUpper {cs : List Char} (h : HasLetter cs) :
    HasLetter (cs.map Char.toUpper) := by
  obtain ⟨c, hc, hunder, hhyphen⟩ := h
  refine ⟨c.toUpper, List.mem_map_of_mem hc, ?_, ?_⟩
  · intro he
    exact hunder (eq_of_toUpper (by decide) he)
  · intro he
    exact hhyphen (eq_of_toUpper (by decide) he)

theorem hasLetter_hyphenate {cs : List Char} (h : HasLetter cs) : HasLetter (hyphenate cs) := by
  obtain ⟨c, hc, hunder, hhyphen⟩ := h
  refine ⟨c, List.mem_map.2 ⟨c, hc, if_neg hunder⟩, hunder, hhyphen⟩

theorem hasLetter_pascalFrom {fresh : Bool} {cs : List Char} (h : HasLetter cs) :
    HasLetter (pascalFrom fresh cs) := by
  obtain ⟨c, hc, hunder, hhyphen⟩ := h
  induction cs generalizing fresh with
  | nil => cases hc
  | cons c' rest ih =>
    rw [pascalFrom]
    by_cases hfirst : c' = '_'
    · rw [if_pos hfirst]
      rcases List.mem_cons.1 hc with rfl | hrest
      · exact absurd hfirst hunder
      · exact ih hrest
    · rw [if_neg hfirst]
      rcases List.mem_cons.1 hc with rfl | hrest
      · refine ⟨_, List.mem_cons_self, ?_⟩
        cases fresh with
        | true =>
          constructor
          · intro he
            exact hunder (eq_of_toUpper (by decide) he)
          · intro he
            exact hhyphen (eq_of_toUpper (by decide) he)
        | false => exact ⟨hunder, hhyphen⟩
      · have hlater : HasLetter (pascalFrom false rest) := ih hrest
        obtain ⟨d, hd, hletter⟩ := hlater
        exact ⟨d, List.mem_cons_of_mem _ hd, hletter⟩

theorem hasLetter_lowerFirst {cs : List Char} (h : HasLetter cs) : HasLetter (lowerFirst cs) := by
  obtain ⟨c, hc, hunder, hhyphen⟩ := h
  cases cs with
  | nil => cases hc
  | cons c' rest =>
    rcases List.mem_cons.1 hc with rfl | hrest
    · refine ⟨c.toLower, List.mem_cons_self, ?_, ?_⟩
      · intro he
        exact hunder (eq_of_toLower (by decide) he)
      · intro he
        exact hhyphen (eq_of_toLower (by decide) he)
    · exact ⟨c, List.mem_cons_of_mem _ hrest, hunder, hhyphen⟩

/-- **Every style leaves something of a name with a letter.** -/
theorem hasLetter_apply (s : NamingStyle) {name : String} (h : HasLetter name.toList) :
    HasLetter (s.apply name).toList := by
  rw [apply, String.toList_ofList]
  cases s with
  | lower | snake => exact h
  | upper | screamingSnake => exact hasLetter_map_toUpper h
  | pascal => exact hasLetter_pascalFrom h
  | camel => exact hasLetter_lowerFirst (hasLetter_pascalFrom h)
  | kebab => exact hasLetter_hyphenate h
  | screamingKebab => exact hasLetter_hyphenate (hasLetter_map_toUpper h)

end NamingStyle

/-! ## The tags of a derived field -/

/-- The identifier as the style of the struct writes it. -/
def styledName (name : String) : Option NamingStyle → String
  | some style => style.apply name
  | none => name

namespace FieldAttributes

variable {a : FieldAttributes} {name key : String} {style : Option NamingStyle}

/-- Some tag makes a parameter of the field. -/
def IsPlaced (a : FieldAttributes) : Prop := ∃ tag ∈ placementTags, a.tags.has tag = true

theorem not_isPlaced_of_tags_eq_nil (h : a.tags = []) : ¬ a.IsPlaced := by
  rintro ⟨tag, _, hhas⟩
  rw [h] at hhas
  cases hhas

/-- The serializer keeps the field, and no explicit tag says what becomes of it. -/
structure TakesName (a : FieldAttributes) : Prop where
  kept : a.omitted = false
  untagged : a.tags.has "json" = false
  unplaced : ¬ a.IsPlaced

theorem any_placementTags : placementTags.any a.tags.has = true ↔ a.IsPlaced := List.any_eq_true

theorem serializedName_eq :
    a.serializedName name style = a.serializedAs.getD (styledName name style) := by
  cases style with
  | none => rfl
  | some s => rfl

theorem last?_allTags (h : key ≠ "description") :
    (a.allTags name style).last? key = (a.nameTags name style).last? key := by
  have hnone : a.descriptionTag.last? key = Option.none := by
    refine Tags.last?_of_not_has ?_
    unfold descriptionTag
    split
    · rfl
    · split
      · simpa [Tags.has] using h.symm
      · rfl
  rw [allTags, Tags.last?_append, hnone, Option.none_or]

/-- The name of a field is no matter of the other tags. -/
theorem last?_nameTags (hj : key ≠ "json") :
    (a.nameTags name style).last? key = a.tags.last? key := by
  have hjson : ∀ value, Tags.last? [("json", value)] key = Option.none := by
    intro value
    refine Tags.last?_of_not_has ?_
    simpa [Tags.has] using hj.symm
  rw [nameTags]
  split
  · rw [Tags.last?_append, hjson, Option.none_or, Tags.last?_filter_ne hj]
  · split
    · rfl
    · rw [Tags.last?_append, hjson, Option.none_or]

/-- All but two tags are the explicit ones. -/
theorem last?_allTags_of_ne (hj : key ≠ "json") (hd : key ≠ "description") :
    (a.allTags name style).last? key = a.tags.last? key := by
  rw [last?_allTags hd, last?_nameTags hj]

/-- Where the serializer leaves a field out, its `json` tag says so, whatever else is written. -/
theorem last?_json_of_omitted (h : a.omitted = true) :
    (a.allTags name style).last? "json" = some "-" := by
  rw [last?_allTags (by decide), nameTags, if_pos h, Tags.last?_append, Tags.last?_singleton]
  rfl

/-- A field with a place among the parameters gets no name. -/
theorem last?_json_of_placed (hkept : a.omitted = false) (huntagged : a.tags.has "json" = false)
    (h : a.IsPlaced) : (a.allTags name style).last? "json" = Option.none := by
  have hplaced : (a.tags.has "json" || placementTags.any a.tags.has) = true := by
    rw [huntagged, Bool.false_or, any_placementTags]
    exact h
  rw [last?_allTags (by decide), nameTags, if_neg (by simp [hkept]), if_pos hplaced]
  exact Tags.last?_of_not_has huntagged

/-- Any other field is told its serialized name. -/
theorem TakesName.last?_json (h : a.TakesName) :
    (a.allTags name style).last? "json" = some (a.serializedName name style) := by
  have hplain : ¬ (a.tags.has "json" || placementTags.any a.tags.has) = true := by
    rw [h.untagged, Bool.false_or, any_placementTags]
    exact h.unplaced
  rw [last?_allTags (by decide), nameTags, if_neg (by simp [h.kept]), if_neg hplain,
    Tags.last?_append, Tags.last?_singleton]
  rfl

end FieldAttributes

/-! ## The fields of a derived struct -/

/-- The field that a declared one with these attributes gives. -/
def ItemField.fieldWith (f : ItemField) (a : FieldAttributes) (style : Option NamingStyle) :
    Field where
  name := some (plainIdentifier f.ident)
  exported := !f.visibility.isEmpty
  flattened := a.flatten
  tags := a.allTags (plainIdentifier f.ident) style
  type := if !f.visibility.isEmpty || a.flatten then some f.type else none

theorem ItemField.field?_eq {f : ItemField} {a : FieldAttributes} {style : Option NamingStyle}
    (ha : FieldAttributes.ofAttributes f.attributes = .ok a) (hskip : a.skip = false) :
    f.field? style = .ok (some (f.fieldWith a style)) := by
  unfold field?
  rw [ha]
  show (if a.skip = true then pure none else pure (some (f.fieldWith a style)) :
    Except CompileError (Option Field)) = _
  rw [if_neg (by simp [hskip])]
  rfl

/-- The fields of a struct are what its declared ones give. -/
theorem mem_fieldsOf {style : Option NamingStyle} {fs : List ItemField} {fields : List Field}
    (h : fieldsOf style fs = .ok fields) {f : ItemField} (hf : f ∈ fs) {g : Field}
    (hg : f.field? style = .ok (some g)) : g ∈ fields := by
  induction fs generalizing fields with
  | nil => cases hf
  | cons f' rest ih =>
    rw [fieldsOf] at h
    obtain ⟨o, ho, h⟩ := bind_eq_ok.1 h
    obtain ⟨later, hlater, h⟩ := bind_eq_ok.1 h
    cases h
    rcases List.mem_cons.1 hf with rfl | hrest
    · rw [hg] at ho
      cases ho
      exact List.mem_cons_self
    · exact List.mem_append_right _ (ih hlater hrest)

/-- What is derived from a struct is a struct with the fields that its own ones give. -/
theorem Item.derive_struct {item : Item} {d : Derived} (h : item.derive = .ok d)
    {fs : List ItemField} (hfs : item.body = .struct fs) :
    ∃ container fields, ItemAttributes.ofAttributes item.attributes = .ok container
      ∧ fieldsOf container.naming fs = .ok fields ∧ d.body = .struct fields := by
  unfold Item.derive at h
  split at h
  · cases h
  obtain ⟨container, hcontainer, h⟩ := bind_eq_ok.1 h
  obtain ⟨body, hbody, h⟩ := bind_eq_ok.1 h
  cases h
  rw [hfs] at hbody
  obtain ⟨fields, hfields, rfl⟩ := map_eq_ok.1 hbody
  exact ⟨container, fields, hcontainer, hfields, rfl⟩

/-! ## The property name -/

/-- What is read of a name that is written into a `json` tag. -/
structure ReadBack (declared name : String) (read : Option String) : Prop where
  plain : IsPlain name → read = some name
  none : name = "" ∨ name = "-" → read = Option.none
  comma : ∀ p rest, name.toList = p ++ ',' :: rest → ',' ∉ p →
    read = some (if p = [] then declared else String.ofList p)

theorem readBack_nameOfTag (declared name : String) :
    ReadBack declared name (Field.nameOfTag (some declared) name) where
  plain := Field.nameOfTag_of_isPlain
  none := Field.nameOfTag_of_none
  comma := by
    intro p rest hname hp
    rw [Field.nameOfTag_of_comma hname hp]
    by_cases hnil : p = []
    · rw [if_pos hnil, if_pos hnil]
    · rw [if_neg hnil, if_neg hnil]

theorem propertyName_fieldWith {f : ItemField} {a : FieldAttributes} {style : Option NamingStyle}
    (h : a.TakesName) : (f.fieldWith a style).propertyName
      = Field.nameOfTag (some (plainIdentifier f.ident))
        (a.serializedName (plainIdentifier f.ident) style) := by
  show ((a.allTags (plainIdentifier f.ident) style).last? "json").bind _ = _
  rw [h.last?_json]
  rfl

/-- A name with a letter is plain in every style. -/
theorem isPlain_styledName {name : String} (hcomma : ',' ∉ name.toList)
    (hletter : HasLetter name.toList) (style : Option NamingStyle) :
    IsPlain (styledName name style) := by
  cases style with
  | none =>
    obtain ⟨c, hc, _, hhyphen⟩ := hletter
    exact isPlain_of_mem hcomma hc hhyphen
  | some s =>
    obtain ⟨c, hc, _, hhyphen⟩ := s.hasLetter_apply hletter
    exact isPlain_of_mem (s.no_comma_apply hcomma) hc hhyphen

/-- **What a derived field is called.** A field that the serializer keeps, and that carries neither a
`json` tag nor one of a place, has its serialized name written into a `json` tag. If that name is plain,
it is the property name. Of a name with a comma only what stands before the comma is left, or the
declared name if nothing does; an empty name and a hyphen leave no property at all. The name that a style
gives to an identifier with a letter in it is always plain. -/
theorem derived_property_names {item : Item} {d : Derived} (h : item.derive = .ok d)
    {fs : List ItemField} (hfs : item.body = .struct fs) :
    ∃ container fields, ItemAttributes.ofAttributes item.attributes = .ok container
      ∧ d.body = .struct fields
      ∧ ∀ f ∈ fs, ∀ a, FieldAttributes.ofAttributes f.attributes = .ok a → a.skip = false →
        a.TakesName → ∃ g ∈ fields, f.field? container.naming = .ok (some g)
          ∧ ReadBack (plainIdentifier f.ident)
            (a.serializedName (plainIdentifier f.ident) container.naming) g.propertyName
          ∧ (a.serializedAs = none → ',' ∉ (plainIdentifier f.ident).toList →
            HasLetter (plainIdentifier f.ident).toList →
            g.propertyName = some (styledName (plainIdentifier f.ident) container.naming)) := by
  obtain ⟨container, fields, hcontainer, hfields, hbody⟩ := Item.derive_struct h hfs
  refine ⟨container, fields, hcontainer, hbody, fun f hf a ha hskip htakes => ?_⟩
  have hfield : f.field? container.naming = .ok (some (f.fieldWith a container.naming)) :=
    ItemField.field?_eq ha hskip
  have hread := readBack_nameOfTag (plainIdentifier f.ident)
    (a.serializedName (plainIdentifier f.ident) container.naming)
  rw [← propertyName_fieldWith htakes] at hread
  refine ⟨_, mem_fieldsOf hfields hf hfield, hfield, hread, fun hrename hcomma hletter => ?_⟩
  have hplain := isPlain_styledName hcomma hletter container.naming
  have hname : a.serializedName (plainIdentifier f.ident) container.naming
      = styledName (plainIdentifier f.ident) container.naming := by
    rw [FieldAttributes.serializedName_eq, hrename, Option.getD_none]
  rw [hname] at hread
  exact hread.plain hplain

end Derive

/-! ## Examples -/

namespace Example

/-- A public struct with one public field, whose serializer is told something about either. -/
def labelled (ident : String) (style name : List Derive.TokenTree) : Derive.Item :=
  ⟨[.word "pub"], "Labelled", [], [⟨"serde", .list style⟩],
    .struct [⟨[.word "pub"], ident, .primitive .string, [⟨"serde", .list name⟩]⟩]⟩

/-- What is derived from it if the field gets this `json` tag. -/
def labelledWith (ident tag : String) : Derive.Derived :=
  ⟨some "Labelled", true, [], .struct [⟨some ident, true, false, [("json", tag)],
    some (.primitive .string)⟩]⟩

/-- An assignment in the list of an attribute. -/
def assignment (key value : String) : List Derive.TokenTree :=
  [.word key, .mark '=' false, .literal (.text value)]

end Example

namespace Derive

open Example

/-- In camel case the name of an identifier is kept. -/
theorem derived_property_names_camel :
    (labelled "user_id" (assignment "rename_all" "camelCase") []).derive
        = .ok (labelledWith "user_id" "userId")
      ∧ ∃ fields, (labelledWith "user_id" "userId").body = .struct fields
        ∧ ∃ g ∈ fields, g.propertyName = some "userId" := by
  have hderive : (labelled "user_id" (assignment "rename_all" "camelCase") []).derive
      = .ok (labelledWith "user_id" "userId") := by rfl
  obtain ⟨container, fields, hcontainer, hbody, hnames⟩ := derived_property_names hderive rfl
  have hstyle : container.naming = some .camel := by
    have hread : ItemAttributes.ofAttributes
        (labelled "user_id" (assignment "rename_all" "camelCase") []).attributes
        = .ok ⟨none, false, some .camel⟩ := by rfl
    rw [hread] at hcontainer
    cases hcontainer
    rfl
  have htakes : FieldAttributes.none.TakesName :=
    ⟨rfl, rfl, FieldAttributes.not_isPlaced_of_tags_eq_nil rfl⟩
  obtain ⟨g, hg, _, _, hname⟩ :=
    hnames _ (List.mem_singleton_self _) FieldAttributes.none (by rfl) rfl htakes
  refine ⟨hderive, fields, hbody, g, hg, ?_⟩
  rw [hname rfl (by decide) ⟨'u', by decide⟩, hstyle]
  rfl

/-- The serializer is told `a,b`, and only `a` is left of it. -/
theorem rename_with_comma :
    (labelled "label" [] (assignment "rename" "a,b")).derive = .ok (labelledWith "label" "a,b")
      ∧ ∃ g, (labelledWith "label" "a,b").body = .struct [g] ∧ g.propertyName = some "a"
        ∧ g.propertyName ≠ some "a,b" :=
  ⟨by rfl, _, rfl, by rfl, by decide⟩

end Derive

end ApiAtlas
