import ApiAtlas.Proofs.DerivedNames

/-!
# Which source of a tag holds

The tags of a derived field come from what is written at it, and the last one of a key holds. There is
more than one source for the two keys that are derived. The name of the field is, in this order, a hyphen
if the serializer leaves it out, what an explicit tag says, nothing if the field has a place among the
parameters, what the serializer is told, and the declared name in the style of the struct. The description
is what an explicit tag says, or else the doc comment. All other keys have explicit tags only.

`Holds` has one rule for each source, and the sources before it in the order are ruled out by its
premises. So whatever the tags of a field are, one rule applies to each key.
-/

namespace ApiAtlas

namespace Tags

variable {tags : Tags} {key value : String}

/-- The last tag of this key has this value. -/
def IsLast (tags : Tags) (key value : String) : Prop :=
  ∃ before after, tags = before ++ (key, value) :: after ∧ ∀ tag ∈ after, tag.1 ≠ key

/-- No tag has this key. -/
def Lacks (tags : Tags) (key : String) : Prop := ∀ tag ∈ tags, tag.1 ≠ key

theorem last?_eq_some_iff : tags.last? key = some value ↔ tags.IsLast key value := by
  unfold last? IsLast
  rw [List.lookup_eq_some_iff]
  constructor
  · rintro ⟨later, earlier, hsplit, hlater⟩
    refine ⟨earlier.reverse, later.reverse, ?_, fun tag htag => ?_⟩
    · rw [← List.reverse_reverse tags, hsplit]
      simp
    · have hne := hlater tag (List.mem_reverse.1 htag)
      exact fun he => absurd he.symm (by simpa using hne)
  · rintro ⟨before, after, rfl, hafter⟩
    refine ⟨after.reverse, before.reverse, by simp, fun tag htag => ?_⟩
    have hne := hafter tag (List.mem_reverse.1 htag)
    simpa using fun he : key = tag.1 => hne he.symm

theorem lacks_iff : tags.Lacks key ↔ tags.has key = false := by
  rw [has, List.any_eq_false]
  simp [Lacks]

theorem last?_eq_none_iff : tags.last? key = none ↔ tags.Lacks key := by
  unfold last? Lacks
  rw [List.lookup_eq_none_iff]
  simp only [List.mem_reverse, bne_iff_ne, ne_comm]

/-- Some tag has the key, or none does. -/
theorem isLast_or_lacks (tags : Tags) (key : String) :
    (∃ value, tags.IsLast key value) ∨ tags.Lacks key := by
  cases h : tags.last? key with
  | none => exact .inr (last?_eq_none_iff.1 h)
  | some value => exact .inl ⟨value, last?_eq_some_iff.1 h⟩

theorem has_of_isLast (h : tags.IsLast key value) : tags.has key = true :=
  has_of_last? (last?_eq_some_iff.2 h)

end Tags

namespace Derive.FieldAttributes

variable {a : FieldAttributes} {name key value : String} {style : Option NamingStyle}

/-- What the tags of a field say under a key: a value, or nothing. -/
inductive Holds (a : FieldAttributes) (name : String) (style : Option NamingStyle) :
    String → Option String → Prop where
  | omitted : a.omitted = true → Holds a name style "json" (some "-")
  | explicitName {value : String} : a.omitted = false → a.tags.IsLast "json" value →
      Holds a name style "json" (some value)
  | placed {place : String} : a.omitted = false → a.tags.Lacks "json" →
      place ∈ ["path", "query", "header"] → ¬ a.tags.Lacks place → Holds a name style "json" .none
  | renamed {value : String} : a.omitted = false → a.tags.Lacks "json" →
      (∀ place ∈ ["path", "query", "header"], a.tags.Lacks place) → a.serializedAs = some value →
      Holds a name style "json" (some value)
  | declared : a.omitted = false → a.tags.Lacks "json" →
      (∀ place ∈ ["path", "query", "header"], a.tags.Lacks place) → a.serializedAs = .none →
      Holds a name style "json" (some (styledName name style))
  | described {value : String} : a.tags.IsLast "description" value →
      Holds a name style "description" (some value)
  | documented : a.tags.Lacks "description" → Holds a name style "description" a.doc
  | explicit {key value : String} : key ≠ "json" → key ≠ "description" → a.tags.IsLast key value →
      Holds a name style key (some value)
  | nothing {key : String} : key ≠ "json" → key ≠ "description" → a.tags.Lacks key →
      Holds a name style key .none

/-! ## The name -/

theorem isPlaced_iff : a.IsPlaced ↔ ∃ place ∈ ["path", "query", "header"], ¬ a.tags.Lacks place := by
  simp only [IsPlaced, Tags.lacks_iff, Bool.not_eq_false]
  rfl

theorem not_isPlaced_iff :
    ¬ a.IsPlaced ↔ ∀ place ∈ ["path", "query", "header"], a.tags.Lacks place := by
  rw [isPlaced_iff]
  simp only [not_exists, not_and, not_not]

/-- A name that an explicit tag says stands, if the serializer keeps the field. -/
theorem last?_json_of_explicit (hkept : a.omitted = false) (h : a.tags.IsLast "json" value) :
    (a.allTags name style).last? "json" = some value := by
  rw [last?_allTags (by decide), nameTags, if_neg (by simp [hkept]),
    if_pos (by rw [Tags.has_of_isLast h, Bool.true_or])]
  exact Tags.last?_eq_some_iff.2 h

/-! ## The description -/

theorem descriptionTag_of_isLast (h : a.tags.IsLast "description" value) :
    a.descriptionTag = [] := by
  rw [descriptionTag, if_pos (Tags.has_of_isLast h)]

theorem last?_descriptionTag (h : a.tags.Lacks "description") :
    a.descriptionTag.last? "description" = a.doc := by
  rw [descriptionTag, Tags.lacks_iff.1 h, if_neg Bool.false_ne_true]
  cases a.doc with
  | none => rfl
  | some doc => exact Tags.last?_singleton _ _

/-- A description stands, and otherwise the doc comment does. -/
theorem last?_description : (a.allTags name style).last? "description"
    = (a.tags.last? "description").or a.doc := by
  rw [allTags, Tags.last?_append, last?_nameTags (by decide)]
  rcases Tags.isLast_or_lacks a.tags "description" with ⟨value, h⟩ | h
  · rw [descriptionTag_of_isLast h, Tags.last?_eq_some_iff.2 h]
    rfl
  · rw [last?_descriptionTag h, Tags.last?_eq_none_iff.2 h, Option.or_none, Option.none_or]

/-! ## All keys -/

theorem last?_of_holds {v : Option String} (h : Holds a name style key v) :
    (a.allTags name style).last? key = v := by
  cases h with
  | omitted homitted => exact last?_json_of_omitted homitted
  | explicitName hkept hlast => exact last?_json_of_explicit hkept hlast
  | placed hkept hlacks hplace hsome =>
    exact last?_json_of_placed hkept (Tags.lacks_iff.1 hlacks) (isPlaced_iff.2 ⟨_, hplace, hsome⟩)
  | renamed hkept hlacks hplaces hrename =>
    have htakes : a.TakesName := ⟨hkept, Tags.lacks_iff.1 hlacks, not_isPlaced_iff.2 hplaces⟩
    rw [htakes.last?_json, serializedName_eq, hrename, Option.getD_some]
  | declared hkept hlacks hplaces hrename =>
    have htakes : a.TakesName := ⟨hkept, Tags.lacks_iff.1 hlacks, not_isPlaced_iff.2 hplaces⟩
    rw [htakes.last?_json, serializedName_eq, hrename, Option.getD_none]
  | described hlast => rw [last?_description, Tags.last?_eq_some_iff.2 hlast, Option.some_or]
  | documented hlacks => rw [last?_description, Tags.last?_eq_none_iff.2 hlacks, Option.none_or]
  | explicit hj hd hlast => rw [last?_allTags_of_ne hj hd, Tags.last?_eq_some_iff.2 hlast]
  | nothing hj hd hlacks => rw [last?_allTags_of_ne hj hd, Tags.last?_eq_none_iff.2 hlacks]

/-- Some rule applies to each key. -/
theorem exists_holds (a : FieldAttributes) (name key : String) (style : Option NamingStyle) :
    ∃ v, Holds a name style key v := by
  by_cases hj : key = "json"
  · subst hj
    cases homitted : a.omitted with
    | true => exact ⟨_, .omitted homitted⟩
    | false =>
      rcases Tags.isLast_or_lacks a.tags "json" with ⟨value, h⟩ | h
      · exact ⟨_, .explicitName homitted h⟩
      · by_cases hplaced : a.IsPlaced
        · obtain ⟨place, hplace, hsome⟩ := isPlaced_iff.1 hplaced
          exact ⟨_, .placed homitted h hplace hsome⟩
        · have hplaces := not_isPlaced_iff.1 hplaced
          cases hrename : a.serializedAs with
          | none => exact ⟨_, .declared homitted h hplaces hrename⟩
          | some value => exact ⟨_, .renamed homitted h hplaces hrename⟩
  · by_cases hd : key = "description"
    · subst hd
      rcases Tags.isLast_or_lacks a.tags "description" with ⟨value, h⟩ | h
      · exact ⟨_, .described h⟩
      · exact ⟨_, .documented h⟩
    · rcases Tags.isLast_or_lacks a.tags key with ⟨value, h⟩ | h
      · exact ⟨_, .explicit hj hd h⟩
      · exact ⟨_, .nothing hj hd h⟩

/-- **One rule decides each tag of a field.** -/
theorem last?_allTags_iff {v : Option String} :
    (a.allTags name style).last? key = v ↔ Holds a name style key v := by
  refine ⟨?_, last?_of_holds⟩
  rintro rfl
  obtain ⟨v, hv⟩ := exists_holds a name key style
  rwa [last?_of_holds hv]

/-! ## What is kept -/

/-- All explicit tags but those of the name are kept in their order. -/
theorem filter_allTags (a : FieldAttributes) (name : String) (style : Option NamingStyle) :
    (a.allTags name style).filter (·.1 ≠ "json")
      = a.tags.filter (·.1 ≠ "json") ++ a.descriptionTag := by
  have hname : (a.nameTags name style).filter (·.1 ≠ "json") = a.tags.filter (·.1 ≠ "json") := by
    rw [nameTags]
    split
    · simp [List.filter_append, List.filter_filter]
    · split
      · rfl
      · simp [List.filter_append]
  have hdescription : a.descriptionTag.filter (·.1 ≠ "json") = a.descriptionTag := by
    rw [descriptionTag]
    split
    · rfl
    · split
      · simp
      · rfl
  rw [allTags, List.filter_append, hname, hdescription]

/-- A description is added only if there is none. -/
theorem mem_descriptionTag {tag : String × String} (h : tag ∈ a.descriptionTag) :
    tag.1 = "description" ∧ a.tags.Lacks "description" ∧ a.doc = some tag.2 := by
  rcases Tags.isLast_or_lacks a.tags "description" with ⟨value, hlast⟩ | hlacks
  · rw [descriptionTag_of_isLast hlast] at h
    cases h
  · rw [descriptionTag, Tags.lacks_iff.1 hlacks, if_neg Bool.false_ne_true] at h
    cases hdoc : a.doc with
    | none =>
      rw [hdoc] at h
      cases h
    | some doc =>
      rw [hdoc] at h
      rw [List.mem_singleton.1 h]
      exact ⟨rfl, hlacks, rfl⟩

/-- **Which tags a field has.** Under each key the field has the value of the one source that holds, and
nothing if none does. Of the explicit tags none is lost but those of the name, and they keep their order;
a doc comment is all that is added to them. These are the tags of the derived field. -/
theorem tags_by_precedence (a : FieldAttributes) (name : String) (style : Option NamingStyle) :
    (∀ g : Field, g.tags = a.allTags name style →
        ∀ key v, g.tag key = v ↔ Holds a name style key v)
      ∧ (∃ added, (a.allTags name style).filter (·.1 ≠ "json")
          = a.tags.filter (·.1 ≠ "json") ++ added
        ∧ ∀ tag ∈ added, tag.1 = "description" ∧ a.tags.Lacks "description" ∧ a.doc = some tag.2)
      ∧ ∀ f : ItemField, ofAttributes f.attributes = .ok a → a.skip = false →
        plainIdentifier f.ident = name →
        ∃ g, f.field? style = .ok (some g) ∧ g.tags = a.allTags name style := by
  refine ⟨fun g hg key v => ?_, ⟨_, filter_allTags a name style, fun tag => mem_descriptionTag⟩, ?_⟩
  · rw [Field.tag, hg]
    exact last?_allTags_iff
  · rintro f ha hskip rfl
    exact ⟨_, ItemField.field?_eq ha hskip, rfl⟩

end Derive.FieldAttributes

/-! ## An example: a field that has been given many names -/

namespace Example

/-- Two explicit names, a place among the parameters, a name for the serializer, and a doc comment. -/
def namedOften : Derive.ItemField :=
  ⟨[.word "pub"], "user_id", .primitive .string,
    [⟨"doc", .value [.literal (.text " The owner.")]⟩,
      ⟨"describe", .list (assignment "json" "id" ++ .mark ',' false :: assignment "query" "owner")⟩,
      ⟨"serde", .list (assignment "rename" "userId")⟩,
      ⟨"describe", .list (assignment "json" "owner_id")⟩]⟩

/-- What its attributes say. -/
def namedOftenAttributes : Derive.FieldAttributes :=
  ⟨false, false, [("json", "id"), ("query", "owner"), ("json", "owner_id")], some "userId", false,
    some "The owner."⟩

end Example

namespace Derive.FieldAttributes

open Example

/-- The last explicit name holds, and the doc comment describes the field. -/
theorem tags_by_precedence_many_names : ∃ g, namedOften.field? (some .camel) = .ok (some g)
    ∧ g.tag "json" = some "owner_id" ∧ g.tag "query" = some "owner"
    ∧ g.tag "description" = some "The owner." ∧ g.tag "header" = Option.none := by
  obtain ⟨htag, _, hfield⟩ := tags_by_precedence namedOftenAttributes "user_id" (some .camel)
  obtain ⟨g, hg, htags⟩ := hfield namedOften (by rfl) rfl (by decide)
  refine ⟨g, hg, (htag g htags _ _).2 (.explicitName rfl ?_),
    (htag g htags _ _).2 (.explicit (by decide) (by decide) ?_),
    (htag g htags _ _).2 (.documented ?_),
    (htag g htags _ _).2 (.nothing (by decide) (by decide) ?_)⟩
  · exact ⟨[("json", "id"), ("query", "owner")], [], rfl, by decide⟩
  · exact ⟨[("json", "id")], [("json", "owner_id")], rfl, by decide⟩
  · exact Tags.lacks_iff.2 (by decide)
  · exact Tags.lacks_iff.2 (by decide)

end Derive.FieldAttributes

end ApiAtlas
