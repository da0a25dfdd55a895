import ApiAtlas.Proofs.DerivedNames

/-!
# No style confuses two names

A canonical name is made of pieces that begin with a small letter, with single underscores between them.
All styles keep such names apart, for what a style has written can be read back (`restoreChars`): capital
letters become small ones again and hyphens underscores. The two styles that drop the underscores write a
capital letter where each of the pieces begins and nowhere else, so a capital letter shows that an
underscore stood before it.

The letters of a name are written one after the other, with a flag that says whether a piece begins. To
read them back is therefore a matter of what may follow under either flag (`Remainder`), and the induction
is on that.

A name that a style has written has a letter and no comma, hence the `json` tag of a derived field gives it
back unchanged: fields of different names have properties of different names.
-/

namespace ApiAtlas

namespace Derive

/-! ## Canonical names -/

/-- A small letter, and small letters and digits behind it. -/
def IsPiece : List Char → Prop
  | [] => False
  | c :: rest => c.isLower = true ∧ ∀ d ∈ rest, d.isLower = true ∨ d.isDigit = true

instance : DecidablePred IsPiece
  | [] => inferInstanceAs (Decidable False)
  -- of the letters only those of the piece are looked at
  | _ :: rest => @instDecidableAnd _ _ inferInstance (List.decidableBAll _ rest)

/-- One or more pieces, joined by single underscores. -/
def IsCanonical (name : String) : Prop :=
  ∃ pieces : List (List Char), pieces ≠ [] ∧ (∀ p ∈ pieces, IsPiece p)
    ∧ name.toList = ['_'].intercalate pieces

theorem IsPiece.no_underscore {p : List Char} (h : IsPiece p) : '_' ∉ p := by
  cases p with
  | nil => exact h.elim
  | cons c rest =>
    intro hmem
    rcases List.mem_cons.1 hmem with rfl | hrest
    · exact absurd h.1 (by decide)
    · exact absurd (h.2 _ hrest) (by decide)

/-- The pieces are what stands between the underscores. -/
theorem isCanonical_iff {name : String} :
    IsCanonical name ↔ ∀ p ∈ name.toList.splitOn '_', IsPiece p := by
  constructor
  · rintro ⟨pieces, hne, hpieces, hname⟩
    rw [hname, List.splitOn_intercalate _ (fun p hp => (hpieces p hp).no_underscore) hne]
    exact hpieces
  · intro h
    exact ⟨_, List.splitOn_ne_nil _ _, h, (List.intercalate_splitOn _).symm⟩

instance : DecidablePred IsCanonical := fun _ => decidable_of_iff _ isCanonical_iff.symm

example : IsCanonical "user_id2" ∧ ¬ IsCanonical "user__id" ∧ ¬ IsCanonical "_id" := by decide

/-- What may be left of a canonical name, where the flag says that a piece has to begin. -/
inductive Remainder : Bool → List Char → Prop where
  | done : Remainder false []
  | begins {c : Char} {rest : List Char} : c.isLower = true → Remainder false rest →
      Remainder true (c :: rest)
  | continues {c : Char} {rest : List Char} : c.isLower = true ∨ c.isDigit = true →
      Remainder false rest → Remainder false (c :: rest)
  | underscore {rest : List Char} : Remainder true rest → Remainder false ('_' :: rest)

variable {fresh : Bool} {cs rest : List Char} {c : Char}

theorem Remainder.append (h : ∀ d ∈ cs, d.isLower = true ∨ d.isDigit = true)
    (hrest : Remainder false rest) : Remainder false (cs ++ rest) := by
  induction cs with
  | nil => exact hrest
  | cons d cs ih =>
    have hcs : Remainder false (cs ++ rest) := ih fun e he => h e (List.mem_cons_of_mem _ he)
    exact .continues (h d List.mem_cons_self) hcs

theorem IsPiece.remainder {p : List Char} (h : IsPiece p) (hrest : Remainder false rest) :
    Remainder true (p ++ rest) := by
  cases p with
  | nil => exact h.elim
  | cons c others => exact .begins h.1 (.append h.2 hrest)

theorem remainder_of_pieces {pieces : List (List Char)} (hne : pieces ≠ [])
    (h : ∀ p ∈ pieces, IsPiece p) : Remainder true (['_'].intercalate pieces) := by
  induction pieces with
  | nil => exact absurd rfl hne
  | cons p later ih =>
    have hp := h p List.mem_cons_self
    cases later with
    | nil =>
      rw [List.intercalate_singleton, ← List.append_nil p]
      exact hp.remainder .done
    | cons q later =>
      have hlater := ih (List.cons_ne_nil _ _) fun r hr => h r (List.mem_cons_of_mem _ hr)
      rw [List.intercalate_cons_cons, List.append_assoc]
      exact hp.remainder (.underscore hlater)

/-- A canonical name as a whole is what may be left of one. -/
theorem IsCanonical.remainder {name : String} (h : IsCanonical name) :
    Remainder true name.toList := by
  obtain ⟨pieces, hne, hpieces, hname⟩ := h
  rw [hname]
  exact remainder_of_pieces hne hpieces

/-! ## The letters of a canonical name -/

/-- A small letter, a digit or an underscore. -/
def IsSnakeChar (c : Char) : Prop := c.isLower = true ∨ c.isDigit = true ∨ c = '_'

theorem Remainder.isSnakeChar (h : Remainder fresh cs) : ∀ c ∈ cs, IsSnakeChar c := by
  induction h with
  | done =>
    intro c hc
    cases hc
  | begins hfirst _ ih => exact List.forall_mem_cons.2 ⟨.inl hfirst, ih⟩
  | continues hnext _ ih => exact List.forall_mem_cons.2 ⟨hnext.imp_right .inl, ih⟩
  | underscore _ ih => exact List.forall_mem_cons.2 ⟨.inr (.inr rfl), ih⟩

namespace IsSnakeChar

theorem not_isUpper (h : IsSnakeChar c) : ¬ c.isUpper = true := by
  rcases or_assoc.2 h with hplain | rfl
  · exact Bool.eq_false_iff.1 (isUpper_of_plain hplain)
  · decide

theorem ne_hyphen (h : IsSnakeChar c) : c ≠ '-' := by
  rintro rfl
  exact absurd h (by unfold IsSnakeChar; decide)

theorem ne_comma (h : IsSnakeChar c) : c ≠ ',' := by
  rintro rfl
  exact absurd h (by unfold IsSnakeChar; decide)

end IsSnakeChar

theorem ne_underscore_of_isLower (h : c.isLower = true) : c ≠ '_' := by
  rintro rfl
  exact absurd h (by decide)

/-- A canonical name has a letter, namely its first one. -/
theorem IsCanonical.hasLetter {name : String} (h : IsCanonical name) : HasLetter name.toList := by
  have hname := h.remainder
  generalize name.toList = cs at hname ⊢
  cases hname with
  | begins hfirst _ =>
    have hsnake : IsSnakeChar _ := .inl hfirst
    exact ⟨_, List.mem_cons_self, ne_underscore_of_isLower hfirst, hsnake.ne_hyphen⟩

theorem IsCanonical.no_comma {name : String} (h : IsCanonical name) : ',' ∉ name.toList :=
  fun hmem => (h.remainder.isSnakeChar _ hmem).ne_comma rfl

/-! ## Reading back -/

namespace NamingStyle

/-- A capital letter as a small one with an underscore in front. -/
def separate (c : Char) : List Char := if c.isUpper then ['_', c.toLower] else [c]

/-- Write underscores for hyphens. -/
def underscored (cs : List Char) : List Char := cs.map fun c => if c = '-' then '_' else c

/-- The name that a style has written so. -/
def restoreChars (s : NamingStyle) (cs : List Char) : List Char :=
  match s with
  | .lower | .snake => cs
  | .upper | .screamingSnake => cs.map Char.toLower
  -- there was no underscore before the first letter
  | .pascal => (cs.flatMap separate).tail
  | .camel => cs.flatMap separate
  | .kebab => underscored cs
  | .screamingKebab => (underscored cs).map Char.toLower

theorem separate_of_isLower (h : c.isLower = true) : separate c.toUpper = ['_', c] := by
  have hsnake : IsSnakeChar c := .inl h
  rw [separate, if_pos (isUpper_toUpper h), toLower_toUpper hsnake.not_isUpper]

theorem separate_of_isSnakeChar (h : IsSnakeChar c) : separate c = [c] := by
  rw [separate, if_neg h.not_isUpper]

/-- **Capital letters show where the underscores were.** Where a piece begins, there is one more than
there was under the flag. -/
theorem separate_pascalFrom (h : Remainder fresh cs) :
    (pascalFrom fresh cs).flatMap separate = if fresh then '_' :: cs else cs := by
  induction h with
  | done => rfl
  | @begins c rest hfirst _ ih =>
    rw [pascalFrom, if_neg (ne_underscore_of_isLower hfirst), if_pos rfl, List.flatMap_cons, ih,
      separate_of_isLower hfirst]
    rfl
  | @continues c rest hnext _ ih =>
    have hsnake : IsSnakeChar c := hnext.imp_right .inl
    have hne : c ≠ '_' := by
      rintro rfl
      exact absurd hnext (by decide)
    rw [pascalFrom, if_neg hne, if_neg Bool.false_ne_true, List.flatMap_cons, ih,
      separate_of_isSnakeChar hsnake]
    rfl
  | underscore _ ih =>
    rw [pascalFrom, if_pos rfl, ih]
    rfl

/-- The first letter is written small, and it shows no underscore then. -/
theorem separate_lowerFirst (h : Remainder true cs) :
    (lowerFirst (pascalFrom true cs)).flatMap separate = cs := by
  cases h with
  | @begins c rest hfirst hrest =>
    have hsnake : IsSnakeChar c := .inl hfirst
    rw [pascalFrom, if_neg (ne_underscore_of_isLower hfirst), if_pos rfl, lowerFirst,
      toLower_toUpper hsnake.not_isUpper, List.flatMap_cons, separate_of_isSnakeChar hsnake,
      separate_pascalFrom hrest]
    rfl

theorem map_toLower_map_toUpper (h : ∀ c ∈ cs, IsSnakeChar c) :
    (cs.map Char.toUpper).map Char.toLower = cs := by
  have hsame : ∀ c ∈ cs, (Char.toLower ∘ Char.toUpper) c = id c := by
    intro c hc
    exact toLower_toUpper (h c hc).not_isUpper
  rw [List.map_map, List.map_congr_left hsame, List.map_id]

theorem underscored_hyphenate (h : '-' ∉ cs) : underscored (hyphenate cs) = cs := by
  unfold underscored hyphenate
  rw [List.map_map]
  refine (List.map_congr_left fun c hc => ?_).trans (List.map_id cs)
  by_cases hunder : c = '_'
  · simp [hunder]
  · have hhyphen : c ≠ '-' := fun he => h (he ▸ hc)
    simp [hunder, hhyphen]

/-- **What a style has written can be read back.** -/
theorem restoreChars_applyChars (s : NamingStyle) (h : Remainder true cs) :
    s.restoreChars (s.applyChars cs) = cs := by
  have hsnake := h.isSnakeChar
  have hhyphen : '-' ∉ cs := fun hmem => (hsnake _ hmem).ne_hyphen rfl
  cases s with
  | lower | snake => rfl
  | upper | screamingSnake => exact map_toLower_map_toUpper hsnake
  | pascal =>
    show ((pascalFrom true cs).flatMap separate).tail = cs
    rw [separate_pascalFrom h]
    rfl
  | camel => exact separate_lowerFirst h
  | kebab => exact underscored_hyphenate hhyphen
  | screamingKebab =>
    have hupper : '-' ∉ cs.map Char.toUpper := by
      intro hmem
      obtain ⟨c, hc, he⟩ := List.mem_map.1 hmem
      rw [eq_of_toUpper (by decide) he] at hc
      exact hhyphen hc
    show (underscored (hyphenate (cs.map Char.toUpper))).map Char.toLower = cs
    rw [underscored_hyphenate hupper, map_toLower_map_toUpper hsnake]

theorem apply_injective (s : NamingStyle) {a b : String} (ha : IsCanonical a) (hb : IsCanonical b)
    (h : s.apply a = s.apply b) : a = b := by
  have hchars : s.applyChars a.toList = s.applyChars b.toList := String.ofList_injective h
  refine String.toList_inj.1 ?_
  rw [← s.restoreChars_applyChars ha.remainder, hchars, s.restoreChars_applyChars hb.remainder]

end NamingStyle

/-! ## Derived fields -/

/-- The field has a canonical name, the serializer keeps it, and nothing else gives it a name. -/
structure ItemField.IsCanonical (f : ItemField) : Prop where
  identifier : Derive.IsCanonical (plainIdentifier f.ident)
  unnamed : ∃ a, FieldAttributes.ofAttributes f.attributes = .ok a ∧ a.skip = false ∧ a.TakesName
    ∧ a.serializedAs = none

/-- The field `g` is what is derived of `f`, and it has this name. -/
structure IsCalled (s : NamingStyle) (f : ItemField) (g : Field) (name : String) : Prop where
  derived : f.field? (some s) = .ok (some g)
  tag : g.tag "json" = some name
  propertyName : g.propertyName = some name

theorem IsCanonical.isPlain_apply {name : String} (h : Derive.IsCanonical name) (s : NamingStyle) :
    IsPlain (s.apply name) :=
  isPlain_styledName h.no_comma h.hasLetter (some s)

/-- A canonical name in some style goes through the `json` tag unchanged. -/
theorem exists_isCalled {f : ItemField} (h : f.IsCanonical) (s : NamingStyle) :
    ∃ g, IsCalled s f g (s.apply (plainIdentifier f.ident)) := by
  obtain ⟨a, ha, hskip, htakes, hrename⟩ := h.unnamed
  have hserialized : a.serializedName (plainIdentifier f.ident) (some s)
      = s.apply (plainIdentifier f.ident) := by
    rw [FieldAttributes.serializedName_eq, hrename, Option.getD_none]
    rfl
  refine ⟨f.fieldWith a (some s), ItemField.field?_eq ha hskip, ?_, ?_⟩
  · show (a.allTags (plainIdentifier f.ident) (some s)).last? "json" = _
    rw [htakes.last?_json, hserialized]
  · rw [propertyName_fieldWith htakes, hserialized]
    exact Field.nameOfTag_of_isPlain (h.identifier.isPlain_apply s)

/-- There is one field that is derived, so it has one name. -/
theorem IsCalled.propertyName_of_derived {s : NamingStyle} {f : ItemField} {g g' : Field}
    {name : String} (h : IsCalled s f g name) (hg' : f.field? (some s) = .ok (some g')) :
    g'.propertyName = some name := by
  have hsame := h.derived
  rw [hg'] at hsame
  cases hsame
  exact h.propertyName

/-- **No style loses a field.** It gives different names to canonical names that are different, and what
it gives can stand in a `json` tag. So the fields of a struct that have canonical names and no others are
called what the style makes of them, and two of them are called the same only if they are declared under
the same name. -/
theorem styles_lose_no_field (s : NamingStyle) :
    (∀ a b, IsCanonical a → IsCanonical b → s.apply a = s.apply b → a = b)
      ∧ (∀ a, IsCanonical a → s.apply a ≠ "" ∧ ',' ∉ (s.apply a).toList ∧ s.apply a ≠ "-")
      ∧ ∀ item d fs container, Item.derive item = .ok d → item.body = .struct fs →
        ItemAttributes.ofAttributes item.attributes = .ok container → container.naming = some s →
        ∃ fields, d.body = .struct fields
          ∧ (∀ f ∈ fs, f.IsCanonical →
            ∃ g ∈ fields, IsCalled s f g (s.apply (plainIdentifier f.ident)))
          ∧ ∀ f ∈ fs, ∀ f' ∈ fs, f.IsCanonical → f'.IsCanonical →
            plainIdentifier f.ident ≠ plainIdentifier f'.ident → ∀ g g',
            f.field? (some s) = .ok (some g) → f'.field? (some s) = .ok (some g') →
            g.propertyName ≠ g'.propertyName := by
  refine ⟨fun a b => s.apply_injective, fun a ha => ?_, ?_⟩
  · have hplain := ha.isPlain_apply s
    exact ⟨hplain.nonempty, hplain.no_comma, hplain.not_hyphen⟩
  · intro item d fs container hderive hfs hcontainer hstyle
    obtain ⟨container', fields, hcontainer', hfields, hbody⟩ := Item.derive_struct hderive hfs
    rw [hcontainer] at hcontainer'
    cases hcontainer'
    rw [hstyle] at hfields
    refine ⟨fields, hbody, ?_, ?_⟩
    · intro f hf hcanonical
      obtain ⟨g, hg⟩ := exists_isCalled hcanonical s
      exact ⟨g, mem_fieldsOf hfields hf hg.derived, hg⟩
    · intro f _ f' _ hcanonical hcanonical' hne g g' hg hg' hsame
      obtain ⟨h, hcalled⟩ := exists_isCalled hcanonical s
      obtain ⟨h', hcalled'⟩ := exists_isCalled hcanonical' s
      rw [hcalled.propertyName_of_derived hg, hcalled'.propertyName_of_derived hg'] at hsame
      have hnames := s.apply_injective hcanonical.identifier hcanonical'.identifier
        (Option.some.inj hsame)
      exact hne hnames

end Derive

/-! ## An example: names that differ in an underscore -/

namespace Example

/-- A public field for a text. -/
def bareField (ident : String) : Derive.ItemField :=
  ⟨[.word "pub"], ident, .primitive .string, []⟩

/-- A public struct with two fields, in camel case. -/
def owned : Derive.Item :=
  ⟨[.word "pub"], "Owned", [], [⟨"serde", .list (assignment "rename_all" "camelCase")⟩],
    .struct [bareField "user_id", bareField "userid"]⟩

/-- What is derived of one of the fields. -/
def ownedField (ident name : String) : Field :=
  ⟨some ident, true, false, [("json", name)], some (.primitive .string)⟩

end Example

namespace Derive

open Example

/-- A field without attributes is named by its identifier alone. -/
theorem isCanonical_bareField {ident : String} (h : IsCanonical (plainIdentifier ident)) :
    (bareField ident).IsCanonical where
  identifier := h
  unnamed := ⟨FieldAttributes.none, rfl, rfl,
    ⟨rfl, rfl, FieldAttributes.not_isPlaced_of_tags_eq_nil rfl⟩, rfl⟩

/-- In camel case the two differ in a capital letter. -/
theorem styles_lose_no_field_camel :
    (∃ g, IsCalled .camel (bareField "user_id") g "userId")
      ∧ (ownedField "user_id" "userId").propertyName
        ≠ (ownedField "userid" "userid").propertyName := by
  have hderive : owned.derive = .ok ⟨some "Owned", true, [],
      .struct [ownedField "user_id" "userId", ownedField "userid" "userid"]⟩ := by rfl
  obtain ⟨fields, _, hcalled, hapart⟩ := (styles_lose_no_field .camel).2.2 owned _ _
    ⟨none, false, some .camel⟩ hderive rfl (by rfl) rfl
  have hfirst : (bareField "user_id").IsCanonical := isCanonical_bareField (by decide)
  have hsecond : (bareField "userid").IsCanonical := isCanonical_bareField (by decide)
  obtain ⟨g, _, hg⟩ := hcalled _ List.mem_cons_self hfirst
  refine ⟨⟨g, hg⟩, ?_⟩
  exact hapart _ List.mem_cons_self _ (List.mem_cons_of_mem _ List.mem_cons_self) hfirst hsecond
    (by decide) _ _ (by rfl) (by rfl)

end Derive

end ApiAtlas
