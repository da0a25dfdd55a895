import ApiAtlas.Proofs.DecimalNumerals
import ApiAtlas.Proofs.IntegerValues

/-!
# Typed attributes mean what their texts mean

An attribute is written as its text or as what the text denotes: a truth value, an integer of 64 bits or
a decimal with a point (`Denotes`). A text denotes one value at most: neither word is a numeral, and the
point keeps integers and decimals apart. Whether that value may be written is not up to the text. A
keyword may be one of those that are always texts, and an instance of the schema has to be of its type
(`Takes`).

The two together decide what is written, in both directions. A value that the text denotes and the keyword
takes is (`typedValue_of_denotes`), and where there is none the text is (`typedValue_of_not_takes`). So
`0123` is the integer 123 as a bound or in a schema of integers, and remains `0123` as the default of a
text.
-/

namespace ApiAtlas.Attributes

variable {a : Attributes} {key text : String} {v : Value} {schemaType : Option String}

/-! ## What a text denotes -/

/-- The text denotes this value, which is no text itself. -/
inductive Denotes : String → Value → Prop where
  | yes : Denotes "true" (.bool true)
  | no : Denotes "false" (.bool false)
  | integer {text : String} {i : Int} : IntegerNumeral text.toList i → Fits64 i →
      Denotes text (.int i)
  | decimal {text : String} {d : Decimal} {x : Binary64} : DecimalNumeral text.toList d →
      Binary64.ofDecimal? d = some x → Denotes text (.float x)

theorem plainValue_of_decimal {d : Decimal} {x : Binary64} (h : DecimalNumeral text.toList d)
    (hx : Binary64.ofDecimal? d = some x) : plainValue text = .float x := by
  have hpoint : '.' ∈ text.toList := h.decimalChars.1
  have htrue : text ≠ "true" := by
    rintro rfl
    exact absurd hpoint (by decide)
  have hfalse : text ≠ "false" := by
    rintro rfl
    exact absurd hpoint (by decide)
  have hint : int64? text = none := by
    rw [Option.eq_none_iff_forall_ne_some]
    intro i hi
    exact (int64?_eq_some_iff.1 hi).1.no_point hpoint
  have hread := decimalNumeral_iff.1 h
  rw [plainValue, if_neg htrue, if_neg hfalse, hint]
  simp only [looksDecimal_iff.2 hread.1, hread.2, if_true, Option.bind_some, hx]

/-- The value that a text denotes is written where nothing but the text matters. -/
theorem plainValue_of_denotes (h : Denotes text v) : plainValue text = v := by
  cases h with
  | yes => rfl
  | no => rfl
  | integer hnumeral hfits => rw [plainValue_of_numeral hnumeral, numeralValue, if_pos hfits]
  | decimal hnumeral hx => exact plainValue_of_decimal hnumeral hx

/-- A text denotes one value at most. -/
theorem Denotes.unique {w : Value} (hv : Denotes text v) (hw : Denotes text w) : v = w := by
  rw [← plainValue_of_denotes hv, plainValue_of_denotes hw]

/-- What is written is denoted by the text, or the text itself. -/
theorem denotes_plainValue (text : String) :
    Denotes text (plainValue text) ∨ plainValue text = .str text := by
  unfold plainValue
  split
  next htrue =>
    subst htrue
    exact .inl .yes
  next =>
    split
    next hfalse =>
      subst hfalse
      exact .inl .no
    next =>
      split
      next i hint =>
        obtain ⟨hnumeral, hfits⟩ := int64?_eq_some_iff.1 hint
        exact .inl (.integer hnumeral hfits)
      next =>
        split
        next hlooks =>
          split
          next x hx =>
            obtain ⟨d, hread, hx⟩ := Option.bind_eq_some_iff.1 hx
            exact .inl (.decimal (decimalNumeral_iff.2 ⟨looksDecimal_iff.1 hlooks, hread⟩) hx)
          next => exact .inr rfl
        next => exact .inr rfl

/-! ## What a keyword takes -/

/-- The value is no text, and an instance of a schema of this type. -/
inductive IsInstance : Option String → Value → Prop where
  | boolean (b : Bool) : IsInstance (some "boolean") (.bool b)
  | integer (i : Int) : IsInstance (some "integer") (.int i)
  | whole (i : Int) : IsInstance (some "number") (.int i)
  | number (x : Binary64) : IsInstance (some "number") (.float x)

/-- Only three types have instances that are no texts. -/
theorem IsInstance.type_eq (h : IsInstance schemaType v) :
    schemaType = some "boolean" ∨ schemaType = some "integer" ∨ schemaType = some "number" := by
  cases h with
  | boolean => exact .inl rfl
  | integer => exact .inr (.inl rfl)
  | whole | number => exact .inr (.inr rfl)

/-- The value may be written under this keyword, although it is no text. -/
def Takes (a : Attributes) (key : String) (v : Value) : Prop :=
  key ∉ textKeywords ∧ (key ∈ instanceKeywords → IsInstance (a.get? "type") v)

theorem typedAs_of_isInstance (h : IsInstance schemaType (plainValue text)) :
    typedAs schemaType text = plainValue text := by
  unfold typedAs
  generalize plainValue text = w at h
  cases h with
  | boolean b => exact if_pos rfl
  | integer i => exact if_pos (.inl rfl)
  | whole i => exact if_pos (.inr rfl)
  | number x => exact if_pos rfl

theorem typedAs_of_not_isInstance (h : ¬ IsInstance schemaType (plainValue text)) :
    typedAs schemaType text = .str text := by
  unfold typedAs
  generalize plainValue text = w at h
  cases w with
  | bool b =>
    refine if_neg fun htype => h ?_
    rw [htype]
    exact .boolean b
  | int i =>
    refine if_neg fun htype => h ?_
    rcases htype with htype | htype
    · rw [htype]
      exact .integer i
    · rw [htype]
      exact .whole i
  | float x =>
    refine if_neg fun htype => h ?_
    rw [htype]
    exact .number x
  | str s => rfl
  | seq items => rfl
  | map entries => rfl

/-- **A value that the text denotes and the keyword takes is written.** -/
theorem typedValue_of_denotes (hdenotes : Denotes text v) (htakes : a.Takes key v) :
    a.typedValue key text = v := by
  have hplain := plainValue_of_denotes hdenotes
  have htext : ¬ textKeywords.contains key = true := by simpa using htakes.1
  rw [typedValue, if_neg htext]
  by_cases hkey : instanceKeywords.contains key = true
  · have hinstance : IsInstance (a.get? "type") (plainValue text) := by
      rw [hplain]
      exact htakes.2 (by simpa using hkey)
    rw [if_pos hkey, typedAs_of_isInstance hinstance, hplain]
  · rw [if_neg hkey, hplain]

/-- **Where the keyword takes no value that the text denotes, the text is written.** -/
theorem typedValue_of_not_takes (h : ∀ w, Denotes text w → ¬ a.Takes key w) :
    a.typedValue key text = .str text := by
  rw [typedValue]
  by_cases htext : textKeywords.contains key = true
  · rw [if_pos htext]
  · have hkeyword : key ∉ textKeywords := by simpa using htext
    rw [if_neg htext]
    by_cases hkey : instanceKeywords.contains key = true
    · rw [if_pos hkey]
      by_cases hinstance : IsInstance (a.get? "type") (plainValue text)
      · rw [typedAs_of_isInstance hinstance]
        rcases denotes_plainValue text with hdenotes | hplain
        · exact absurd ⟨hkeyword, fun _ => hinstance⟩ (h _ hdenotes)
        · exact hplain
      · exact typedAs_of_not_isInstance hinstance
    · rw [if_neg hkey]
      rcases denotes_plainValue text with hdenotes | hplain
      · exact absurd ⟨hkeyword, fun hmem => absurd (by simpa using hmem) hkey⟩ (h _ hdenotes)
      · exact hplain

/-- The value of an attribute is the text, or denoted by the text. -/
theorem typedValue_cases (a : Attributes) (key text : String) :
    (Denotes text (a.typedValue key text) ∧ a.Takes key (a.typedValue key text))
      ∨ (a.typedValue key text = .str text ∧ ∀ w, Denotes text w → ¬ a.Takes key w) := by
  by_cases h : ∃ w, Denotes text w ∧ a.Takes key w
  · obtain ⟨w, hdenotes, htakes⟩ := h
    rw [typedValue_of_denotes hdenotes htakes]
    exact .inl ⟨hdenotes, htakes⟩
  · have hno : ∀ w, Denotes text w → ¬ a.Takes key w := fun w hdenotes htakes =>
      h ⟨w, hdenotes, htakes⟩
    exact .inr ⟨typedValue_of_not_takes hno, hno⟩

/-- **Typing an attribute does not change its meaning.** For every entry one value is written. It is what
the text denotes, provided that the keyword takes it, and the text itself otherwise: always so for the
keywords of texts, and for an instance of the schema unless it is of the schema's type. -/
theorem typing_keeps_meaning {a : Attributes} {key text : String} (hget : a.get? key = some text) :
    ∃ entries v, a.toValue = .map entries ∧ (∀ w, (key, w) ∈ entries ↔ w = v)
      ∧ ((Denotes text v ∧ a.Takes key v)
        ∨ (v = .str text ∧ ∀ w, Denotes text w → ¬ a.Takes key w))
      ∧ (∀ x, v = .float x → '.' ∈ text.toList ∧ ∀ c ∈ text.toList, IsDecimalChar c)
      ∧ (key ∈ ["type", "format", "pattern", "description", "title"] → v = .str text)
      ∧ (key = "default" ∨ key = "example" → v = .str text ∨ IsInstance (a.get? "type") v) := by
  have hcases := typedValue_cases a key text
  refine ⟨_, _, rfl, fun w => mem_toValue rfl hget, hcases, ?_, ?_, ?_⟩
  · intro x hx
    rcases hcases with ⟨hdenotes, _⟩ | ⟨htext, _⟩
    · rw [hx] at hdenotes
      cases hdenotes with
      | decimal hnumeral _ => exact hnumeral.decimalChars
    · rw [hx] at htext
      cases htext
  · intro hkey
    rcases hcases with ⟨_, htakes⟩ | ⟨htext, _⟩
    · exact absurd hkey htakes.1
    · exact htext
  · intro hkey
    rcases hcases with ⟨_, htakes⟩ | ⟨htext, _⟩
    · exact .inr (htakes.2 (by simpa [instanceKeywords] using hkey))
    · exact .inl htext

/-- A text of four digits at most, with a default. -/
def digitText : Attributes :=
  SortedMap.ofList [("type", "string"), ("default", "0123"), ("maxLength", "4")]

/-- The default remains the text that it is, the bound becomes a number. -/
theorem typing_keeps_meaning_digits : ∃ entries, digitText.toValue = .map entries
    ∧ ("default", .str "0123") ∈ entries ∧ ("maxLength", .int 4) ∈ entries := by
  obtain ⟨entries, v, hentries, hdefault, _, _, _, hinstance⟩ :=
    typing_keeps_meaning (show digitText.get? "default" = some "0123" by decide)
  obtain ⟨entries', w, hentries', hbound, hdenotes, _⟩ :=
    typing_keeps_meaning (show digitText.get? "maxLength" = some "4" by decide)
  rw [hentries] at hentries'
  cases hentries'
  have hv : v = .str "0123" := by
    have htype : digitText.get? "type" = some "string" := by decide
    rcases hinstance (.inl rfl) with htext | hno
    · exact htext
    · rw [htype] at hno
      exact absurd hno.type_eq (by decide)
  have hw : w = .int 4 := by
    have hfour : Denotes "4" (.int 4) := .integer (integer?_eq_some_iff.1 (by decide)) (by decide)
    rcases hdenotes with ⟨hdenotes, _⟩ | ⟨_, hno⟩
    · exact hdenotes.unique hfour
    · exact absurd ⟨by decide, fun hmem => absurd hmem (by decide)⟩ (hno _ hfour)
  exact ⟨entries, hentries, (hdefault _).2 hv.symm, (hbound _).2 hw.symm⟩

end ApiAtlas.Attributes
