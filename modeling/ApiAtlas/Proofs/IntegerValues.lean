import ApiAtlas.Attributes
import ApiAtlas.Proofs.IntegerNumerals
import ApiAtlas.Proofs.SortedMaps
import ApiAtlas.Value.Json
import ApiAtlas.Value.Yaml

/-!
# Integers among the attributes

A text that is an integer numeral is written as a number where its keyword allows for numbers, provided
that the integer fits 64 bits. Beyond them it remains a text: the reader of integers refuses it, and the
reader of decimals is not asked, since there is no point in it. Bounds and defaults of the wider integer
types are affected, the greatest value of an unsigned type of 64 bits to begin with.
-/

namespace ApiAtlas.Attributes

variable {a : Attributes} {key text : String} {i : Int}

/-- The integers that are written as such. -/
def Fits64 (i : Int) : Prop := -2 ^ 63 ≤ i ∧ i < 2 ^ 63

instance : DecidablePred Fits64 := fun i => inferInstanceAs (Decidable (-2 ^ 63 ≤ i ∧ i < 2 ^ 63))

theorem int64?_eq_some_iff : int64? text = some i ↔ IntegerNumeral text.toList i ∧ Fits64 i := by
  have hbound : ((Nat.pow 2 63 : Nat) : Int) = 2 ^ 63 := rfl
  rw [int64?, Option.filter_eq_some_iff, integer?_eq_some_iff, decide_eq_true_iff, hbound, Fits64]

/-- What an integer numeral is written as where numbers may stand. -/
def numeralValue (i : Int) (text : String) : Value := if Fits64 i then .int i else .str text

theorem plainValue_of_numeral (h : IntegerNumeral text.toList i) :
    plainValue text = numeralValue i text := by
  have hword : ∀ word : String, Numeral.integer? word.toList = none → text ≠ word := by
    rintro word hnone rfl
    rw [integer?_eq_some_iff.2 h] at hnone
    cases hnone
  have htrue : text ≠ "true" := hword _ (by decide)
  have hfalse : text ≠ "false" := hword _ (by decide)
  rw [plainValue, if_neg htrue, if_neg hfalse, numeralValue]
  by_cases hfits : Fits64 i
  · rw [int64?_eq_some_iff.2 ⟨h, hfits⟩, if_pos hfits]
  · have hint : int64? text = none := by
      rw [Option.eq_none_iff_forall_ne_some]
      intro j hj
      obtain ⟨hnumeral, hj⟩ := int64?_eq_some_iff.1 hj
      exact hfits (h.unique hnumeral ▸ hj)
    have hdecimal : looksDecimal text = false := by
      have hpoint : text.toList.contains '.' = false := by simpa using h.no_point
      rw [looksDecimal, hpoint, Bool.false_and]
    rw [hint, if_neg hfits]
    simp only [hdecimal, Bool.false_eq_true, if_false]

/-- Where numbers may stand, they do, be it by the keyword alone or by the type of the schema. -/
theorem typedValue_of_numeral (h : IntegerNumeral text.toList i)
    (hkey : key ∉ ["type", "format", "pattern", "description", "title"])
    (htype : key = "default" ∨ key = "example" →
      a.get? "type" = some "integer" ∨ a.get? "type" = some "number") :
    a.typedValue key text = numeralValue i text := by
  have htext : textKeywords.contains key = false := by simpa [textKeywords] using hkey
  rw [typedValue, htext, if_neg Bool.false_ne_true]
  cases hinstance : instanceKeywords.contains key with
  | false => rw [if_neg Bool.false_ne_true, plainValue_of_numeral h]
  | true =>
    have hnumber := htype (by simpa [instanceKeywords] using hinstance)
    rw [if_pos rfl, typedAs, plainValue_of_numeral h, numeralValue]
    by_cases hfits : Fits64 i
    · rw [if_pos hfits]
      exact if_pos hnumber
    · rw [if_neg hfits]

/-- What is written is what is there. -/
theorem mem_entries : (key, text) ∈ a.entries ↔ a.get? key = some text := by
  have hrest : (key, text) ∈ a.toList.filter (·.1 != "type")
      ↔ key ≠ "type" ∧ a.get? key = some text := by
    rw [List.mem_filter, ← SortedMap.get?_eq_some, bne_iff_ne, and_comm]
  rw [entries, List.mem_append, hrest]
  by_cases hkey : key = "type"
  · subst hkey
    cases a.get? "type" with
    | none => simp
    | some t => simp [eq_comm]
  · cases a.get? "type" with
    | none => simp [hkey]
    | some t => simp [hkey]

/-- The values that are written for a keyword are the one for its text. -/
theorem mem_toValue {entries : List (String × Value)} {v : Value} (h : a.toValue = .map entries)
    (hget : a.get? key = some text) : (key, v) ∈ entries ↔ v = a.typedValue key text := by
  cases h
  rw [List.mem_map]
  constructor
  · rintro ⟨⟨key', text'⟩, hmem, he⟩
    cases he
    rw [mem_entries, hget] at hmem
    rw [Option.some.inj hmem]
  · rintro rfl
    exact ⟨(key, text), mem_entries.2 hget, rfl⟩

/-- An integer in a document is written as a numeral for it, be the document JSON or YAML. -/
theorem integerNumeral_of_value (i : Int) :
    (∀ layout depth, IntegerNumeral (Json.text layout depth (.int i)).toList i)
      ∧ ∀ indent, IntegerNumeral (Yaml.inline indent (.int i)).toList i := by
  constructor
  · intro layout depth
    rw [Json.text]
    exact integerNumeral_toString i
  · intro indent
    rw [Yaml.inline]
    exact integerNumeral_toString i

/-- **Integers are written as numbers if they fit 64 bits, and otherwise they remain texts.** The keyword
is one that takes numbers: none of those that are always texts, and if its value is an instance of the
schema, the schema is one of numbers. -/
theorem integers_written_as_numbers_within_64_bits {a : Attributes} {key text : String} {i : Int}
    (hget : a.get? key = some text) (hnumeral : IntegerNumeral text.toList i)
    (hkey : key ∉ ["type", "format", "pattern", "description", "title"])
    (htype : key = "default" ∨ key = "example" →
      a.get? "type" = some "integer" ∨ a.get? "type" = some "number") :
    ∃ entries, a.toValue = .map entries
      ∧ (∀ v, (key, v) ∈ entries ↔
        v = if -2 ^ 63 ≤ i ∧ i < 2 ^ 63 then .int i else .str text)
      ∧ (∀ layout depth, IntegerNumeral (Json.text layout depth (.int i)).toList i)
      ∧ ∀ indent, IntegerNumeral (Yaml.inline indent (.int i)).toList i := by
  refine ⟨_, rfl, fun v => ?_, integerNumeral_of_value i⟩
  rw [mem_toValue rfl hget, typedValue_of_numeral hnumeral hkey htype]
  rfl

/-- What both a signed and an unsigned number of 64 bits may be at most. -/
def bounds64 : Attributes := SortedMap.ofList [("type", "integer"),
  ("minimum", "-9223372036854775808"), ("maximum", "18446744073709551615")]

theorem bounds64_minimum : bounds64.get? "minimum" = some "-9223372036854775808"
    ∧ IntegerNumeral "-9223372036854775808".toList (-9223372036854775808) :=
  ⟨by decide, integer?_eq_some_iff.1 (by decide)⟩

theorem bounds64_maximum : bounds64.get? "maximum" = some "18446744073709551615"
    ∧ IntegerNumeral "18446744073709551615".toList 18446744073709551615 :=
  ⟨by decide, integer?_eq_some_iff.1 (by decide)⟩

/-- The least signed number of 64 bits is written as a number, the greatest unsigned one is not. -/
theorem integers_written_as_numbers_within_64_bits_bounds :
    ∃ entries, bounds64.toValue = .map entries
      ∧ ("minimum", .int (-9223372036854775808)) ∈ entries
      ∧ ("maximum", .str "18446744073709551615") ∈ entries := by
  obtain ⟨entries, hentries, hminimum, _⟩ := integers_written_as_numbers_within_64_bits
    bounds64_minimum.1 bounds64_minimum.2 (by decide) (by decide)
  obtain ⟨entries', hentries', hmaximum, _⟩ := integers_written_as_numbers_within_64_bits
    bounds64_maximum.1 bounds64_maximum.2 (by decide) (by decide)
  rw [hentries] at hentries'
  cases hentries'
  exact ⟨entries, hentries, (hminimum _).2 rfl, (hmaximum _).2 rfl⟩

/-- Not every integer is written as a number where its keyword takes numbers. -/
theorem greatest_unsigned_is_no_number :
    ¬ ∀ (a : Attributes) (key text : String) (i : Int), a.get? key = some text →
      IntegerNumeral text.toList i →
      key ∉ ["type", "format", "pattern", "description", "title"] →
      (key = "default" ∨ key = "example" →
        a.get? "type" = some "integer" ∨ a.get? "type" = some "number") →
      ∀ entries v, a.toValue = .map entries → (key, v) ∈ entries →
        v = .int i ∨ ∃ x, v = .float x := by
  intro h
  obtain ⟨hget, hnumeral⟩ := bounds64_maximum
  have hvalue : bounds64.typedValue "maximum" "18446744073709551615"
      = .str "18446744073709551615" := by
    rw [typedValue_of_numeral hnumeral (by decide) (by decide)]
    rfl
  have hmem := (mem_toValue rfl hget).2 hvalue.symm
  rcases h _ _ _ _ hget hnumeral (by decide) (by decide) _ _ rfl hmem with hint | ⟨x, hfloat⟩
  · cases hint
  · cases hfloat

end ApiAtlas.Attributes
