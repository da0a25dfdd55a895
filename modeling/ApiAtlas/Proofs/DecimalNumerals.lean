import Mathlib.Data.List.TakeWhile
import ApiAtlas.Attributes
import ApiAtlas.Proofs.IntegerNumerals

/-!
# Decimal numerals

A decimal numeral has a point among or around its digits, and nothing else but a sign. As for integers,
the places of the digits say which number it is for (`DecimalNumeral`). The reader of decimals knows more
than these, an exponent above all; but a text that has a point, and no characters but digits, points and
signs, leaves it no choice, and of such texts it reads the decimal numerals only
(`decimalNumeral_iff`).
-/

namespace ApiAtlas

open Numeral Attributes

variable {cs ds whole fraction : List Char} {c : Char} {d : Decimal} {negative : Bool}

/-- The text is digits with one point among or around them: all digits together are for `n`, and the
last one of them has the place of `10 ^ e`. -/
def PointedDigits (cs : List Char) (n : Nat) (e : Int) : Prop :=
  ∃ whole fraction, cs = whole ++ '.' :: fraction ∧ IsDigits (whole ++ fraction)
    ∧ n = placeValue (whole ++ fraction) ∧ e = -fraction.length

/-- The text is a sign, if any, and then digits with a point, and it is for this decimal. -/
inductive DecimalNumeral : List Char → Decimal → Prop where
  | unsigned {ds : List Char} {n : Nat} {e : Int} : PointedDigits ds n e →
      DecimalNumeral ds ⟨false, n, e⟩
  | plus {ds : List Char} {n : Nat} {e : Int} : PointedDigits ds n e →
      DecimalNumeral ('+' :: ds) ⟨false, n, e⟩
  | minus {ds : List Char} {n : Nat} {e : Int} : PointedDigits ds n e →
      DecimalNumeral ('-' :: ds) ⟨true, n, e⟩

/-! ## What a decimal numeral looks like -/

/-- A digit, a point or a sign. -/
def IsDecimalChar (c : Char) : Prop := c.isDigit = true ∨ c = '.' ∨ c = '-' ∨ c = '+'

theorem looksDecimal_iff {text : String} :
    looksDecimal text = true ↔ '.' ∈ text.toList ∧ ∀ c ∈ text.toList, IsDecimalChar c := by
  simp [looksDecimal, IsDecimalChar, or_assoc]

theorem PointedDigits.decimalChars {n : Nat} {e : Int} (h : PointedDigits cs n e) :
    '.' ∈ cs ∧ ∀ c ∈ cs, IsDecimalChar c := by
  obtain ⟨whole, fraction, rfl, hdigits, _, _⟩ := h
  refine ⟨List.mem_append_right _ List.mem_cons_self, fun c hc => ?_⟩
  rcases List.mem_append.1 hc with hwhole | htail
  · exact .inl (hdigits.2 c (List.mem_append_left _ hwhole))
  · rcases List.mem_cons.1 htail with rfl | hfraction
    · exact .inr (.inl rfl)
    · exact .inl (hdigits.2 c (List.mem_append_right _ hfraction))

theorem DecimalNumeral.decimalChars (h : DecimalNumeral cs d) :
    '.' ∈ cs ∧ ∀ c ∈ cs, IsDecimalChar c := by
  have hsign : ∀ {sign : Char} {ds : List Char}, IsDecimalChar sign →
      ('.' ∈ ds ∧ ∀ c ∈ ds, IsDecimalChar c) →
      '.' ∈ sign :: ds ∧ ∀ c ∈ sign :: ds, IsDecimalChar c := fun hsign hds =>
    ⟨List.mem_cons_of_mem _ hds.1, List.forall_mem_cons.2 ⟨hsign, hds.2⟩⟩
  cases h with
  | unsigned hds => exact hds.decimalChars
  | plus hds => exact hsign (.inr (.inr (.inr rfl))) hds.decimalChars
  | minus hds => exact hsign (.inr (.inr (.inl rfl))) hds.decimalChars

/-! ## The reader -/

/-- What is read of a text that goes on with a point after its first digits. -/
theorem ofChars?_of_point {rest : List Char} (hsign : splitSign cs = (negative, whole ++ '.' :: rest))
    (hwhole : ∀ c ∈ whole, c.isDigit = true) :
    Decimal.ofChars? cs
      = if whole = [] ∧ rest.takeWhile Char.isDigit = [] then none
        else (Decimal.exponent? (rest.dropWhile Char.isDigit)).map fun e =>
          ⟨negative, Numeral.ofDigits 10 (whole ++ rest.takeWhile Char.isDigit),
            e - (rest.takeWhile Char.isDigit).length⟩ := by
  have htake : (whole ++ '.' :: rest).takeWhile Char.isDigit = whole := by
    rw [List.takeWhile_append_of_pos hwhole]
    simp
  have hdrop : (whole ++ '.' :: rest).dropWhile Char.isDigit = '.' :: rest := by
    rw [List.dropWhile_append_of_pos hwhole]
    simp
  rw [Decimal.ofChars?, hsign]
  simp only [htake, hdrop]

/-- What is read of a text that does not go on with a point. -/
theorem ofChars?_of_no_point {rest : List Char} (hsign : splitSign cs = (negative, whole ++ c :: rest))
    (hwhole : ∀ c ∈ whole, c.isDigit = true) (hc : c = '-' ∨ c = '+') :
    Decimal.ofChars? cs = none := by
  have hdigit : ¬ c.isDigit = true := by rcases hc with rfl | rfl <;> decide
  have hexponent : Decimal.exponent? (c :: rest) = none := by
    rcases hc with rfl | rfl <;> rfl
  have htake : (whole ++ c :: rest).takeWhile Char.isDigit = whole := by
    rw [List.takeWhile_append_of_pos hwhole, List.takeWhile_cons_of_neg hdigit, List.append_nil]
  have hdrop : (whole ++ c :: rest).dropWhile Char.isDigit = c :: rest := by
    rw [List.dropWhile_append_of_pos hwhole, List.dropWhile_cons_of_neg hdigit]
  rw [Decimal.ofChars?, hsign]
  rcases hc with rfl | rfl
  · simp [htake, hdrop, hexponent]
  · simp [htake, hdrop, hexponent]

/-- An exponent begins with a letter, so there is none among digits, points and signs. -/
theorem exponent?_of_decimalChars (h : ∀ c ∈ cs, IsDecimalChar c) {e : Int}
    (he : Decimal.exponent? cs = some e) : cs = [] ∧ e = 0 := by
  cases cs with
  | nil => exact ⟨rfl, (Option.some.inj he).symm⟩
  | cons c rest =>
    have hletter : c = 'e' ∨ c = 'E' := by
      by_contra hno
      rw [Decimal.exponent?, if_neg hno] at he
      cases he
    have hc := h c List.mem_cons_self
    rcases hletter with rfl | rfl
    · exact absurd hc (by unfold IsDecimalChar; decide)
    · exact absurd hc (by unfold IsDecimalChar; decide)

/-- The first character behind the digits is a point or a sign. -/
theorem exists_split (h : ∀ c ∈ cs, IsDecimalChar c) (hpoint : '.' ∈ cs) :
    ∃ whole c rest, cs = whole ++ c :: rest ∧ (∀ x ∈ whole, x.isDigit = true)
      ∧ (c = '.' ∨ c = '-' ∨ c = '+') := by
  have hwhole : ∀ x ∈ cs.takeWhile Char.isDigit, x.isDigit = true := fun x hx =>
    List.mem_takeWhile_imp hx
  have hsplit : cs.takeWhile Char.isDigit ++ cs.dropWhile Char.isDigit = cs :=
    List.takeWhile_append_dropWhile
  cases hrest : cs.dropWhile Char.isDigit with
  | nil =>
    rw [hrest, List.append_nil] at hsplit
    rw [← hsplit] at hpoint
    exact absurd (hwhole _ hpoint) (by decide)
  | cons c rest =>
    have hhead : c.isDigit = false := by
      have hno := List.head_dropWhile_not Char.isDigit (l := cs) (by simp [hrest])
      simpa [hrest] using hno
    rw [hrest] at hsplit
    refine ⟨_, c, rest, hsplit.symm, hwhole, ?_⟩
    have hc := h c (by rw [← hsplit]; simp)
    rcases hc with hdigit | hothers
    · rw [hhead] at hdigit
      cases hdigit
    · exact hothers

/-- Behind the sign the reader reads digits with a point. -/
theorem ofChars?_of_splitSign (hsign : splitSign cs = (negative, ds))
    (hchars : ∀ c ∈ ds, IsDecimalChar c) (hpoint : '.' ∈ ds) :
    Decimal.ofChars? cs = some d ↔ ∃ n e, PointedDigits ds n e ∧ d = ⟨negative, n, e⟩ := by
  constructor
  · intro hread
    obtain ⟨whole, c, rest, rfl, hwhole, hc⟩ := exists_split hchars hpoint
    rcases hc with rfl | hc
    · rw [ofChars?_of_point hsign hwhole] at hread
      split at hread
      next => cases hread
      next hsome =>
        obtain ⟨e, he, rfl⟩ := Option.map_eq_some_iff.1 hread
        have hrest : ∀ c ∈ rest.dropWhile Char.isDigit, IsDecimalChar c := fun c hc =>
          hchars c (by simp [List.dropWhile_subset _ hc])
        obtain ⟨hnil, rfl⟩ := exponent?_of_decimalChars hrest he
        have hfraction : rest.takeWhile Char.isDigit = rest := by
          have hsplit := List.takeWhile_append_dropWhile (p := Char.isDigit) (l := rest)
          rwa [hnil, List.append_nil] at hsplit
        have hdigits : IsDigits (whole ++ rest) := by
          refine ⟨fun h => hsome ?_, fun c hc => ?_⟩
          · rw [hfraction]
            exact List.append_eq_nil_iff.1 h
          · rcases List.mem_append.1 hc with hc | hc
            · exact hwhole c hc
            · exact List.takeWhile_eq_self_iff.1 hfraction c hc
        refine ⟨_, _, ⟨whole, rest, rfl, hdigits, rfl, rfl⟩, ?_⟩
        rw [hfraction, ofDigits_eq_placeValue hdigits.2, Int.zero_sub]
    · rw [ofChars?_of_no_point hsign hwhole hc] at hread
      cases hread
  · rintro ⟨n, e, ⟨whole, fraction, rfl, hdigits, rfl, rfl⟩, rfl⟩
    have hwhole : ∀ c ∈ whole, c.isDigit = true := fun c hc =>
      hdigits.2 c (List.mem_append_left _ hc)
    have hfraction : ∀ c ∈ fraction, c.isDigit = true := fun c hc =>
      hdigits.2 c (List.mem_append_right _ hc)
    have hsome : ¬ (whole = [] ∧ fraction = []) := fun h =>
      hdigits.1 (List.append_eq_nil_iff.2 h)
    rw [ofChars?_of_point hsign hwhole, List.takeWhile_eq_self_iff.2 hfraction,
      List.dropWhile_eq_nil_iff.2 hfraction, if_neg hsome, ofDigits_eq_placeValue hdigits.2]
    simp [Decimal.exponent?]

theorem splitSign_of_pointedDigits {n : Nat} {e : Int} (h : PointedDigits cs n e) :
    splitSign cs = (false, cs) := by
  obtain ⟨whole, fraction, rfl, hdigits, _, _⟩ := h
  cases whole with
  | nil => rfl
  | cons c whole =>
    refine splitSign_of_head fun first hfirst => ?_
    rw [← Option.some.inj hfirst]
    exact not_sign_of_isDigit (hdigits.2 c List.mem_cons_self)

/-- **Of the texts that have a point, and no characters but digits, points and signs, the reader reads
the decimal numerals, as the decimals that they are for, and nothing else.** -/
theorem decimalNumeral_iff : DecimalNumeral cs d
    ↔ ('.' ∈ cs ∧ ∀ c ∈ cs, IsDecimalChar c) ∧ Decimal.ofChars? cs = some d := by
  have hread : ∀ {negative : Bool} {ds : List Char} {n : Nat} {e : Int},
      splitSign cs = (negative, ds) → PointedDigits ds n e →
      Decimal.ofChars? cs = some ⟨negative, n, e⟩ := fun hsign hds =>
    (ofChars?_of_splitSign hsign hds.decimalChars.2 hds.decimalChars.1).2 ⟨_, _, hds, rfl⟩
  constructor
  · intro h
    refine ⟨h.decimalChars, ?_⟩
    cases h with
    | unsigned hds => exact hread (splitSign_of_pointedDigits hds) hds
    | plus hds => exact hread rfl hds
    | minus hds => exact hread rfl hds
  · rintro ⟨⟨hpoint, hchars⟩, h⟩
    cases hsign : splitSign cs with
    | mk negative ds =>
      have htail : ∀ {sign : Char}, cs = sign :: ds → sign ≠ '.' →
          ∃ n e, PointedDigits ds n e ∧ d = ⟨negative, n, e⟩ := by
        rintro sign rfl hne
        refine (ofChars?_of_splitSign hsign (fun c hc => hchars c (List.mem_cons_of_mem _ hc)) ?_).1 h
        exact (List.mem_cons.1 hpoint).resolve_left fun he => hne he.symm
      rcases splitSign_cases hsign with ⟨rfl, rfl⟩ | ⟨rfl, rfl | rfl⟩
      · obtain ⟨n, e, hds, rfl⟩ := htail rfl (by decide)
        exact .minus hds
      · obtain ⟨n, e, hds, rfl⟩ := htail rfl (by decide)
        exact .plus hds
      · obtain ⟨n, e, hds, rfl⟩ := (ofChars?_of_splitSign hsign hchars hpoint).1 h
        exact .unsigned hds

end ApiAtlas
