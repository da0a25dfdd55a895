import Mathlib.Data.List.Induction
import Mathlib.Data.Nat.Digits.Defs
import ApiAtlas.Numeral
import ApiAtlas.Proofs.Letters

/-!
# Integer numerals

What an integer numeral is, and which integer it is for, is said here by the places of its digits and
not by a run over them (`placeValue`, `IntegerNumeral`). The reader of numerals is right about both:
it reads exactly these, as what they are for (`integer?_eq_some_iff`). An integer is written as a
numeral for itself (`integerNumeral_toString`), so to read what was written changes nothing.
-/

namespace ApiAtlas

open Numeral

variable {cs ds : List Char} {c : Char} {i j : Int}

/-! ## Digits and their places -/

/-- The number that decimal digits are for: the last digit counts once, the one before it ten times,
and so on. -/
def placeValue (ds : List Char) : Nat :=
  Nat.ofDigits 10 (ds.reverse.map fun c => c.toNat - '0'.toNat)

/-- There are digits and nothing else. -/
def IsDigits (ds : List Char) : Prop := ds ≠ [] ∧ ∀ c ∈ ds, c.isDigit = true

theorem digitValue_of_isDigit (h : c.isDigit = true) : digitValue c = c.toNat - '0'.toNat :=
  if_pos h

/-- In base ten a digit is a decimal digit; letters are worth more than nine. -/
theorem isDigitIn_ten : isDigitIn 10 c = true ↔ c.isDigit = true := by
  unfold isDigitIn
  cases hc : c.isDigit with
  | true =>
    have hcode : 48 ≤ c.toNat ∧ c.toNat ≤ 57 := isDigit_iff.1 hc
    have hlt : digitValue c < 10 := by
      have hzero : '0'.toNat = 48 := rfl
      rw [digitValue_of_isDigit hc, hzero]
      omega
    simp [hlt]
  | false =>
    have hlt : ¬ digitValue c < 10 := by
      rw [digitValue, hc]
      simp only [Bool.false_eq_true, if_false]
      omega
    simp [hlt]

theorem ofDigits_concat (cs : List Char) (c : Char) :
    Numeral.ofDigits 10 (cs ++ [c]) = Numeral.ofDigits 10 cs * 10 + digitValue c := by
  rw [Numeral.ofDigits, List.foldl_append]
  rfl

theorem placeValue_concat (cs : List Char) (c : Char) :
    placeValue (cs ++ [c]) = c.toNat - '0'.toNat + 10 * placeValue cs := by
  rw [placeValue, List.reverse_concat, List.map_cons, Nat.ofDigits_cons]
  rfl

/-- To multiply by ten and add at each digit comes to the same as to weigh each digit by its place. -/
theorem ofDigits_eq_placeValue (h : ∀ c ∈ ds, c.isDigit = true) :
    Numeral.ofDigits 10 ds = placeValue ds := by
  induction ds using List.reverseRecOn with
  | nil => rfl
  | append_singleton ds c ih =>
    have hc := h c (List.mem_append_right _ (List.mem_singleton_self c))
    have hds := ih fun d hd => h d (List.mem_append_left _ hd)
    rw [ofDigits_concat, placeValue_concat, hds, digitValue_of_isDigit hc]
    omega

theorem ofDigits?_ten {n : Nat} : ofDigits? 10 ds = some n ↔ IsDigits ds ∧ n = placeValue ds := by
  have hall : ds.all (isDigitIn 10) = true ↔ ∀ c ∈ ds, c.isDigit = true := by
    simp only [List.all_eq_true, isDigitIn_ten]
  unfold ofDigits? IsDigits
  constructor
  · intro h
    split at h
    next => cases h
    next hno =>
      simp only [Bool.or_eq_true, decide_eq_true_eq, Bool.not_eq_true', not_or,
        Bool.not_eq_false] at hno
      have hdigits := hall.1 hno.2
      exact ⟨⟨hno.1, hdigits⟩, by rw [← Option.some.inj h, ofDigits_eq_placeValue hdigits]⟩
  · rintro ⟨⟨hne, hdigits⟩, rfl⟩
    rw [if_neg, ofDigits_eq_placeValue hdigits]
    simp [hne, hall.2 hdigits]

/-! ## Numerals -/

/-- The text is a sign, if any, and then digits, and it is for this integer. -/
inductive IntegerNumeral : List Char → Int → Prop where
  | unsigned {ds : List Char} : IsDigits ds → IntegerNumeral ds (placeValue ds)
  | plus {ds : List Char} : IsDigits ds → IntegerNumeral ('+' :: ds) (placeValue ds)
  | minus {ds : List Char} : IsDigits ds → IntegerNumeral ('-' :: ds) (-(placeValue ds : Int))

/-- A sign is there or it is not, and what is left is what follows it. -/
theorem splitSign_cases {negative : Bool} (h : splitSign cs = (negative, ds)) :
    (negative = true ∧ cs = '-' :: ds) ∨ (negative = false ∧ (cs = '+' :: ds ∨ cs = ds)) := by
  unfold splitSign at h
  split at h
  next => cases h; exact .inl ⟨rfl, rfl⟩
  next => cases h; exact .inr ⟨rfl, .inl rfl⟩
  next => cases h; exact .inr ⟨rfl, .inr rfl⟩

theorem splitSign_of_head (h : ∀ c ∈ cs.head?, c ≠ '-' ∧ c ≠ '+') :
    splitSign cs = (false, cs) := by
  cases cs with
  | nil => rfl
  | cons c rest =>
    obtain ⟨hminus, hplus⟩ := h c rfl
    simp [splitSign, hminus, hplus]

theorem not_sign_of_isDigit (h : c.isDigit = true) : c ≠ '-' ∧ c ≠ '+' :=
  ⟨fun he => absurd (he ▸ h) (by decide), fun he => absurd (he ▸ h) (by decide)⟩

theorem splitSign_of_isDigits (h : IsDigits ds) : splitSign ds = (false, ds) :=
  splitSign_of_head fun c hc => not_sign_of_isDigit (h.2 c (List.mem_of_mem_head? hc))

theorem integer?_of_splitSign {negative : Bool} (h : splitSign cs = (negative, ds)) :
    integer? cs = some i ↔
      IsDigits ds ∧ i = if negative then -(placeValue ds : Int) else placeValue ds := by
  have hread : integer? cs
      = (ofDigits? 10 ds).map fun n : Nat => if negative then -(n : Int) else n := by
    rw [integer?, h]
    cases hread : ofDigits? 10 ds <;> simp [hread]
  rw [hread, Option.map_eq_some_iff]
  constructor
  · rintro ⟨n, hn, rfl⟩
    obtain ⟨hds, rfl⟩ := ofDigits?_ten.1 hn
    exact ⟨hds, rfl⟩
  · rintro ⟨hds, rfl⟩
    exact ⟨placeValue ds, ofDigits?_ten.2 ⟨hds, rfl⟩, rfl⟩

/-- **The reader reads integer numerals, as the integers that they are for, and nothing else.** -/
theorem integer?_eq_some_iff : integer? cs = some i ↔ IntegerNumeral cs i := by
  constructor
  · intro h
    cases hsign : splitSign cs with
    | mk negative ds =>
      obtain ⟨hds, rfl⟩ := (integer?_of_splitSign hsign).1 h
      rcases splitSign_cases hsign with ⟨rfl, rfl⟩ | ⟨rfl, rfl | rfl⟩
      · exact .minus hds
      · exact .plus hds
      · exact .unsigned hds
  · intro h
    cases h with
    | unsigned hds => exact (integer?_of_splitSign (splitSign_of_isDigits hds)).2 ⟨hds, rfl⟩
    | plus hds => exact (integer?_of_splitSign rfl).2 ⟨hds, rfl⟩
    | minus hds => exact (integer?_of_splitSign rfl).2 ⟨hds, rfl⟩

/-- A numeral is for one integer. -/
theorem IntegerNumeral.unique (hi : IntegerNumeral cs i) (hj : IntegerNumeral cs j) : i = j := by
  rw [← integer?_eq_some_iff] at hi hj
  rw [hi] at hj
  exact Option.some.inj hj

/-- There is no point in a numeral. -/
theorem IntegerNumeral.no_point (h : IntegerNumeral cs i) : '.' ∉ cs := by
  have hdigits : ∀ {ds : List Char}, IsDigits ds → '.' ∉ ds := fun hds hmem =>
    absurd (hds.2 '.' hmem) (by decide)
  cases h with
  | unsigned hds => exact hdigits hds
  | plus hds => exact List.not_mem_cons_of_ne_of_not_mem (by decide) (hdigits hds)
  | minus hds => exact List.not_mem_cons_of_ne_of_not_mem (by decide) (hdigits hds)

/-! ## How integers are written -/

theorem isDigits_toDigits (n : Nat) : IsDigits (Nat.toDigits 10 n) :=
  ⟨Nat.toDigits_ne_nil, fun _ hc => Nat.isDigit_of_mem_toDigits (by decide) (by decide) hc⟩

theorem placeValue_eq_ofDigitChars (ds : List Char) : placeValue ds = Nat.ofDigitChars 10 ds 0 := by
  induction ds using List.reverseRecOn with
  | nil => rfl
  | append_singleton ds c ih =>
    rw [placeValue_concat, ih, Nat.ofDigitChars_append, Nat.ofDigitChars_cons, Nat.ofDigitChars_nil]
    omega

theorem placeValue_toDigits (n : Nat) : placeValue (Nat.toDigits 10 n) = n := by
  rw [placeValue_eq_ofDigitChars, Nat.ofDigitChars_ten_toDigits]

/-- Numbers with one decimal text are one number. -/
theorem eq_of_toString_eq {m n : Nat} (h : toString m = toString n) : m = n := by
  have hdigits : Nat.toDigits 10 m = Nat.toDigits 10 n := by
    rw [← Nat.toList_repr, ← Nat.toList_repr, ← Nat.toString_eq_repr, h, Nat.toString_eq_repr]
  calc
    m = placeValue (Nat.toDigits 10 m) := (placeValue_toDigits m).symm
    _ = placeValue (Nat.toDigits 10 n) := by rw [hdigits]
    _ = n := placeValue_toDigits n

/-- **What is written for an integer is a numeral for it.** -/
theorem integerNumeral_toString (i : Int) : IntegerNumeral (toString i).toList i := by
  have hdigits (n : Nat) : IntegerNumeral (Nat.toDigits 10 n) n := by
    have h : IntegerNumeral _ _ := .unsigned (isDigits_toDigits n)
    rwa [placeValue_toDigits] at h
  cases i with
  | ofNat n =>
    have htext : (toString (Int.ofNat n)).toList = Nat.toDigits 10 n := Nat.toList_repr
    rw [htext]
    exact hdigits n
  | negSucc n =>
    have htext : (toString (Int.negSucc n)).toList = '-' :: Nat.toDigits 10 (n + 1) := by
      have hrepr : toString (Int.negSucc n) = "-" ++ (n + 1).repr := rfl
      rw [hrepr, String.toList_append, Nat.toList_repr]
      rfl
    have h : IntegerNumeral _ _ := .minus (isDigits_toDigits (n + 1))
    rw [placeValue_toDigits] at h
    rw [htext]
    exact h

end ApiAtlas
