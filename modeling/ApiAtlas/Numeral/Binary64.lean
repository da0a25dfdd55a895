import ApiAtlas.Numeral

/-!
# Finite binary64 numbers

The finite values of the 64-bit binary floating-point format, held as a sign, a significand and an
exponent of two, with the two conversions a document needs: rounding a decimal numeral to the
nearest value, and writing a value with the fewest digits that round back to it. Both work on exact
natural numbers.
-/

namespace ApiAtlas

/-- The number `± significand * 2 ^ exponent`, with `-1074 ≤ exponent ≤ 971` and
`significand < 2 ^ 53`; the significand is at least `2 ^ 52` unless the exponent is the least. -/
structure Binary64 where
  negative : Bool
  significand : Nat
  exponent : Int
deriving DecidableEq

namespace Binary64

/-- A positive fraction times `base ^ e`, again as numerator and denominator. -/
def scale (base : Nat) (e : Int) (num den : Nat) : Nat × Nat :=
  if 0 ≤ e then (num * Nat.pow base e.toNat, den) else (num, den * Nat.pow base (-e).toNat)

/-- The quotient to the nearest integer, a half to the even one. -/
def roundDiv (num den : Nat) : Nat :=
  let q := num / den
  let twice := 2 * (num % den)
  if twice < den then q else if den < twice then q + 1 else q + q % 2

/-! ## Rounding -/

/-- The value nearest to `num / den`, none if that is beyond the greatest finite one. -/
def ofRatio? (negative : Bool) (num den : Nat) : Option Binary64 :=
  let estimate : Int := (Nat.log2 num : Int) - Nat.log2 den - 53
  let quotient (e : Int) : Nat × Nat := scale 2 (-e) num den
  let (n, d) := quotient estimate
  let exponent := max (-1074) (if n < d * Nat.pow 2 53 then estimate else estimate + 1)
  let (n, d) := quotient exponent
  let significand := roundDiv n d
  if num = 0 then some ⟨negative, 0, -1074⟩
  else if significand = Nat.pow 2 53 then
    if exponent < 971 then some ⟨negative, Nat.pow 2 52, exponent + 1⟩ else none
  else if exponent ≤ 971 then some ⟨negative, significand, exponent⟩
  else none

/-- The value nearest to a decimal, none if that is beyond the greatest finite one. Magnitudes far
outside the format are answered by their size alone, so a huge exponent costs nothing. -/
def ofDecimal? (x : Decimal) : Option Binary64 :=
  let magnitude : Int := (Nat.toDigits 10 x.coefficient).length + x.exponent
  if x.coefficient = 0 ∨ magnitude < -400 then some ⟨x.negative, 0, -1074⟩
  else if 400 < magnitude then none
  else
    let (num, den) := scale 10 x.exponent x.coefficient 1
    ofRatio? x.negative num den

/-! ## Shortest digits -/

/-- A positive decimal as its digits and the place of the point: `0.d₁d₂… * 10 ^ point`. -/
structure Digits where
  digits : List Char
  point : Int
deriving DecidableEq

/-- The digits of `n * 10 ^ e` without zeros at their end. -/
def Digits.ofNat (n : Nat) (e : Int) : Digits :=
  let all := Nat.toDigits 10 n
  ⟨(all.reverse.dropWhile (· == '0')).reverse, all.length + e⟩

/-- Whether the decimal `n * 10 ^ e` rounds to `x`: it lies between the halfway points to the two
neighbours, which themselves belong to an even significand. All is measured in quarters of the last
place of `x`, since the gap below a power of two is half as wide. -/
def roundsFrom (x : Binary64) (n : Nat) (e : Int) : Bool :=
  let (num, den) := scale 10 e n 1
  let (num, den) := scale 2 (2 - x.exponent) num den
  let low := if x.significand = Nat.pow 2 52 ∧ -1074 < x.exponent then 4 * x.significand - 1
    else 4 * x.significand - 2
  let high := 4 * x.significand + 2
  if x.significand % 2 = 0 then low * den ≤ num && num ≤ high * den
  else low * den < num && num < high * den

/-- The point's place for the magnitude of `x`: the least `k` with `x < 10 ^ k`. -/
def point (x : Binary64) : Int :=
  let (num, den) := scale 2 x.exponent (x.significand * Nat.pow 10 330) 1
  ((Nat.toDigits 10 (num / den)).length : Int) - 330

/-- The decimal with `count` digits that rounds to `x` and is nearest to it, if there is one; of two
equally near ones the even one. -/
def nearest? (x : Binary64) (count : Nat) : Option Digits :=
  let e := x.point - count
  let (num, den) := scale 2 x.exponent x.significand 1
  let (num, den) := scale 10 (-e) num den
  let below := num / den
  let near := roundDiv num den
  let far := if near = below then below + 1 else below
  if x.roundsFrom near e then some (.ofNat near e)
  else if x.roundsFrom far e then some (.ofNat far e)
  else none

/-- The fewest digits that round to `x`; seventeen always do. -/
def shortest (x : Binary64) : Digits :=
  let counts := List.range' 1 17
  (counts.findSome? x.nearest?).getD (.ofNat x.significand 0)

/-! ## Text -/

/-- What two formats write differently: the sign of a positive exponent. -/
structure Style where
  positiveExponent : String

/-- Write digits with the point inside or beside them where that is short, and with an exponent
otherwise. -/
def Digits.text (style : Style) (d : Digits) : String :=
  let n : Int := d.digits.length
  let k := d.point
  let zeros (count : Int) : List Char := List.replicate count.toNat '0'
  if -5 < k ∧ k ≤ 0 then
    String.ofList ("0.".toList ++ zeros (-k) ++ d.digits)
  else if 0 < k ∧ k < n then
    String.ofList (d.digits.take k.toNat ++ '.' :: d.digits.drop k.toNat)
  else if n ≤ k ∧ k ≤ 16 then
    String.ofList (d.digits ++ zeros (k - n) ++ ".0".toList)
  else
    let mantissa := match d.digits with
      | [] => []
      | [first] => [first]
      | first :: rest => first :: '.' :: rest
    let exponent := k - 1
    let sign := if exponent < 0 then "-" else style.positiveExponent
    String.ofList mantissa ++ "e" ++ sign ++ toString exponent.natAbs

/-- The text of a value: a minus for every negative sign, zero's too, and the shortest digits. -/
def text (style : Style) (x : Binary64) : String :=
  let magnitude := if x.significand = 0 then "0.0" else x.shortest.text style
  if x.negative then "-" ++ magnitude else magnitude

end Binary64

end ApiAtlas
