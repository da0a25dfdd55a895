/-!
# Reading numerals

Integers and decimals as texts write them: an optional sign, digits, and for a decimal a point and
an exponent. A numeral is read whole or not at all; nothing is trimmed and no digit may be missing.
-/

namespace ApiAtlas

namespace Numeral

/-- The value of a decimal or hexadecimal digit; letters count on from ten. -/
def digitValue (c : Char) : Nat :=
  if c.isDigit then c.toNat - '0'.toNat else c.toLower.toNat - 'a'.toNat + 10

/-- Whether `c` is a digit in the given base, at most sixteen. -/
def isDigitIn (base : Nat) (c : Char) : Bool :=
  (c.isDigit || ('a' ≤ c && c ≤ 'f') || ('A' ≤ c && c ≤ 'F')) && digitValue c < base

/-- The number that a list of digits writes, most significant digit first. -/
def ofDigits (base : Nat) (cs : List Char) : Nat :=
  cs.foldl (fun n c => n * base + digitValue c) 0

/-- The number of a non-empty list of digits. -/
def ofDigits? (base : Nat) (cs : List Char) : Option Nat :=
  if cs = [] || !cs.all (isDigitIn base) then none else some (ofDigits base cs)

/-- Split off one leading sign; the first part says whether it is a minus. -/
def splitSign : List Char → Bool × List Char
  | '-' :: rest => (true, rest)
  | '+' :: rest => (false, rest)
  | cs => (false, cs)

/-- The integer that an optional sign and one or more decimal digits write. -/
def integer? (cs : List Char) : Option Int :=
  let (negative, digits) := splitSign cs
  (ofDigits? 10 digits).map fun n => if negative then -(n : Int) else n

end Numeral

/-- A decimal numeral: `± coefficient * 10 ^ exponent`. -/
structure Decimal where
  negative : Bool
  coefficient : Nat
  exponent : Int
deriving DecidableEq

namespace Decimal

open Numeral

/-- The exponent part: nothing, or `e` with an optional sign and digits. -/
def exponent? : List Char → Option Int
  | [] => some 0
  | c :: rest => if c = 'e' ∨ c = 'E' then integer? rest else none

/-- Read a decimal: an optional sign, digits with at most one point among or around them, at least
one digit in all, and an optional exponent. -/
def ofChars? (cs : List Char) : Option Decimal :=
  let (negative, body) := splitSign cs
  let whole := body.takeWhile Char.isDigit
  let (fraction, tail) := match body.dropWhile Char.isDigit with
    | '.' :: rest => (rest.takeWhile Char.isDigit, rest.dropWhile Char.isDigit)
    | rest => ([], rest)
  if whole = [] ∧ fraction = [] then none
  else (exponent? tail).map fun e =>
    ⟨negative, ofDigits 10 (whole ++ fraction), e - fraction.length⟩

end Decimal

end ApiAtlas
