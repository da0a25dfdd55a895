import ApiAtlas.Numeral.Binary64

/-!
# What a plain YAML scalar reads as

A text written without quotes is read back as null, a boolean or a number if it looks like one.
`resolvesElsewhere` recognises those texts, so that the writer can put quotes around them.
-/

namespace ApiAtlas.Yaml

open Numeral

/-- The spellings of null and of the two booleans. -/
def reservedWords : List String :=
  ["", "null", "Null", "NULL", "~", "true", "True", "TRUE", "false", "False", "FALSE"]

/-- The spellings of the values that are not finite numbers. -/
def nonFiniteWords : List String :=
  [".inf", ".Inf", ".INF"].flatMap (fun w => [w, "+" ++ w, "-" ++ w]) ++ [".nan", ".NaN", ".NAN"]

/-- The magnitude of digits after a base mark (`0x`, `0o`, `0b`). -/
def basedMagnitude? : List Char → Option Nat
  | '0' :: 'x' :: digits => ofDigits? 16 digits
  | '0' :: 'o' :: digits => ofDigits? 8 digits
  | '0' :: 'b' :: digits => ofDigits? 2 digits
  | _ => none

/-- An integer with a base mark that fits 128 bits, signed below zero and unsigned above. -/
def isBasedInteger (cs : List Char) : Bool :=
  let (negative, body) := splitSign cs
  match basedMagnitude? body with
  | some n => if negative then n ≤ Nat.pow 2 127 else n < Nat.pow 2 128
  | none => false

/-- A decimal numeral that rounds to a finite value. -/
def isFiniteDecimal (cs : List Char) : Bool :=
  ((Decimal.ofChars? cs).bind Binary64.ofDecimal?).isSome

/-- An optional sign, a zero, and at least one further digit: a text by the rules of the format,
but one that other readers take for a number. -/
def isZeroPadded (cs : List Char) : Bool :=
  match (splitSign cs).2 with
  | '0' :: d :: rest => (d :: rest).all Char.isDigit
  | _ => false

/-- Whether the text, written plain, would be taken for something other than a text. -/
def resolvesElsewhere (s : String) : Bool :=
  let cs := s.toList
  reservedWords.contains s || nonFiniteWords.contains s || isBasedInteger cs
    || isFiniteDecimal cs || isZeroPadded cs

end ApiAtlas.Yaml
