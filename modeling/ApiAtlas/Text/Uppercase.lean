import ApiAtlas.Text.UppercaseTable

/-!
# Full uppercasing

`uppercase` maps every character through the Unicode tables; a character may grow (`ß` becomes
`SS`). ASCII letters are answered before any table is opened, since nearly all text is ASCII.
-/

namespace ApiAtlas.Text

/-- The uppercase of one character, as one to three characters. -/
def uppercaseChar (c : Char) : List Char :=
  if c.toNat < 0x80 then [c.toUpper]
  else match uppercaseRuns.find? (·.covers c.toNat) with
    | some r => [Char.ofNat (r.upper + (c.toNat - r.first))]
    | none => match uppercaseSpecials.lookup c.toNat with
      | some cs => cs.map Char.ofNat
      | none => [c]

/-- The uppercase of a text, character by character. -/
def uppercase (s : String) : String :=
  String.ofList (s.toList.flatMap uppercaseChar)

/-- An ASCII character keeps its place in the text. -/
theorem uppercaseChar_of_ascii {c : Char} (h : c.toNat < 0x80) : uppercaseChar c = [c.toUpper] := by
  simp [uppercaseChar, h]

end ApiAtlas.Text
