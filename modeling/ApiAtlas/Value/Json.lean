import ApiAtlas.Value

/-!
# JSON text

Values as JSON, compact or with one entry a line. Only the quote, the backslash and the control
characters below the space are escaped; all other characters stand for themselves.
-/

namespace ApiAtlas

namespace Json

/-- Two lower-case hexadecimal digits. -/
def hexByte (n : Nat) : String :=
  String.ofList [Nat.digitChar (n / 16), Nat.digitChar (n % 16)]

/-- One character inside a JSON string. -/
def escapeChar (c : Char) : String :=
  if c = '"' then "\\\""
  else if c = '\\' then "\\\\"
  else if c = '\x08' then "\\b"
  else if c = '\x0c' then "\\f"
  else if c = '\n' then "\\n"
  else if c = '\r' then "\\r"
  else if c = '\t' then "\\t"
  else if c.toNat < 0x20 then "\\u00" ++ hexByte c.toNat
  else c.toString

/-- A JSON string literal. -/
def quote (s : String) : String :=
  "\"" ++ String.join (s.toList.map escapeChar) ++ "\""

/-- JSON writes the sign of a positive exponent. -/
def floatStyle : Binary64.Style := ⟨"+"⟩

/-- What stands between the parts of a list or an object: after the opening bracket and each comma,
before the closing bracket, and after the colon. The argument is the depth of nesting. -/
structure Layout where
  separator : Nat → String
  colon : String

/-- No space at all. -/
def Layout.compact : Layout := ⟨fun _ => "", ":"⟩

/-- Every entry on a line of its own, indented by two spaces a level. -/
def Layout.pretty : Layout := ⟨fun depth => "\n" ++ String.ofList (.replicate (2 * depth) ' '), ": "⟩

/-- Brackets around the parts of a list or object; an empty one has nothing between them. -/
def Layout.enclose (lay : Layout) (depth : Nat) (opening closing : String) (parts : List String) :
    String :=
  if parts.isEmpty then opening ++ closing
  else
    let sep := lay.separator (depth + 1)
    opening ++ sep ++ ("," ++ sep).intercalate parts ++ lay.separator depth ++ closing

mutual

/-- The text of a value at a depth of nesting. -/
def text (lay : Layout) (depth : Nat) : Value → String
  | .bool b => if b then "true" else "false"
  | .int i => toString i
  | .float x => x.text floatStyle
  | .str s => quote s
  | .seq items => lay.enclose depth "[" "]" (itemTexts lay (depth + 1) items)
  | .map entries => lay.enclose depth "\x7b" "\x7d" (entryTexts lay (depth + 1) entries)

/-- The texts of the items of a list. -/
def itemTexts (lay : Layout) (depth : Nat) : List Value → List String
  | [] => []
  | v :: rest => text lay depth v :: itemTexts lay depth rest

/-- The texts of the entries of an object. -/
def entryTexts (lay : Layout) (depth : Nat) : List (String × Value) → List String
  | [] => []
  | (k, v) :: rest => (quote k ++ lay.colon ++ text lay depth v) :: entryTexts lay depth rest

end

end Json

/-- The compact JSON text of a value. -/
def Value.json (v : Value) : String := Json.text .compact 0 v

/-- The JSON text of a value with one entry a line; no line break at the end. -/
def Value.prettyJson (v : Value) : String := Json.text .pretty 0 v

end ApiAtlas
