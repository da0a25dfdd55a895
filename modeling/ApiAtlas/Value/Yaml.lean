import ApiAtlas.Value
import ApiAtlas.Value.Yaml.Scalar

/-!
# YAML text

Values as YAML in block style: two blanks a level, a list in a mapping not indented further, empty
lists and mappings inline, no document marks, and a line break at the end.
-/

namespace ApiAtlas

namespace Yaml

/-- YAML leaves the sign of a positive exponent out. -/
def floatStyle : Binary64.Style := ⟨""⟩

/-- A key may stand before its colon if it is one line of at most 128 bytes. -/
def isSimpleKey (k : String) : Bool :=
  k.utf8ByteSize ≤ 128 && !k.toList.any isBreak

/-- End the line, unless the text has just done so: a literal block may end with its own break. -/
def endLine (text : String) : String :=
  if text.toList.getLast?.any isBreak then text else text ++ "\n"

/-- Texts under each other, the second and all later ones after `indent` blanks. -/
def stack (indent : Nat) : List String → String
  | [] => ""
  | [text] => text
  | text :: rest => endLine text ++ indentation indent ++ stack indent rest

mutual

/-- A value that goes on in the line where it begins; its own lines are indented by `indent`. -/
def inline (indent : Nat) : Value → String
  | .bool b => if b then "true" else "false"
  | .int i => toString i
  | .float x => x.text floatStyle
  | .str s => scalar indent s
  | .seq [] => "[]"
  | .seq items => stack indent (itemTexts indent items)
  | .map [] => "\x7b\x7d"
  | .map entries => stack indent (entryTexts indent entries)

/-- A value after the colon of a simple key in a mapping at `indent`. -/
def afterKey (indent : Nat) : Value → String
  | .seq (item :: items) =>
    "\n" ++ indentation indent ++ stack indent (itemTexts indent (item :: items))
  | .map (entry :: entries) =>
    "\n" ++ indentation (indent + 2) ++ stack (indent + 2) (entryTexts (indent + 2) (entry :: entries))
  | v => " " ++ inline (indent + 2) v

/-- The items of a list at `indent`. -/
def itemTexts (indent : Nat) : List Value → List String
  | [] => []
  | v :: rest => ("- " ++ inline (indent + 2) v) :: itemTexts indent rest

/-- The entries of a mapping at `indent`. A key that cannot stand before a colon is marked. -/
def entryTexts (indent : Nat) : List (String × Value) → List String
  | [] => []
  | (k, v) :: rest =>
    let key := scalar (indent + 2) k
    let text :=
      if isSimpleKey k then key ++ ":" ++ afterKey indent v
      else endLine ("? " ++ key) ++ indentation indent ++ ": " ++ inline (indent + 2) v
    text :: entryTexts indent rest

end

end Yaml

/-- The YAML text of a value. -/
def Value.yaml (v : Value) : String := Yaml.endLine (Yaml.inline 0 v)

end ApiAtlas
