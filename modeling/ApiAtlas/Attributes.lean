import ApiAtlas.SortedMap
import ApiAtlas.Value

/-!
# Schema attributes

The keywords of a scalar schema, such as `type: string, format: date-time`. Rules write them as
texts; only when a document is written is a text that reads as a boolean or a number given that
type. `Attributes.typedValue` is that decision: it never changes what the text says, the text
keywords stay texts, and a `default` or `example` follows the schema's own `type`.
-/

namespace ApiAtlas

/-- The attributes of a scalar schema: a map from keyword to text. -/
abbrev Attributes := SortedMap String

namespace Attributes

/-- The entries in the order in which they are written: `type` first, the rest by key. -/
def entries (a : Attributes) : List (String × String) :=
  (match a.get? "type" with
    | some t => [("type", t)]
    | none => [])
  ++ a.toList.filter (·.1 != "type")

/-! ## Typed values -/

/-- The keywords whose value is always a text. -/
def textKeywords : List String := ["type", "format", "pattern", "description", "title"]

/-- The keywords whose value is an instance of the schema itself. -/
def instanceKeywords : List String := ["default", "example"]

/-- The integer that a text writes, if it fits 64 bits. -/
def int64? (text : String) : Option Int :=
  (Numeral.integer? text.toList).filter fun i => -Nat.pow 2 63 ≤ i ∧ i < Nat.pow 2 63

/-- Whether a text is made of digits, points and signs, with at least one point. -/
def looksDecimal (text : String) : Bool :=
  text.toList.contains '.'
    && text.toList.all fun c => c.isDigit || c == '.' || c == '-' || c == '+'

/-- The value of a text, typed by the text alone. -/
def plainValue (text : String) : Value :=
  if text = "true" then .bool true
  else if text = "false" then .bool false
  else match int64? text with
    | some i => .int i
    | none =>
      if looksDecimal text then
        match (Decimal.ofChars? text.toList).bind Binary64.ofDecimal? with
        | some x => .float x
        | none => .str text
      else .str text

/-- The value of a text in a schema of the given type: typed if it is an instance of that type, the
text itself otherwise. -/
def typedAs (schemaType : Option String) (text : String) : Value :=
  match plainValue text with
  | .bool b => if schemaType = some "boolean" then .bool b else .str text
  | .int i => if schemaType = some "integer" ∨ schemaType = some "number" then .int i else .str text
  | .float x => if schemaType = some "number" then .float x else .str text
  | _ => .str text

/-- The value that is written for `text` under `key` in a schema with these attributes. -/
def typedValue (a : Attributes) (key text : String) : Value :=
  if textKeywords.contains key then .str text
  else if instanceKeywords.contains key then typedAs (a.get? "type") text
  else plainValue text

/-- The attributes as a mapping. -/
def toValue (a : Attributes) : Value :=
  .map (a.entries.map fun e => (e.1, a.typedValue e.1 e.2))

end Attributes

end ApiAtlas
