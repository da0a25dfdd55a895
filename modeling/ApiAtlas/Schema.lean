import ApiAtlas.Attributes
import ApiAtlas.Keyed

/-!
# Schemas

The schema of one use site: a reference to a component, an array, an object with its properties in
order, or the attributes that a rule gave.
-/

namespace ApiAtlas

/-- A schema. An object without properties is written without a `properties` block. -/
inductive Schema where
  | ref (name : String)
  | array (items : Schema)
  | object (properties : List (String × Schema))
  | data (attributes : Attributes)

namespace Schema

instance : Inhabited Schema := ⟨.object []⟩

/-- An object whose properties are inserted one after the other: a repeated name keeps its first
place and takes its last schema. -/
def ofProperties (properties : List (String × Schema)) : Schema :=
  .object (Keyed.ofList properties)

/-- The schema inside the given number of arrays. -/
def nested : Nat → Schema → Schema
  | 0, s => s
  | n + 1, s => .array (nested n s)

/-- Where the component of a name stands in the document. -/
def componentPath (name : String) : String := "#/components/schemas/" ++ name

/-- The path that a reference points to. -/
def target? : Schema → Option String
  | .ref name => some (componentPath name)
  | _ => none

mutual

/-- The schema as a mapping. -/
def toValue : Schema → Value
  | .ref name => .map [("$ref", .str (componentPath name))]
  | .array items => .map [("type", .str "array"), ("items", items.toValue)]
  | .object [] => .map [("type", .str "object")]
  | .object properties =>
    .map [("type", .str "object"), ("properties", .map (propertyValues properties))]
  | .data attributes => attributes.toValue

/-- The properties of an object as the entries of a mapping. -/
def propertyValues : List (String × Schema) → List (String × Value)
  | [] => []
  | (name, s) :: rest => (name, s.toValue) :: propertyValues rest

end

end Schema

end ApiAtlas
