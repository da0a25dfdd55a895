import ApiAtlas.Derive.Attribute
import ApiAtlas.Derive.NamingStyle

/-!
# Attributes of an item

What the attributes of a struct or enum say: its component name, whether it is anonymous, and the
naming style of its fields.
-/

namespace ApiAtlas.Derive

/-- The attributes of a struct or enum, as far as they matter. -/
structure ItemAttributes where
  name : Option String
  inline : Bool
  naming : Option NamingStyle
deriving DecidableEq, Repr

namespace ItemAttributes

/-- The state of an item without attributes. -/
def none : ItemAttributes := ⟨.none, false, .none⟩

/-- Read one item of a `describe` list. -/
def readDescribe : ItemReader ItemAttributes := fun c key ts =>
  if key.isWord "name" then
    match assignedText ts with
    | .ok (s, rest) => ({ c with name := some s }, .ok rest)
    | .error e => (c, .error e)
  else if key.isWord "inline" then ({ c with inline := true }, .ok ts)
  else (c, .error .unknownItemKey)

/-- Read one item of a `serde` list for the name of the naming style. -/
def readStyle : ItemReader (Option String) := fun style key ts =>
  if key.isWord "rename_all" then
    match serializedText ts with
    | .ok (s, rest) => (s, .ok rest)
    | .error e => (style, .error e)
  else (style, skipValue ts)

/-- Read one attribute. -/
def readAttribute (c : ItemAttributes) (a : Attribute) :
    Except CompileError ItemAttributes :=
  if a.path = "describe" then
    match a.read readDescribe c with
    | (c, .none) => .ok c
    | (_, some e) => .error e
  else if a.path = "serde" then
    match (a.read readStyle .none).1 with
    | .none => .ok c
    | some s => match NamingStyle.ofName? s with
      | some style => .ok { c with naming := some style }
      | .none => .error (.unknownNamingStyle s)
  else .ok c

/-- Read all attributes; of two that say the same thing differently, the later one holds. -/
def ofAttributes (attributes : List Attribute) : Except CompileError ItemAttributes :=
  attributes.foldlM readAttribute none

end ItemAttributes

end ApiAtlas.Derive
