import ApiAtlas.TypeExpr

/-!
# Struct fields

A declared field carries tags, pairs of texts that say what the field is in a document: `json` names
the property, `path`, `query` and `header` make a request parameter of it, `description` and
`default` speak for themselves. Where a tag repeats, the last one holds.
-/

namespace ApiAtlas

/-- Tags in the order in which they are written. -/
abbrev Tags := List (String × String)

namespace Tags

/-- The value of the last tag of this key. -/
def last? (tags : Tags) (key : String) : Option String := tags.reverse.lookup key

/-- Whether some tag has this key. -/
def has (tags : Tags) (key : String) : Bool := tags.any (·.1 = key)

end Tags

/-- A declared field of a struct. A positional field has no name; a field that is never looked into
has no type. -/
structure Field where
  name : Option String
  exported : Bool
  flattened : Bool
  tags : Tags
  type : Option TypeExpr
deriving DecidableEq, Repr

namespace Field

/-- The value of a tag. -/
def tag (f : Field) (key : String) : Option String := f.tags.last? key

/-- A field takes part in a schema if it is positional, flattened or exported. -/
def isVisible (f : Field) : Bool := f.name.isNone || f.flattened || f.exported

/-- The declared name, or a placeholder for a positional field. -/
def label (f : Field) : String := f.name.getD "_"

/-- The name in a `json` tag: all before its first comma. Options after a comma do not matter, but
an empty name before them stands for the declared name. The value `-` and an empty tag mean that the
field is not serialized. -/
def nameOfTag (declared : Option String) (tag : String) : Option String :=
  let cs := tag.toList
  let name := cs.takeWhile (· != ',')
  if tag = "-" then none
  else if name = [] then (if cs.contains ',' then declared else none)
  else some (String.ofList name)

/-- The property name of a serialized field. -/
def propertyName (f : Field) : Option String :=
  (f.tag "json").bind (nameOfTag f.name)

end Field

end ApiAtlas
