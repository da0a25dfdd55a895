import ApiAtlas.Derive.Attribute
import ApiAtlas.Derive.NamingStyle
import ApiAtlas.Text.Blank

/-!
# Attributes of a field

What the attributes of a field say, and the tags that follow from it. Explicit tags stay as they
are. A field that carries neither a `json` tag nor a place among the parameters gets a `json` tag
with its serialized name, and a doc comment becomes the description unless there is one.
-/

namespace ApiAtlas.Derive

/-- The attributes of a field, as far as they matter. -/
structure FieldAttributes where
  /-- The field is no part of the description. -/
  skip : Bool
  /-- The fields of the field's type take its place. -/
  flatten : Bool
  /-- The explicit tags in the order in which they are written. -/
  tags : Tags
  /-- The serialized name, if the serializer is told one. -/
  serializedAs : Option String
  /-- The serializer leaves the field out. -/
  omitted : Bool
  /-- The doc comment. -/
  doc : Option String
deriving DecidableEq, Repr

/-! ## Doc comments -/

/-- The line of a doc comment, without the space that sets it off. -/
def Attribute.docLine? (a : Attribute) : Option String :=
  match a.path, a.arguments with
  | "doc", .value [.literal (.text line)] => some (match line.toList with
    | ' ' :: rest => String.ofList rest
    | _ => line)
  | _, _ => none

/-- The doc comment of a field: its lines, without blanks around them; none if nothing is left. -/
def docComment (attributes : List Attribute) : Option String :=
  let text := Text.trim ("\n".intercalate (attributes.filterMap Attribute.docLine?))
  if text = "" then none else some text

namespace FieldAttributes

/-- The state of a field without attributes. -/
def none : FieldAttributes := ⟨false, false, [], .none, false, .none⟩

/-- Read one item of a `describe` list. -/
def readDescribe : ItemReader FieldAttributes := fun f key ts =>
  if key.isWord "skip" then ({ f with skip := true }, .ok ts)
  else if key.isWord "flatten" then ({ f with flatten := true }, .ok ts)
  else match key.identifier? with
    | .none => (f, .error .unknownFieldKey)
    | some tag => match assignedText ts with
      | .ok (s, rest) => ({ f with tags := f.tags ++ [(tag, s)] }, .ok rest)
      | .error e => (f, .error e)

/-- Read one item of a `serde` list. -/
def readSerde : ItemReader FieldAttributes := fun f key ts =>
  if key.isWord "rename" then
    match serializedText ts with
    | .ok (s, rest) => ({ f with serializedAs := s.or f.serializedAs }, .ok rest)
    | .error e => (f, .error e)
  else if key.isWord "skip" || key.isWord "skip_serializing" then
    ({ f with omitted := true }, .ok ts)
  else if key.isWord "flatten" then ({ f with flatten := true }, .ok ts)
  else (f, skipValue ts)

/-- Read one attribute. -/
def readAttribute (f : FieldAttributes) (a : Attribute) : Except CompileError FieldAttributes :=
  if a.path = "describe" then
    match a.read readDescribe f with
    | (f, .none) => .ok f
    | (_, some e) => .error e
  else if a.path = "serde" then .ok (a.read readSerde f).1
  else .ok f

/-- Read all attributes. -/
def ofAttributes (attributes : List Attribute) : Except CompileError FieldAttributes :=
  attributes.foldlM readAttribute { none with doc := docComment attributes }

/-! ## Tags -/

/-- The tags that make a field a parameter rather than a property. -/
def placementTags : List String := ["path", "query", "header"]

/-- The serialized name: the one that the serializer is told, or else the declared one as the
naming style writes it. -/
def serializedName (f : FieldAttributes) (name : String) (style : Option NamingStyle) : String :=
  f.serializedAs.getD (match style with
    | some s => s.apply name
    | .none => name)

/-- The explicit tags with the derived `json` tag. -/
def nameTags (f : FieldAttributes) (name : String) (style : Option NamingStyle) : Tags :=
  if f.omitted then f.tags.filter (·.1 ≠ "json") ++ [("json", "-")]
  else if f.tags.has "json" || placementTags.any f.tags.has then f.tags
  else f.tags ++ [("json", f.serializedName name style)]

/-- The tag that a doc comment gives. -/
def descriptionTag (f : FieldAttributes) : Tags :=
  if f.tags.has "description" then []
  else match f.doc with
    | some doc => [("description", doc)]
    | .none => []

/-- All tags of a field: the explicit ones, then the derived ones. -/
def allTags (f : FieldAttributes) (name : String) (style : Option NamingStyle) : Tags :=
  f.nameTags name style ++ f.descriptionTag

end FieldAttributes

end ApiAtlas.Derive
