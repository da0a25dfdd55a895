import ApiAtlas.Derive.ItemAttributes
import ApiAtlas.Derive.FieldAttributes
import ApiAtlas.TypeTable

/-!
# Derived items

An item as it is declared, and the definition of the type that is derived from it.
-/

namespace ApiAtlas.Derive

/-- A declared field of a struct with named fields. Without a visibility it is private. -/
structure ItemField where
  visibility : List TokenTree
  ident : String
  type : TypeExpr
  attributes : List Attribute

/-- A generic parameter. -/
inductive GenericParam where
  /-- A type, with the tokens of each of its bounds. -/
  | type (name : String) (bounds : List (List TokenTree))
  | lifetime (name : String)
  | const (name : String)

/-- What an item declares. -/
inductive ItemBody where
  | struct (fields : List ItemField)
  | tuple (types : List TypeExpr)
  | unit
  /-- For each variant, whether it carries data. -/
  | enumeration (variants : List Bool)
  | union

/-- A declared item. Without a visibility it is private. -/
structure Item where
  visibility : List TokenTree
  ident : String
  generics : List GenericParam
  attributes : List Attribute
  body : ItemBody

/-- What is derived from an item: the definition of its type, and the bounds of its type
parameters. -/
structure Derived where
  name : Option String
  exported : Bool
  generics : List (String × List String)
  body : TypeBody
deriving DecidableEq, Repr

/-- The definition with its full name. -/
def Derived.toTypeDef (d : Derived) (fullName : String) : TypeDef :=
  ⟨d.name, fullName, d.exported, d.body⟩

/-- The field that a declared one gives; none if it is to be skipped. A private field that is not
flattened is never looked into, so its type is left out. -/
def ItemField.field? (f : ItemField) (style : Option NamingStyle) :
    Except CompileError (Option Field) := do
  let attributes ← FieldAttributes.ofAttributes f.attributes
  if attributes.skip then return none
  else
    let name := plainIdentifier f.ident
    let exported := !f.visibility.isEmpty
    return some {
      name := some name
      exported := exported
      flattened := attributes.flatten
      tags := attributes.allTags name style
      type := if exported || attributes.flatten then some f.type else none }

/-- The fields that declared ones give, in order. -/
def fieldsOf (style : Option NamingStyle) : List ItemField → Except CompileError (List Field)
  | [] => .ok []
  | f :: rest => do
    let field ← f.field? style
    let later ← fieldsOf style rest
    return field.toList ++ later

/-- The bounds of a type parameter by name: its own, and that it can be described. -/
def GenericParam.bounds? : GenericParam → Option (String × List String)
  | .type name bounds =>
    some (name, bounds.flatMap (fun b => (Grammar.boundNames? b).getD []) ++ ["Describe"])
  | _ => none

/-- Whether a parameter is a lifetime. -/
def GenericParam.isLifetime : GenericParam → Bool
  | .lifetime _ => true
  | _ => false

/-- The body of the type that an item declares. -/
def ItemBody.derive (body : ItemBody) (style : Option NamingStyle) : Except CompileError TypeBody :=
  match body with
  | .struct fields => (fieldsOf style fields).map .struct
  | .tuple [] | .unit => .ok (.struct [])
  | .tuple [inner] => .ok (.newtype inner)
  | .tuple _ => .error .tupleArity
  | .enumeration variants =>
    if variants.any id then .error .variantWithData else .ok .enumeration
  | .union => .error .union

/-- What is derived from an item. -/
def Item.derive (item : Item) : Except CompileError Derived := do
  if item.generics.any GenericParam.isLifetime then throw .lifetimeParameter
  let container ← ItemAttributes.ofAttributes item.attributes
  let body ← item.body.derive container.naming
  return {
    name := if container.inline then none
      else some (container.name.getD (plainIdentifier item.ident))
    exported := !item.visibility.isEmpty
    generics := item.generics.filterMap GenericParam.bounds?
    body := body }

end ApiAtlas.Derive
