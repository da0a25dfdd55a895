import ApiAtlas.Derive.Grammar
import ApiAtlas.Field

/-!
# Attributes

Attributes as they are written on an item or a field: a path with nothing, a value, or a list in
parentheses. Reading a list goes from left to right: the key of an item, what the reader makes of
the tokens behind it, and then a comma or the end. An item may thus take effect and be an error all
the same, when more is written than the reader asked for.
-/

namespace ApiAtlas.Derive

/-- Why an item cannot be derived. -/
inductive CompileError where
  /-- An attribute that needs a list has nothing. -/
  | missingList (path : String)
  /-- An attribute that needs a list has a value. -/
  | valueForList (path : String)
  /-- The list ends where an item should stand. -/
  | missingItem
  | literalForKey
  | markForKey
  /-- The list ends within a path. -/
  | missingSegment
  | expectedSegment
  | expectedComma
  | expectedEquals
  | expectedText
  /-- The list ends where a text should stand. -/
  | missingText
  | expectedExpression
  | unknownItemKey
  | unknownFieldKey
  | unknownNamingStyle (name : String)
  | lifetimeParameter
  | tupleArity
  | variantWithData
  | union
deriving DecidableEq, Repr

/-- The text of an error. -/
def CompileError.message : CompileError → String
  | .missingList path => "expected attribute arguments in parentheses: #[" ++ path ++ "(...)]"
  | .valueForList path => "expected parentheses: #[" ++ path ++ "(...)]"
  | .missingItem => "unexpected end of input, expected nested attribute"
  | .literalForKey => "unexpected literal in nested attribute, expected ident"
  | .markForKey => "unexpected token in nested attribute, expected ident"
  | .missingSegment => "unexpected end of input, expected ident"
  | .expectedSegment => "expected ident"
  | .expectedComma => "expected `,`"
  | .expectedEquals => "expected `=`"
  | .expectedText => "expected string literal"
  | .missingText => "unexpected end of input, expected string literal"
  | .expectedExpression => "expected an expression"
  | .unknownItemKey => "unknown describe attribute, expected `name` or `inline`"
  | .unknownFieldKey =>
    "expected `skip`, `flatten` or `key = \"value\"` in describe attribute"
  | .unknownNamingStyle name => "unknown rename rule `" ++ name ++ "`"
  | .lifetimeParameter => "Describe cannot be derived for types with lifetime parameters"
  | .tupleArity => "Describe supports tuple structs with exactly one field"
  | .variantWithData => "Describe only supports enums whose variants carry no data"
  | .union => "Describe cannot be derived for unions"

/-! ## Written form -/

/-- What follows the path of an attribute. -/
inductive AttributeArguments where
  | nothing
  | value (tokens : List TokenTree)
  | list (tokens : List TokenTree)

/-- An attribute. -/
structure Attribute where
  path : String
  arguments : AttributeArguments

/-! ## Keys -/

/-- The key of an item: a path, which may begin with a double colon. Keywords are allowed. -/
structure Key where
  isAbsolute : Bool
  segments : List String
deriving DecidableEq, Repr

namespace Key

/-- The key as a single identifier, if it is one. -/
def identifier? (k : Key) : Option String :=
  match k.isAbsolute, k.segments with
  | false, [w] => some w
  | _, _ => none

/-- Whether the key is the given identifier. -/
def isWord (k : Key) (w : String) : Bool := k.identifier? = some w

/-- The segments of a path behind the first one. -/
def moreSegments : List TokenTree → Except CompileError (List String × List TokenTree)
  | .mark ':' true :: .mark ':' _ :: .word w :: rest =>
    (moreSegments rest).map fun r => (w :: r.1, r.2)
  | [.mark ':' true, .mark ':' _] => .error .missingSegment
  | .mark ':' true :: .mark ':' _ :: _ => .error .expectedSegment
  | ts => .ok ([], ts)

/-- The key at the front of the tokens. -/
def read (ts : List TokenTree) : Except CompileError (Key × List TokenTree) :=
  let isAbsolute := Test.mark "::" ts
  match if isAbsolute then ts.drop 2 else ts with
  | .word w :: rest => (moreSegments rest).map fun r => (⟨isAbsolute, w :: r.1⟩, r.2)
  | [] => .error .missingItem
  | ts => .error (if Test.literal ts then .literalForKey else .markForKey)

end Key

/-! ## Reading a list -/

/-- What is made of an item: the new state and what is left of the tokens behind the key or, if
reading has to stop there, the reason. -/
abbrev ItemReader (σ : Type) := σ → Key → List TokenTree → σ × Except CompileError (List TokenTree)

/-- Read at most so many items. -/
def readItemsFor {σ : Type} (read : ItemReader σ) :
    Nat → σ → List TokenTree → σ × Option CompileError
  | 0, s, _ => (s, none)
  | n + 1, s, ts => match Key.read ts with
    | .error e => (s, some e)
    | .ok (key, rest) => match read s key rest with
      | (s, .error e) => (s, some e)
      | (s, .ok []) | (s, .ok [.mark ',' _]) => (s, none)
      | (s, .ok (.mark ',' _ :: later)) => readItemsFor read n s later
      | (s, .ok _) => (s, some .expectedComma)

/-- Read items from left to right, at least one. If reading has to stop, the state reached before
that is kept. Every item has a key, so there are no more items than tokens, and one more round sees
that an item is missing. -/
def readItems {σ : Type} (read : ItemReader σ) (s : σ) (ts : List TokenTree) :
    σ × Option CompileError :=
  readItemsFor read (ts.length + 1) s ts

/-- Read the list of an attribute. -/
def Attribute.read {σ : Type} (a : Attribute) (read : ItemReader σ) (s : σ) :
    σ × Option CompileError :=
  match a.arguments with
  | .nothing => (s, some (.missingList a.path))
  | .value _ => (s, some (.valueForList a.path))
  | .list [] => (s, none)
  | .list tokens => readItems read s tokens

/-- The text that is assigned to a key, and what is left of the tokens behind the key. -/
def assignedText : List TokenTree → Except CompileError (String × List TokenTree)
  | .mark '=' _ :: .literal (.text s) :: rest => .ok (s, rest)
  | [.mark '=' _] => .error .missingText
  | .mark '=' _ :: _ => .error .expectedText
  | _ => .error .expectedEquals

/-! ## The attributes of a serializer

They belong to someone else, so an error in them only ends the reading of that attribute. -/

/-- Read past what follows a key that is of no concern, given how deep its lists may be: an
expression that is assigned to it, a list, or nothing. -/
def skipValueTo : Nat → List TokenTree → Except CompileError (List TokenTree)
  | _, .mark '=' _ :: rest => match Grammar.afterExpression? rest with
    | some later => .ok later
    | none => .error .expectedExpression
  | n + 1, .group .parens content :: rest =>
    match readItems (fun _ _ ts => ((), skipValueTo n ts)) () content with
    | (_, none) => .ok rest
    | (_, some e) => .error e
  | _, ts => .ok ts

/-- Read past what follows a key that is of no concern. -/
def skipValue (ts : List TokenTree) : Except CompileError (List TokenTree) :=
  skipValueTo (TokenTree.sizes ts) ts

/-- Read the text under `serialize` in the list of an item. -/
def readSerialize : ItemReader (Option String) := fun found key ts =>
  if key.isWord "serialize" then
    match assignedText ts with
    | .ok (s, rest) => (some s, .ok rest)
    | .error e => (found, .error e)
  else (found, skipValue ts)

/-- The text that an item gives for serialization: the one assigned to it, or the one under
`serialize` in its list, if any; and what is left of the tokens behind the key. -/
def serializedText : List TokenTree → Except CompileError (Option String × List TokenTree)
  | .group .parens content :: rest => match readItems readSerialize none content with
    | (found, none) => .ok (found, rest)
    | (_, some e) => .error e
  | ts => (assignedText ts).map fun r => (some r.1, r.2)

end ApiAtlas.Derive
