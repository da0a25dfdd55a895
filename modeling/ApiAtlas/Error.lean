import ApiAtlas.Kind
import ApiAtlas.Method

/-!
# Errors

What can stop a document from being generated, by cause. `Error.message` words them.

A run that never ends has no outcome, and so nothing comes after it. It is kept here beside the
errors, as `Error.noEnd`, but it is none: nothing reports it, and it has no text.
-/

namespace ApiAtlas

/-- A defect that no well-formed input shows. -/
inductive Defect where
  /-- A rule was looked up for no type. -/
  | lookupOfEmpty
  /-- The fields of no type were asked for. -/
  | walkOfEmpty
  /-- No type was rendered. -/
  | renderOfEmpty
  /-- A visible field of a struct has no type. -/
  | untypedField (field fullName : String)
  /-- A slice has no item type. -/
  | sliceWithoutElement (fullName : String)
deriving DecidableEq, Repr

/-- What a defect is. -/
def Defect.message : Defect → String
  | .lookupOfEmpty => "cannot look up a rule for the empty descriptor."
  | .walkOfEmpty => "cannot walk the fields of the empty descriptor."
  | .renderOfEmpty => "the empty descriptor cannot be rendered."
  | .untypedField field fullName =>
    "field `" ++ field ++ "` of " ++ fullName ++ " is visible but carries no type."
  | .sliceWithoutElement fullName => "slice " ++ fullName ++ " has no element type."

/-- What can stop a document from being generated. -/
inductive Error where
  /-- No rule is known for a type that only a rule can render. -/
  | noRule (kind : Kind) (fullName : String)
  /-- What no well-formed input leads to. -/
  | defect (cause : Defect)
  /-- A type was met inside its own expansion. -/
  | endlessType (fullName : String)
  /-- A flattened field is not a struct. -/
  | flattenedNonStruct (field fullName : String)
  /-- Two types share a component name. -/
  | nameClash (name first second : String)
  /-- Two operations share a method and a path. -/
  | repeatedOperation (method : Method) (path : String)
  /-- Two responses of an operation share a code. -/
  | repeatedResponse (code operationId : String)
  /-- The finished document could not be written. -/
  | notWritten (reason : String)
  /-- There is no outcome, since a type goes on without end. -/
  | noEnd
deriving DecidableEq, Repr

/-- The sentence that follows the description of a defect. -/
def Error.reportRequest : String :=
  "This should not occur in practice. Please report it as a bug, including the definitions of the "
    ++ "types involved."

/-- The text of an error; none for a run that never reports anything. -/
def Error.message : Error → Option String
  | .noRule kind fullName =>
    some <| "no rendering rule for kind " ++ kind.name ++ ", type " ++ fullName
      ++ ". Change the type, or register a rule for it with Document::define_data_type"
  | .defect cause => some (cause.message ++ " " ++ Error.reportRequest)
  | .endlessType fullName =>
    some <| "type " ++ fullName ++ " contains itself and cannot be expanded inline; "
      ++ "make it a named public component so it can be referenced"
  | .flattenedNonStruct field fullName =>
    some <| "field `" ++ field ++ "` is flattened but " ++ fullName ++ " is not a struct"
  | .nameClash name first second =>
    some <| "component name `" ++ name ++ "` is used by both " ++ first ++ " and " ++ second
      ++ "; rename one with #[describe(name = \"...\")]"
  | .repeatedOperation method path =>
    some ("operation " ++ method.upper ++ " " ++ path ++ " is registered more than once")
  | .repeatedResponse code operationId =>
    some ("response " ++ code ++ " is declared more than once for operation " ++ operationId)
  | .notWritten reason => some ("failed to write document: " ++ reason)
  | .noEnd => none

end ApiAtlas
