import ApiAtlas.Descriptor
import ApiAtlas.PathTemplate

/-!
# Operations

One endpoint as it is declared: method and path, the shape of its parameters, and what it returns on
success and on failure. `Operation.responses` fills in status codes and descriptions where only the
shape of a body is given.
-/

namespace ApiAtlas

/-- A type as an operation names it, perhaps as though it were reached through a field. -/
structure Shape where
  type : TypeExpr
  field : Option Field
deriving DecidableEq, Repr

/-- A type by itself. -/
def Shape.of (t : TypeExpr) : Shape := ⟨t, none⟩

/-- The shape of nothing. -/
def Shape.empty : Shape := .of .empty

/-- The descriptor of a shape. -/
def TypeTable.view (T : TypeTable) (s : Shape) : Descriptor :=
  { T.describe s.type with field := s.field }

@[simp]
theorem TypeTable.facts_view (T : TypeTable) (s : Shape) : (T.view s).facts = T.facts? s.type := rfl

@[simp]
theorem TypeTable.view_of (T : TypeTable) (t : TypeExpr) : T.view (.of t) = T.describe t := rfl

@[simp]
theorem TypeTable.view_empty (T : TypeTable) : T.view .empty = T.describe .empty := rfl

/-- The key of a response: a status code, or the default that stands for all others. -/
inductive ResponseKey where
  | status (code : Nat)
  | default
deriving DecidableEq, Repr

/-- The code as the key of a response. -/
def ResponseKey.text : ResponseKey → String
  | .status code => toString code
  | .default => "default"

/-- A declared response. Its body is the empty shape when it has no content. -/
structure Response where
  code : ResponseKey
  description : String
  body : Shape
deriving DecidableEq, Repr

/-- What an operation returns: the shape of a body, or responses to be used as they are. -/
inductive Returns where
  | shape (body : Shape)
  | responses (list : List Response)
deriving DecidableEq, Repr

/-- A documented endpoint. -/
structure Operation where
  method : Method
  path : String
  summary : String
  description : String
  params : Shape
  onSuccess : Returns
  onFailure : Returns
  tags : List String
deriving DecidableEq, Repr

namespace Operation

/-- An endpoint without parameters and bodies. -/
def bare (m : Method) (path summary : String) : Operation :=
  ⟨m, path, summary, "", .empty, .shape .empty, .shape .empty, []⟩

variable (T : TypeTable) (op : Operation)

/-- The identifier of the operation. -/
def operationId : String := PathTemplate.operationId op.method op.path

/-- The path with every parameter in braces. -/
def template : String := PathTemplate.normalForm op.path

/-- Parameters make a request body for the methods that take one. -/
def hasRequestBody : Bool := op.method.carriesBody && !(T.view op.params).isEmpty

/-- The responses on success. No body is answered with 204, a body with 201 where something is
created and 200 otherwise. -/
def successResponses : List Response :=
  match op.onSuccess with
  | .responses list => list
  | .shape body =>
    if (T.view body).isEmpty then
      [⟨.status 204, "The operation completed successfully.", .empty⟩]
    else [⟨.status (if op.method = .post then 201 else 200), "ok response", body⟩]

/-- The responses on failure. -/
def failureResponses : List Response :=
  match op.onFailure with
  | .responses list => list
  | .shape body => [⟨.default, "error response", body⟩]

/-- All responses, those on success first. -/
def responses : List Response := op.successResponses T ++ op.failureResponses

end Operation

end ApiAtlas
