import ApiAtlas.Method
import ApiAtlas.Schema

/-!
# Path items

What a document says about one path: an operation for each method, with its parameters, request
body and responses. Operations of a path stand in the order of their methods' ranks.
-/

namespace ApiAtlas.OpenApi

/-- Where a request carries a parameter. -/
inductive ParameterLocation where
  | path
  | query
  | header
deriving DecidableEq, Repr

namespace ParameterLocation

/-- All locations, the one that wins first. -/
def all : List ParameterLocation := [.path, .query, .header]

/-- The name of a location, which is also the field tag that places a field there. -/
def name : ParameterLocation → String
  | .path => "path"
  | .query => "query"
  | .header => "header"

end ParameterLocation

/-- A parameter of a request. Exactly the path parameters are required. -/
structure Parameter where
  name : String
  location : ParameterLocation
  description : Option String
  schema : Schema

/-- A body: the schema of its one content type. -/
structure Content where
  contentType : String
  schema : Schema

/-- A response; one without content has no body. -/
structure ResponseObject where
  description : String
  content : Option Content

/-- An operation. Its responses are keyed by status code, in order of declaration. -/
structure OperationObject where
  tags : List String
  operationId : String
  summary : Option String
  description : Option String
  parameters : List Parameter
  requestBody : Option Content
  responses : Keyed String ResponseObject

/-- The operations of one path. -/
structure PathItem where
  get : Option OperationObject
  post : Option OperationObject
  put : Option OperationObject
  patch : Option OperationObject
  delete : Option OperationObject
  head : Option OperationObject
  options : Option OperationObject
  trace : Option OperationObject

namespace PathItem

/-- No operation at all. -/
def empty : PathItem := ⟨none, none, none, none, none, none, none, none⟩

/-- The operation of a method. -/
def operation? (item : PathItem) : Method → Option OperationObject
  | .get => item.get
  | .post => item.post
  | .put => item.put
  | .patch => item.patch
  | .delete => item.delete
  | .head => item.head
  | .options => item.options
  | .trace => item.trace

/-- The path item with this operation for the method. -/
def withOperation (item : PathItem) (m : Method) (op : OperationObject) : PathItem :=
  match m with
  | .get => { item with get := some op }
  | .post => { item with post := some op }
  | .put => { item with put := some op }
  | .patch => { item with patch := some op }
  | .delete => { item with delete := some op }
  | .head => { item with head := some op }
  | .options => { item with options := some op }
  | .trace => { item with trace := some op }

theorem operation?_withOperation (item : PathItem) (m n : Method) (op : OperationObject) :
    (item.withOperation m op).operation? n = if n = m then some op else item.operation? n := by
  cases m <;> cases n <;> rfl

@[simp]
theorem operation?_empty (m : Method) : empty.operation? m = none := by cases m <;> rfl

@[ext]
theorem ext {a b : PathItem} (h : ∀ m, a.operation? m = b.operation? m) : a = b := by
  cases a; cases b
  have hg := h .get; have hpo := h .post; have hpu := h .put; have hpa := h .patch
  have hd := h .delete; have hh := h .head; have ho := h .options; have ht := h .trace
  simp only [operation?] at *
  subst hg hpo hpu hpa hd hh ho ht
  rfl

end PathItem

/-! ## As document values -/

open Value

/-- The entry of a list that is left out when empty. -/
def listEntry {α : Type} (key : String) (f : α → Value) (l : List α) : List (String × Value) :=
  optionally key (if l.isEmpty then none else some (.seq (l.map f)))

/-- A parameter as a mapping. -/
def Parameter.toValue (p : Parameter) : Value :=
  .map (("name", .str p.name) :: ("in", .str p.location.name)
    :: optionally "required" (if p.location = .path then some (.bool true) else none)
    ++ optionally "description" (p.description.map .str)
    ++ [("schema", p.schema.toValue)])

/-- A body as a mapping from its content type. -/
def Content.toValue (c : Content) : Value :=
  .map [(c.contentType, .map [("schema", c.schema.toValue)])]

/-- A response as a mapping. -/
def ResponseObject.toValue (r : ResponseObject) : Value :=
  .map (("description", .str r.description) :: optionally "content" (r.content.map Content.toValue))

/-- A request body as a mapping; one that is there is required. -/
def requestBodyValue (c : Content) : Value :=
  .map [("required", .bool true), ("content", c.toValue)]

/-- An operation as a mapping. -/
def OperationObject.toValue (op : OperationObject) : Value :=
  .map (listEntry "tags" .str op.tags
    ++ ("operationId", .str op.operationId)
    :: optionally "summary" (op.summary.map .str)
    ++ optionally "description" (op.description.map .str)
    ++ listEntry "parameters" Parameter.toValue op.parameters
    ++ optionally "requestBody" (op.requestBody.map requestBodyValue)
    ++ [("responses", .map (op.responses.map fun r => (r.1, r.2.toValue)))])

/-- A path item as a mapping, its methods in order of rank. -/
def PathItem.toValue (item : PathItem) : Value :=
  .map (Method.all.flatMap fun m =>
    optionally m.lower ((item.operation? m).map OperationObject.toValue))

end ApiAtlas.OpenApi
