import ApiAtlas.Components
import ApiAtlas.Document
import ApiAtlas.Rendering

/-!
# Assembling a document

The finished document of a declared one. Each operation is rendered by itself: its parameters and
request body with everything expanded, its responses with references. The components are the structs
that the response bodies of all operations reach; each is rendered with references to the others.
Operations are taken in the order of their paths and methods, so the order in which they were added
leaves no trace.
-/

namespace ApiAtlas.Document

open OpenApi (Content OperationObject Parameter ParameterLocation PathItem ResponseObject)

variable (T : TypeTable) (doc : Document)

/-! ## One operation -/

/-- The content of a body: texts are plain, all else has the content type of the document. -/
def content (body : Descriptor) (schema : Schema) : Content :=
  ⟨if body.hasKind .string then "text/plain" else doc.contentType, schema⟩

/-- The request body of an operation. -/
def requestBody (op : Operation) : Except Error (Option Content) :=
  if op.hasRequestBody T then do
    let params := T.view op.params
    let schema ← T.schemaOf doc.rules Policy.inlineAll params
    return some (doc.content params schema)
  else return none

/-- A response, with content exactly when its body is a type. -/
def responseObject (r : Response) : Except Error ResponseObject := do
  let body := T.view r.body
  if body.isEmpty then return ⟨r.description, none⟩
  else
    let schema ← T.schemaOf doc.rules Policy.referExported body
    return ⟨r.description, some (doc.content body schema)⟩

/-- The responses of an operation by code, after those that are there; no code may occur twice. -/
def responseObjects (operationId : String) (done : Keyed String ResponseObject) :
    List Response → Except Error (Keyed String ResponseObject)
  | [] => .ok done
  | r :: rest => do
    let object ← responseObject T doc r
    if r.code.text ∈ done.keys then .error (.repeatedResponse r.code.text operationId)
    else responseObjects operationId (done ++ [(r.code.text, object)]) rest

/-- Where a field puts a parameter, and its name there: the first location for which it has a tag
that is not empty. -/
def placement (d : Descriptor) : Option (ParameterLocation × String) :=
  ParameterLocation.all.findSome? fun location =>
    ((d.tag location.name).bind unlessEmpty).map fun name => (location, name)

/-- The parameters among the fields of a parameter struct. -/
def parametersOf : List Descriptor → Except Error (List Parameter)
  | [] => .ok []
  | d :: rest => match placement d with
    | none => parametersOf rest
    | some (location, name) => do
      let schema ← T.schemaOf doc.rules Policy.inlineAll d
      let later ← parametersOf rest
      return ⟨name, location, (d.tag "description").bind unlessEmpty, schema⟩ :: later

/-- The parameters of an operation. Only a struct that is no data type has any. -/
def parameters (op : Operation) : Except Error (List Parameter) :=
  let params := T.view op.params
  if params.hasKind .struct && !doc.rules.hasTypeRule params then
    (T.members params).bind (parametersOf T doc)
  else .ok []

/-- The finished form of an operation. -/
def operationObject (op : Operation) : Except Error OperationObject := do
  let requestBody ← requestBody T doc op
  let responses ← responseObjects T doc op.operationId [] (op.responses T)
  let parameters ← parameters T doc op
  return {
    tags := op.tags
    operationId := op.operationId
    summary := unlessEmpty op.summary
    description := unlessEmpty op.description
    parameters := parameters
    requestBody := requestBody
    responses := responses }

/-! ## All operations -/

/-- The order of operations in a document: by path, then by method. -/
def precedes (a b : Operation) : Bool :=
  a.template < b.template
    || (a.template = b.template && a.method.rank ≤ b.method.rank)

/-- The paths after the given ones when operations are put in one after the other; no two may have
the same path and method. -/
def pathsFrom (paths : SortedMap PathItem) : List Operation → Except Error (SortedMap PathItem)
  | [] => .ok paths
  | op :: rest => do
    let object ← operationObject T doc op
    let path := op.template
    let item := (paths.get? path).getD PathItem.empty
    if (item.operation? op.method).isSome then .error (.repeatedOperation op.method path)
    else pathsFrom (paths.insert path (item.withOperation op.method object)) rest

/-- The paths of the document. -/
def paths : Except Error (SortedMap PathItem) :=
  pathsFrom T doc SortedMap.empty (doc.operations.mergeSort precedes)

/-! ## Components -/

/-- The bodies of all responses. -/
def roots : List Descriptor :=
  (doc.operations.flatMap (·.responses T)).map fun r => T.view r.body

/-- The schemas of components, keyed by name. -/
def schemasOf : List Descriptor → Except Error (List (String × Schema))
  | [] => .ok []
  | d :: rest => match d.name? with
    | none => schemasOf rest
    | some name => do
      let schema ← T.objectOf doc.rules Policy.inlineUnreferable d
      let later ← schemasOf rest
      return (name, schema) :: later

/-- The component schemas of the document. -/
def schemas : Except Error (Keyed String Schema) := do
  let components ← T.components doc.rules (doc.roots T)
  let schemas ← schemasOf T doc components
  return Keyed.ofList schemas

/-! ## The document -/

/-- The metadata of the finished document. -/
def info : OpenApi.Info where
  title := doc.title
  description := unlessEmpty doc.description
  termsOfService := unlessEmpty doc.termsOfService
  contact := if doc.contact = ⟨none, none, none⟩ then none else some doc.contact
  license := if doc.license = ⟨none, none⟩ then none else some doc.license
  version := doc.version

/-- The finished document. -/
def assemble : Except Error OpenApi.Document := do
  let paths ← paths T doc
  let schemas ← schemas T doc
  return {
    info := doc.info
    tags := doc.tags
    servers := doc.servers
    paths := paths
    schemas := schemas
    securitySchemes := doc.securities
    security := doc.securities.keys }

/-- The YAML text of the finished document. -/
def yaml : Except Error String := (assemble T doc).map OpenApi.Document.yaml

/-- The JSON text of the finished document. -/
def json : Except Error String := (assemble T doc).map OpenApi.Document.json

/-- Write the YAML text in one piece. Nothing is written unless the document is finished; a writer
that fails gives the reason. -/
def write {m : Type → Type} [Monad m] (write : String → m (Except String Unit)) :
    m (Except Error Unit) :=
  match yaml T doc with
  | .error e => pure (.error e)
  | .ok text => do
    let outcome ← write text
    return outcome.mapError .notWritten

end ApiAtlas.Document
