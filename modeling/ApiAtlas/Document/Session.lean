import ApiAtlas.Document.Assembly
import ApiAtlas.Rendering.Session

/-!
# Assembling in one session

`Document.paths` renders every schema from scratch. The same steps are taken here by actions of one
session, which all operations of a document share: what the rendering of one schema left on the
stack, the next one would find there.
-/

namespace ApiAtlas.Document.InSession

open OpenApi (Content OperationObject Parameter PathItem ResponseObject)

variable (T : TypeTable) (doc : Document)

/-- The request body of an operation. -/
def requestBody (op : Operation) : SessionM (Option Content) :=
  if op.hasRequestBody T then do
    let params := T.view op.params
    let schema ← Session.schema T doc.rules Policy.inlineAll params
    return some (doc.content params schema)
  else return none

/-- A response, with content exactly when its body is a type. -/
def responseObject (r : Response) : SessionM ResponseObject := do
  let body := T.view r.body
  if body.isEmpty then return ⟨r.description, none⟩
  else
    let schema ← Session.schema T doc.rules Policy.referExported body
    return ⟨r.description, some (doc.content body schema)⟩

/-- The responses of an operation by code, after those that are there. -/
def responseObjects (operationId : String) (done : Keyed String ResponseObject) :
    List Response → SessionM (Keyed String ResponseObject)
  | [] => return done
  | r :: rest => do
    let object ← responseObject T doc r
    if r.code.text ∈ done.keys then throw (.repeatedResponse r.code.text operationId)
    else responseObjects operationId (done ++ [(r.code.text, object)]) rest

/-- The parameters among the fields of a parameter struct. -/
def parametersOf : List Descriptor → SessionM (List Parameter)
  | [] => return []
  | d :: rest => match placement d with
    | none => parametersOf rest
    | some (location, name) => do
      let schema ← Session.schema T doc.rules Policy.inlineAll d
      let later ← parametersOf rest
      return ⟨name, location, (d.tag "description").bind unlessEmpty, schema⟩ :: later

/-- The parameters of an operation. -/
def parameters (op : Operation) : SessionM (List Parameter) :=
  let params := T.view op.params
  if params.hasKind .struct && !doc.rules.hasTypeRule params then do
    let fields ← (T.members params : Except Error (List Descriptor))
    parametersOf T doc fields
  else return []

/-- The finished form of an operation. -/
def operationObject (op : Operation) : SessionM OperationObject := do
  let requestBody ← requestBody T doc op
  let responses ← responseObjects T doc op.operationId [] (op.responses T)
  let parameters ← parameters T doc op
  return {
    tags := op.tags
    operationId := op.operationId
    summary := unlessEmpty op.summary
    description := unlessEmpty op.description
    parameters := parameters
    requestBody := requestBody
    responses := responses }

/-- The paths after the given ones when operations are put in one after the other. -/
def pathsFrom (paths : SortedMap PathItem) : List Operation → SessionM (SortedMap PathItem)
  | [] => return paths
  | op :: rest => do
    let object ← operationObject T doc op
    let path := op.template
    let item := (paths.get? path).getD PathItem.empty
    if (item.operation? op.method).isSome then throw (.repeatedOperation op.method path)
    else pathsFrom (paths.insert path (item.withOperation op.method object)) rest

/-- The paths of the document, all of its operations in one session. -/
def paths : SessionM (SortedMap PathItem) :=
  pathsFrom T doc SortedMap.empty (doc.operations.mergeSort precedes)

end ApiAtlas.Document.InSession
