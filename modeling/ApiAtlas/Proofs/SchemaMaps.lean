import ApiAtlas.OpenApi
import ApiAtlas.Proofs.Insertion
import ApiAtlas.Proofs.SortedMaps

/-!
# A document with other attributes

Attributes stand at the leaves of schemas, and schemas stand in parameters, bodies and components.
`Schema.mapData` changes the attributes of a schema and `Document.mapSchemas` the schemas of a
document; all else stays in its place. What a document is put together from, maps and lists of
entries, commutes with such a change.
-/

universe u v w

namespace ApiAtlas

/-! ## Maps and lists of entries -/

section Entries

variable {κ : Type u} {β : Type v} {γ : Type w}

/-- The entries with other values under the same keys. -/
def mapValues (f : β → γ) (l : List (κ × β)) : List (κ × γ) := l.map fun e => (e.1, f e.2)

@[simp]
theorem mapValues_nil (f : β → γ) : mapValues f ([] : List (κ × β)) = [] := rfl

@[simp]
theorem mapValues_cons (f : β → γ) (e : κ × β) (l : List (κ × β)) :
    mapValues f (e :: l) = (e.1, f e.2) :: mapValues f l := rfl

theorem mapValues_append (f : β → γ) (l l' : List (κ × β)) :
    mapValues f (l ++ l') = mapValues f l ++ mapValues f l' := List.map_append

theorem keys_mapValues (f : β → γ) (l : Keyed κ β) : Keyed.keys (mapValues f l) = Keyed.keys l := by
  simp [Keyed.keys, mapValues]

theorem mapValues_congr_id {f : β → β} (hf : ∀ b, f b = b) (l : List (κ × β)) :
    mapValues f l = l := by
  simp [mapValues, hf]

theorem mapValues_ofList [DecidableEq κ] (f : β → γ) (l : List (κ × β)) :
    mapValues f (Keyed.ofList l) = Keyed.ofList (mapValues f l) :=
  (Keyed.ofList_map f l).symm

end Entries

namespace SortedMap

variable {β : Type v} {γ : Type w}

/-- The map with other values under the same keys. -/
def map (f : β → γ) (m : SortedMap β) : SortedMap γ :=
  ⟨mapValues f m.toList, List.pairwise_map.2 m.ascending⟩

theorem get?_map (f : β → γ) (m : SortedMap β) (k : String) :
    (m.map f).get? k = (m.get? k).map f := by
  obtain ⟨l, hl⟩ := m
  simp only [get?, map]
  clear hl
  induction l with
  | nil => rfl
  | cons e rest ih =>
    rw [mapValues_cons, List.lookup_cons, List.lookup_cons]
    split
    · rfl
    · exact ih

theorem map_insert (f : β → γ) (m : SortedMap β) (k : String) (v : β) :
    (m.insert k v).map f = (m.map f).insert k (f v) := by
  refine ext_get? fun k' => ?_
  rw [get?_map, get?_insert, get?_insert, get?_map]
  split
  · rfl
  · rfl

theorem map_congr_id {f : β → β} (hf : ∀ b, f b = b) (m : SortedMap β) : m.map f = m :=
  SortedMap.ext (mapValues_congr_id hf m.toList)

end SortedMap

/-! ## Schemas -/

namespace Schema

variable (g : Attributes → Attributes)

mutual

/-- The schema with its attributes changed. -/
def mapData : Schema → Schema
  | .ref name => .ref name
  | .array items => .array items.mapData
  | .object properties => .object (mapProperties properties)
  | .data attributes => .data (g attributes)

/-- The properties with the attributes of their schemas changed. -/
def mapProperties : List (String × Schema) → List (String × Schema)
  | [] => []
  | (name, s) :: rest => (name, s.mapData) :: mapProperties rest

end

theorem mapProperties_eq (l : List (String × Schema)) :
    mapProperties g l = mapValues (mapData g) l := by
  induction l with
  | nil => rw [mapProperties, mapValues_nil]
  | cons e rest ih => rw [mapProperties, ih, mapValues_cons]

theorem mapData_nested (n : Nat) (s : Schema) : (nested n s).mapData g = nested n (s.mapData g) := by
  induction n with
  | zero => rfl
  | succ n ih => rw [nested, mapData, ih, nested]

theorem mapData_ofProperties (l : List (String × Schema)) :
    (ofProperties l).mapData g = ofProperties (mapValues (mapData g) l) := by
  rw [ofProperties, mapData, mapProperties_eq, mapValues_ofList, ofProperties]

mutual

theorem mapData_id : ∀ s : Schema, s.mapData id = s
  | .ref name => by rw [mapData]
  | .array items => by rw [mapData, mapData_id items]
  | .object properties => by rw [mapData, mapProperties_id properties]
  | .data attributes => by rw [mapData, id]

theorem mapProperties_id : ∀ l : List (String × Schema), mapProperties id l = l
  | [] => by rw [mapProperties]
  | (name, s) :: rest => by rw [mapProperties, mapData_id s, mapProperties_id rest]

end

end Schema

/-! ## Documents -/

namespace OpenApi

variable (h : Schema → Schema)

/-- The parameter with another schema. -/
def Parameter.mapSchema (p : Parameter) : Parameter := { p with schema := h p.schema }

/-- The body with another schema. -/
def Content.mapSchema (c : Content) : Content := { c with schema := h c.schema }

/-- The response with another schema. -/
def ResponseObject.mapSchema (r : ResponseObject) : ResponseObject :=
  { r with content := r.content.map (Content.mapSchema h) }

/-- The operation with other schemas. -/
def OperationObject.mapSchemas (op : OperationObject) : OperationObject :=
  { op with
    parameters := op.parameters.map (Parameter.mapSchema h)
    requestBody := op.requestBody.map (Content.mapSchema h)
    responses := mapValues (ResponseObject.mapSchema h) op.responses }

/-- The path item with other schemas. -/
def PathItem.mapSchemas (item : PathItem) : PathItem where
  get := item.get.map (OperationObject.mapSchemas h)
  post := item.post.map (OperationObject.mapSchemas h)
  put := item.put.map (OperationObject.mapSchemas h)
  patch := item.patch.map (OperationObject.mapSchemas h)
  delete := item.delete.map (OperationObject.mapSchemas h)
  head := item.head.map (OperationObject.mapSchemas h)
  options := item.options.map (OperationObject.mapSchemas h)
  trace := item.trace.map (OperationObject.mapSchemas h)

/-- The document with other schemas, those of its components included. -/
def Document.mapSchemas (d : Document) : Document :=
  { d with
    paths := d.paths.map (PathItem.mapSchemas h)
    schemas := mapValues h d.schemas }

theorem PathItem.operation?_mapSchemas (item : PathItem) (m : Method) :
    (item.mapSchemas h).operation? m = (item.operation? m).map (OperationObject.mapSchemas h) := by
  cases m <;> rfl

theorem PathItem.mapSchemas_withOperation (item : PathItem) (m : Method) (op : OperationObject) :
    (item.withOperation m op).mapSchemas h
      = (item.mapSchemas h).withOperation m (op.mapSchemas h) := by
  refine PathItem.ext fun n => ?_
  rw [operation?_mapSchemas, operation?_withOperation, operation?_withOperation,
    operation?_mapSchemas]
  split
  · rfl
  · rfl

theorem mapSchemas_getD (paths : SortedMap PathItem) (path : String) :
    ((paths.get? path).getD PathItem.empty).mapSchemas h
      = ((paths.map (PathItem.mapSchemas h)).get? path).getD PathItem.empty := by
  rw [SortedMap.get?_map]
  cases paths.get? path with
  | none => rfl
  | some item => rfl

variable {h}

theorem OperationObject.mapSchemas_id (hid : ∀ s, h s = s) (op : OperationObject) :
    op.mapSchemas h = op := by
  have hparameter : Parameter.mapSchema h = id :=
    funext fun p => by rw [Parameter.mapSchema, hid, id]
  have hcontent : Content.mapSchema h = id := funext fun c => by rw [Content.mapSchema, hid, id]
  have hresponse : ∀ r : ResponseObject, r.mapSchema h = r := fun r => by
    rw [ResponseObject.mapSchema, hcontent, Option.map_id, id]
  rw [OperationObject.mapSchemas, hparameter, hcontent, mapValues_congr_id hresponse, List.map_id,
    Option.map_id, id]

theorem PathItem.mapSchemas_id (hid : ∀ s, h s = s) (item : PathItem) : item.mapSchemas h = item := by
  refine PathItem.ext fun m => ?_
  rw [operation?_mapSchemas]
  cases item.operation? m with
  | none => rfl
  | some op => rw [Option.map_some, OperationObject.mapSchemas_id hid]

theorem Document.mapSchemas_id (hid : ∀ s, h s = s) (d : Document) : d.mapSchemas h = d := by
  rw [Document.mapSchemas, SortedMap.map_congr_id (PathItem.mapSchemas_id hid),
    mapValues_congr_id hid]

end OpenApi

end ApiAtlas
