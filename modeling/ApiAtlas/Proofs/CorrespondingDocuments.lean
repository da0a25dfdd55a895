import ApiAtlas.Proofs.Assembly
import ApiAtlas.Proofs.Correspondence

/-!
# Documents over corresponding tables

A document says the same over two tables that correspond, if its rules write the same for related
descriptors: it cannot be finished over either, for the same reason, or its two finished forms differ
at most in attributes. Operations mention types of which both tables give one description, so the
renderings of an operation start from equal descriptors; parameters and components start from related
ones.
-/

namespace ApiAtlas.Document

open OpenApi (Content OperationObject Parameter PathItem ResponseObject mapSchemas_getD)

variable {D : Descriptor → Descriptor → Prop} {T T' : TypeTable} {doc : Document}
  {g : Attributes → Attributes} (h : TypeTable.Corresponds D T T')
  (hR : doc.rules.Respects D T T' g)

include h

/-! ## One operation -/

theorem view_of_corresponds (s : Shape) : T'.view s = T.view s := by
  rw [TypeTable.view, TypeTable.view, h.describe]

theorem responses_of_corresponds (op : Operation) : op.responses T' = op.responses T := by
  simp only [Operation.responses, Operation.successResponses, view_of_corresponds h]

theorem roots_of_corresponds : doc.roots T' = doc.roots T := by
  simp only [roots, responses_of_corresponds h, view_of_corresponds h]

include hR

theorem requestBody_agree (op : Operation) :
    Agree (fun b b' => b.map (Content.mapSchema (Schema.mapData g))
      = b'.map (Content.mapSchema (Schema.mapData g)))
      (requestBody T doc op) (requestBody T' doc op) := by
  have hbody : op.hasRequestBody T' = op.hasRequestBody T := by
    rw [Operation.hasRequestBody, Operation.hasRequestBody, view_of_corresponds h]
  unfold requestBody
  rw [hbody, view_of_corresponds h]
  cases op.hasRequestBody T with
  | false => exact .ok rfl
  | true =>
    refine (h.schemaOf hR Policy.respects_inlineAll (h.similar.refl _)).bind fun s s' hs => .ok ?_
    rw [Option.map_some, Option.map_some, Content.mapSchema, Content.mapSchema, content, content, hs]

theorem responseObject_agree (r : Response) :
    Agree (fun o o' => o.mapSchema (Schema.mapData g) = o'.mapSchema (Schema.mapData g))
      (responseObject T doc r) (responseObject T' doc r) := by
  simp only [responseObject, view_of_corresponds h]
  split
  · exact .ok rfl
  · have hschema := h.schemaOf hR (Policy.respects_referExported h.similar)
      (h.similar.refl (T.view r.body))
    refine hschema.bind fun s s' hs => .ok ?_
    simp only [ResponseObject.mapSchema, Option.map_some, Content.mapSchema, content, hs]

theorem responseObjects_agree (id : String) (rs : List Response)
    {done done' : Keyed String ResponseObject}
    (hdone : mapValues (ResponseObject.mapSchema (Schema.mapData g)) done
      = mapValues (ResponseObject.mapSchema (Schema.mapData g)) done') :
    Agree (fun os os' => mapValues (ResponseObject.mapSchema (Schema.mapData g)) os
      = mapValues (ResponseObject.mapSchema (Schema.mapData g)) os')
      (responseObjects T doc id done rs) (responseObjects T' doc id done' rs) := by
  induction rs generalizing done done' with
  | nil =>
    rw [responseObjects, responseObjects]
    exact .ok hdone
  | cons r rest ih =>
    have hkeys : done.keys = done'.keys := by
      rw [← keys_mapValues (ResponseObject.mapSchema (Schema.mapData g)), hdone, keys_mapValues]
    rw [responseObjects, responseObjects]
    refine (responseObject_agree h hR r).bind fun o o' ho => ?_
    rw [hkeys]
    split
    · exact .error _
    · refine ih ?_
      rw [mapValues_append, mapValues_append, hdone, mapValues_cons, mapValues_cons, ho]

theorem parametersOf_agree {ds ds' : List Descriptor} (hds : List.Forall₂ D ds ds') :
    Agree (fun ps ps' => ps.map (Parameter.mapSchema (Schema.mapData g))
      = ps'.map (Parameter.mapSchema (Schema.mapData g)))
      (parametersOf T doc ds) (parametersOf T' doc ds') := by
  induction hds with
  | nil =>
    rw [parametersOf, parametersOf]
    exact .ok rfl
  | @cons d d' rest rest' hD _ ih =>
    have htag := h.similar.tag hD
    have hplace : placement d' = placement d := by simp only [placement, htag]
    rw [parametersOf, parametersOf, hplace]
    split
    · exact ih
    · refine (h.schemaOf hR Policy.respects_inlineAll hD).bind fun s s' hs => ih.bind
        fun ps ps' hps => .ok ?_
      rw [List.map_cons, List.map_cons, hps, Parameter.mapSchema, Parameter.mapSchema, hs, htag]

theorem parameters_agree (op : Operation) :
    Agree (fun ps ps' => ps.map (Parameter.mapSchema (Schema.mapData g))
      = ps'.map (Parameter.mapSchema (Schema.mapData g)))
      (parameters T doc op) (parameters T' doc op) := by
  simp only [parameters, view_of_corresponds h]
  split
  · have hmembers := h.members (d := T.view op.params) (e := T.view op.params) rfl
    exact hmembers.bind fun ds ds' hds => parametersOf_agree h hR hds
  · exact .ok rfl

theorem operationObject_agree (op : Operation) :
    Agree (fun o o' => o.mapSchemas (Schema.mapData g) = o'.mapSchemas (Schema.mapData g))
      (operationObject T doc op) (operationObject T' doc op) := by
  unfold operationObject
  rw [responses_of_corresponds h]
  refine (requestBody_agree h hR op).bind fun b b' hb => ?_
  refine (responseObjects_agree h hR op.operationId (op.responses T) rfl).bind fun rs rs' hrs => ?_
  refine (parameters_agree h hR op).bind fun ps ps' hps => .ok ?_
  rw [OperationObject.mapSchemas, OperationObject.mapSchemas, hb, hrs, hps]

/-! ## All operations -/

theorem pathsFrom_agree (ops : List Operation) {start start' : SortedMap PathItem}
    (hstart : start.map (PathItem.mapSchemas (Schema.mapData g))
      = start'.map (PathItem.mapSchemas (Schema.mapData g))) :
    Agree (fun ps ps' => ps.map (PathItem.mapSchemas (Schema.mapData g))
      = ps'.map (PathItem.mapSchemas (Schema.mapData g)))
      (pathsFrom T doc start ops) (pathsFrom T' doc start' ops) := by
  induction ops generalizing start start' with
  | nil =>
    rw [pathsFrom, pathsFrom]
    exact .ok hstart
  | cons op rest ih =>
    rw [pathsFrom, pathsFrom]
    refine (operationObject_agree h hR op).bind fun o o' ho => ?_
    have hitem : ((start.get? op.template).getD PathItem.empty).mapSchemas (Schema.mapData g)
        = ((start'.get? op.template).getD PathItem.empty).mapSchemas (Schema.mapData g) := by
      rw [mapSchemas_getD, mapSchemas_getD, hstart]
    have htaken : (((start.get? op.template).getD PathItem.empty).operation? op.method).isSome
        = (((start'.get? op.template).getD PathItem.empty).operation? op.method).isSome := by
      rw [← Option.isSome_map (f := OperationObject.mapSchemas (Schema.mapData g)),
        ← PathItem.operation?_mapSchemas, hitem, PathItem.operation?_mapSchemas, Option.isSome_map]
    dsimp only
    rw [htaken]
    split
    · exact .error _
    · refine ih ?_
      rw [SortedMap.map_insert, SortedMap.map_insert, PathItem.mapSchemas_withOperation,
        PathItem.mapSchemas_withOperation, hstart, hitem, ho]

/-! ## Components and the document -/

theorem schemasOf_agree {cs cs' : List Descriptor} (hcs : List.Forall₂ D cs cs') :
    Agree (fun ss ss' => mapValues (Schema.mapData g) ss = mapValues (Schema.mapData g) ss')
      (schemasOf T doc cs) (schemasOf T' doc cs') := by
  induction hcs with
  | nil =>
    rw [schemasOf, schemasOf]
    exact .ok rfl
  | @cons c c' rest rest' hD _ ih =>
    have hfacts := h.similar.facts hD
    rw [schemasOf, schemasOf, TypeTable.name?_congr hfacts]
    split
    · exact ih
    · have hobject := h.objectOf hR (Policy.respects_inlineUnreferable h.similar) hfacts
      refine hobject.bind fun s s' hs => ih.bind fun ss ss' hss => .ok ?_
      rw [mapValues_cons, mapValues_cons, hs, hss]

theorem schemas_agree :
    Agree (fun ss ss' => mapValues (Schema.mapData g) ss = mapValues (Schema.mapData g) ss')
      (schemas T doc) (schemas T' doc) := by
  have hroots : List.Forall₂ D (doc.roots T) (doc.roots T') := by
    rw [roots_of_corresponds h]
    exact List.forall₂_same.2 fun d _ => h.similar.refl d
  refine (h.components hroots).bind fun cs cs' hcs => ?_
  refine (schemasOf_agree h hR hcs).bind fun ss ss' hss => .ok ?_
  rw [mapValues_ofList, mapValues_ofList, hss]

/-- **Corresponding tables give one document,** but for attributes that rules write differently for
related descriptors. -/
theorem assemble_agree :
    Agree (fun out out' => out.mapSchemas (Schema.mapData g) = out'.mapSchemas (Schema.mapData g))
      (assemble T doc) (assemble T' doc) := by
  refine (pathsFrom_agree h hR _ rfl).bind fun ps ps' hps => ?_
  refine (schemas_agree h hR).bind fun ss ss' hss => .ok ?_
  rw [OpenApi.Document.mapSchemas, OpenApi.Document.mapSchemas, hps, hss]

end ApiAtlas.Document
