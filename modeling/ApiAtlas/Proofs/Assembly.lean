import Mathlib.Data.List.Forall2
import ApiAtlas.Document.Assembly
import ApiAtlas.Proofs.Insertion
import ApiAtlas.Proofs.ComponentSet

/-!
# What a finished document is made of

A finished document is taken apart here, once for all theorems about documents: where its operations
come from (`operationAt_pathsFrom`), what stands in the responses of an operation
(`responseObjects_eq_ok`), and what the schemas of its components are (`schemas_eq_ok`).
-/

namespace ApiAtlas

namespace OpenApi

/-- The operation of a method at a path. -/
def operationAt (paths : SortedMap PathItem) (path : String) (m : Method) :
    Option OperationObject :=
  (paths.get? path).bind (·.operation? m)

/-- The paths with one more operation. -/
def putOperation (paths : SortedMap PathItem) (path : String) (m : Method)
    (object : OperationObject) : SortedMap PathItem :=
  paths.insert path (((paths.get? path).getD PathItem.empty).withOperation m object)

theorem operationAt_putOperation (paths : SortedMap PathItem) (path path' : String) (m m' : Method)
    (object : OperationObject) :
    operationAt (putOperation paths path m object) path' m'
      = if path' = path ∧ m' = m then some object else operationAt paths path' m' := by
  unfold operationAt putOperation
  rw [SortedMap.get?_insert]
  by_cases hp : path' = path
  · rw [if_pos hp, hp, Option.bind_some, PathItem.operation?_withOperation]
    by_cases hm : m' = m
    · simp [hm]
    · rw [if_neg hm, if_neg (fun h => hm h.2)]
      cases paths.get? path with
      | none => exact PathItem.operation?_empty m'
      | some item => rfl
  · rw [if_neg hp, if_neg (fun h => hp h.1)]

/-- A path without an item has no operations either. -/
theorem operation?_getD (paths : SortedMap PathItem) (path : String) (m : Method) :
    ((paths.get? path).getD PathItem.empty).operation? m = operationAt paths path m := by
  unfold operationAt
  cases paths.get? path with
  | none => exact PathItem.operation?_empty m
  | some item => rfl

end OpenApi

namespace Document

open OpenApi (Content OperationObject Parameter PathItem ResponseObject operationAt
  operation?_getD operationAt_putOperation putOperation)

variable {T : TypeTable} {doc : Document}

/-! ## One operation -/

theorem operationObject_eq_ok {op : Operation} {object : OperationObject}
    (h : operationObject T doc op = .ok object) :
    requestBody T doc op = .ok object.requestBody
      ∧ responseObjects T doc op.operationId [] (op.responses T) = .ok object.responses
      ∧ parameters T doc op = .ok object.parameters := by
  obtain ⟨body, hbody, h⟩ := bind_eq_ok.1 h
  obtain ⟨responses, hresponses, h⟩ := bind_eq_ok.1 h
  obtain ⟨parameters, hparameters, h⟩ := bind_eq_ok.1 h
  cases h
  exact ⟨hbody, hresponses, hparameters⟩

/-- The responses of an operation stand in order, each under its code. -/
theorem responseObjects_eq_ok {id : String} {done out : Keyed String ResponseObject}
    {rs : List Response} (h : responseObjects T doc id done rs = .ok out) :
    ∃ added, out = done ++ added ∧ List.Forall₂
      (fun r e => e.1 = r.code.text ∧ responseObject T doc r = .ok e.2) rs added := by
  induction rs generalizing done with
  | nil =>
    rw [responseObjects] at h
    cases h
    exact ⟨[], (List.append_nil _).symm, .nil⟩
  | cons r rest ih =>
    rw [responseObjects] at h
    obtain ⟨object, hobject, h⟩ := bind_eq_ok.1 h
    split at h
    · cases h
    · obtain ⟨added, hout, hadded⟩ := ih h
      refine ⟨(r.code.text, object) :: added, ?_, .cons ⟨rfl, hobject⟩ hadded⟩
      rw [hout, List.append_assoc]
      rfl

/-- The content of a response is the schema of its body, with references. -/
theorem content_of_responseObject {r : Response} {object : ResponseObject} {content : Content}
    (h : responseObject T doc r = .ok object) (hc : object.content = some content) :
    T.schemaOf doc.rules Policy.referExported (T.view r.body) = .ok content.schema := by
  unfold responseObject at h
  dsimp only at h
  split at h
  · cases h; cases hc
  · obtain ⟨schema, hschema, h⟩ := bind_eq_ok.1 h
    cases h
    cases hc
    exact hschema

theorem exists_response_of_mem {op : Operation} {object : OperationObject} {code : String}
    {response : ResponseObject} (h : operationObject T doc op = .ok object)
    (hr : (code, response) ∈ object.responses) :
    ∃ r ∈ op.responses T, code = r.code.text ∧ responseObject T doc r = .ok response := by
  obtain ⟨added, hout, hadded⟩ := responseObjects_eq_ok (operationObject_eq_ok h).2.1
  rw [hout, List.nil_append] at hr
  exact exists_of_mem_right hadded hr

/-- A response whose body is a type has content. -/
theorem exists_content_of_response {op : Operation} {object : OperationObject} {r : Response}
    (h : operationObject T doc op = .ok object) (hr : r ∈ op.responses T)
    (hbody : (T.view r.body).isEmpty = false) :
    ∃ response content, (r.code.text, response) ∈ object.responses
      ∧ response.content = some content
      ∧ T.schemaOf doc.rules Policy.referExported (T.view r.body) = .ok content.schema := by
  obtain ⟨added, hout, hadded⟩ := responseObjects_eq_ok (operationObject_eq_ok h).2.1
  obtain ⟨entry, hentry, hcode, hok⟩ := exists_of_mem_left hadded hr
  rw [hout, List.nil_append, ← hcode]
  have hcontent : ∃ content, entry.2.content = some content := by
    unfold responseObject at hok
    dsimp only at hok
    rw [if_neg (by simp [hbody])] at hok
    obtain ⟨schema, _, hok⟩ := bind_eq_ok.1 hok
    exact ⟨_, (congrArg ResponseObject.content (Except.ok.inj hok)).symm⟩
  obtain ⟨content, hcontent⟩ := hcontent
  exact ⟨entry.2, content, hentry, hcontent, content_of_responseObject hok hcontent⟩

/-- A request body is the schema of the parameters with everything expanded. -/
theorem schema_of_requestBody {op : Operation} {content : Content}
    (h : requestBody T doc op = .ok (some content)) :
    T.schemaOf doc.rules Policy.inlineAll (T.view op.params) = .ok content.schema := by
  unfold requestBody at h
  split at h
  · obtain ⟨schema, hschema, h⟩ := bind_eq_ok.1 h
    cases h
    exact hschema
  · cases h

theorem schema_of_mem_parametersOf {ds : List Descriptor} {ps : List Parameter} {p : Parameter}
    (h : parametersOf T doc ds = .ok ps) (hp : p ∈ ps) :
    ∃ d ∈ ds, T.schemaOf doc.rules Policy.inlineAll d = .ok p.schema := by
  induction ds generalizing ps with
  | nil => rw [parametersOf] at h; cases h; cases hp
  | cons d rest ih =>
    rw [parametersOf] at h
    split at h
    · obtain ⟨d', hmem, hd'⟩ := ih h hp
      exact ⟨d', List.mem_cons_of_mem _ hmem, hd'⟩
    · obtain ⟨schema, hschema, h⟩ := bind_eq_ok.1 h
      obtain ⟨later, hlater, h⟩ := bind_eq_ok.1 h
      cases h
      rcases List.mem_cons.1 hp with hp | hp
      · rw [hp]; exact ⟨d, List.mem_cons_self, hschema⟩
      · obtain ⟨d', hmem, hd'⟩ := ih hlater hp
        exact ⟨d', List.mem_cons_of_mem _ hmem, hd'⟩

/-- Parameters, too, are schemas with everything expanded. -/
theorem schema_of_mem_parameters {op : Operation} {ps : List Parameter} {p : Parameter}
    (h : parameters T doc op = .ok ps) (hp : p ∈ ps) :
    ∃ d, T.schemaOf doc.rules Policy.inlineAll d = .ok p.schema := by
  unfold parameters at h
  dsimp only at h
  split at h
  · obtain ⟨ds, _, h⟩ := bind_eq_ok.1 h
    obtain ⟨d, _, hd⟩ := schema_of_mem_parametersOf h hp
    exact ⟨d, hd⟩
  · cases h
    cases hp

/-! ## Documents with the same settings -/

section Settings

variable {doc' : Document} (hrules : doc.rules = doc'.rules)

include hrules

theorem parametersOf_congr (ds : List Descriptor) :
    parametersOf T doc ds = parametersOf T doc' ds := by
  induction ds with
  | nil => rfl
  | cons d rest ih =>
    rw [parametersOf, parametersOf, ih, hrules]

theorem schemasOf_congr (cs : List Descriptor) : schemasOf T doc cs = schemasOf T doc' cs := by
  induction cs with
  | nil => rfl
  | cons c rest ih =>
    rw [schemasOf, schemasOf, ih, hrules]

/-- Documents with the same rules and response bodies have the same component schemas. -/
theorem schemas_congr (hroots : doc.roots T = doc'.roots T) : schemas T doc = schemas T doc' := by
  unfold schemas
  rw [hrules, hroots]
  simp only [schemasOf_congr hrules]

variable (htype : doc.contentType = doc'.contentType)

include htype

theorem responseObjects_congr (id : String) (done : Keyed String ResponseObject)
    (rs : List Response) :
    responseObjects T doc id done rs = responseObjects T doc' id done rs := by
  induction rs generalizing done with
  | nil => rfl
  | cons r rest ih =>
    have hobject : responseObject T doc r = responseObject T doc' r := by
      unfold responseObject content
      rw [hrules, htype]
    rw [responseObjects, responseObjects, hobject]
    simp only [ih]

/-- An operation is finished by the rules and the content type of its document. -/
theorem operationObject_congr (op : Operation) :
    operationObject T doc op = operationObject T doc' op := by
  have hbody : requestBody T doc op = requestBody T doc' op := by
    unfold requestBody content
    rw [hrules, htype]
  have hparameters : parameters T doc op = parameters T doc' op := by
    unfold parameters
    rw [hrules, funext (parametersOf_congr hrules)]
  unfold operationObject
  rw [hbody, hparameters, responseObjects_congr hrules htype]

end Settings

/-! ## All operations -/

/-- What tells one operation of a document from another. -/
def slot (op : Operation) : String × Method := (op.template, op.method)

/-- What becomes of an operation that could be finished is a matter of its slot. -/
theorem pathsFrom_cons {start : SortedMap PathItem} {op : Operation} {rest : List Operation}
    {object : OperationObject} (h : operationObject T doc op = .ok object) :
    pathsFrom T doc start (op :: rest)
      = if (operationAt start op.template op.method).isSome then
          .error (.repeatedOperation op.method op.template)
        else pathsFrom T doc (putOperation start op.template op.method object) rest := by
  rw [pathsFrom, h, ← operation?_getD]
  rfl

/-- One operation is finished and put into a slot that is free, then come the others. -/
theorem pathsFrom_cons_eq_ok {start out : SortedMap PathItem} {op : Operation}
    {rest : List Operation} (h : pathsFrom T doc start (op :: rest) = .ok out) :
    ∃ object, operationObject T doc op = .ok object
      ∧ operationAt start op.template op.method = none
      ∧ pathsFrom T doc (putOperation start op.template op.method object) rest = .ok out := by
  obtain ⟨object, hobject, _⟩ := bind_eq_ok.1 (pathsFrom.eq_2 T doc start op rest ▸ h)
  rw [pathsFrom_cons hobject] at h
  split at h
  next => cases h
  next hfree => exact ⟨object, hobject, Option.not_isSome_iff_eq_none.1 hfree, h⟩

/-- A slot that is free after an operation was put in is another one, and was free before. -/
theorem slot_ne_of_free {start : SortedMap PathItem} {op op' : Operation} {object : OperationObject}
    (h : operationAt (putOperation start op.template op.method object) op'.template op'.method
      = none) : slot op' ≠ slot op ∧ operationAt start op'.template op'.method = none := by
  rw [operationAt_putOperation] at h
  split at h
  next => cases h
  next hne => exact ⟨fun he => hne ⟨congrArg Prod.fst he, congrArg Prod.snd he⟩, h⟩

/-- Operations that could be put in one after the other have slots of their own, which were free,
and each could be finished by itself. -/
theorem slots_of_pathsFrom {start out : SortedMap PathItem} {ops : List Operation}
    (h : pathsFrom T doc start ops = .ok out) :
    (ops.map slot).Nodup ∧ ∀ op ∈ ops, operationAt start op.template op.method = none
      ∧ ∃ object, operationObject T doc op = .ok object := by
  induction ops generalizing start with
  | nil => exact ⟨List.nodup_nil, fun op hop => by cases hop⟩
  | cons op rest ih =>
    obtain ⟨object, hobject, hfree, h⟩ := pathsFrom_cons_eq_ok h
    obtain ⟨hnodup, hrest⟩ := ih h
    constructor
    · refine List.nodup_cons.2 ⟨fun hmem => ?_, hnodup⟩
      obtain ⟨op', hop', he⟩ := List.mem_map.1 hmem
      exact (slot_ne_of_free (hrest op' hop').1).1 he
    · intro op' hop'
      rcases List.mem_cons.1 hop' with hop' | hop'
      · rw [hop']
        exact ⟨hfree, object, hobject⟩
      · exact ⟨(slot_ne_of_free (hrest op' hop').1).2, (hrest op' hop').2⟩

/-- Conversely, to have free slots of their own and to be fit to be finished is all that operations
need. -/
theorem exists_pathsFrom {start : SortedMap PathItem} {ops : List Operation}
    (hslots : (ops.map slot).Nodup)
    (hops : ∀ op ∈ ops, operationAt start op.template op.method = none
      ∧ ∃ object, operationObject T doc op = .ok object) :
    ∃ out, pathsFrom T doc start ops = .ok out := by
  induction ops generalizing start with
  | nil => exact ⟨start, by rw [pathsFrom]⟩
  | cons op rest ih =>
    obtain ⟨hnew, hrest⟩ := List.nodup_cons.1 hslots
    obtain ⟨hfree, object, hobject⟩ := hops op List.mem_cons_self
    rw [pathsFrom_cons hobject, hfree]
    refine ih hrest fun op' hop' => ?_
    obtain ⟨hfree', hobject'⟩ := hops op' (List.mem_cons_of_mem _ hop')
    refine ⟨?_, hobject'⟩
    rw [operationAt_putOperation, if_neg, hfree']
    rintro ⟨hpath, hm⟩
    refine hnew ?_
    have hslot : slot op' = slot op := Prod.ext hpath hm
    rw [← hslot]
    exact List.mem_map_of_mem hop'

/-- The operations that are there are those that were there and those that were put in. -/
theorem operationAt_pathsFrom {start out : SortedMap PathItem} {ops : List Operation}
    (h : pathsFrom T doc start ops = .ok out) (path : String) (m : Method)
    (object : OperationObject) :
    operationAt out path m = some object ↔ operationAt start path m = some object
      ∨ ∃ op ∈ ops, slot op = (path, m) ∧ operationObject T doc op = .ok object := by
  induction ops generalizing start with
  | nil =>
    rw [pathsFrom] at h
    cases h
    constructor
    · intro hat
      exact .inl hat
    · rintro (hat | ⟨op, hop, _⟩)
      · exact hat
      · cases hop
  | cons op rest ih =>
    obtain ⟨object', hobject', hfree, h⟩ := pathsFrom_cons_eq_ok h
    rw [ih h, operationAt_putOperation]
    by_cases hslot : path = op.template ∧ m = op.method
    · -- the slot of this operation, which no other one has
      obtain ⟨rfl, rfl⟩ := hslot
      rw [if_pos ⟨rfl, rfl⟩]
      constructor
      · rintro (hat | ⟨op', hop', he, _⟩)
        · cases hat
          exact .inr ⟨op, List.mem_cons_self, rfl, hobject'⟩
        · exact absurd he (slot_ne_of_free ((slots_of_pathsFrom h).2 op' hop').1).1
      · rintro (hat | ⟨op', hop', he, hok⟩)
        · rw [hfree] at hat
          cases hat
        · rcases List.mem_cons.1 hop' with hop' | hop'
          · rw [hop', hobject'] at hok
            cases hok
            exact .inl rfl
          · exact absurd he (slot_ne_of_free ((slots_of_pathsFrom h).2 op' hop').1).1
    · rw [if_neg hslot]
      constructor
      · rintro (hat | ⟨op', hop', he, hok⟩)
        · exact .inl hat
        · exact .inr ⟨op', List.mem_cons_of_mem _ hop', he, hok⟩
      · rintro (hat | ⟨op', hop', he, hok⟩)
        · exact .inl hat
        · rcases List.mem_cons.1 hop' with hop' | hop'
          · rw [hop'] at he
            exact absurd ⟨(congrArg Prod.fst he).symm, (congrArg Prod.snd he).symm⟩ hslot
          · exact .inr ⟨op', hop', he, hok⟩

/-- No two operations of a finished document share a slot. -/
theorem nodup_slots {out : SortedMap PathItem} (h : paths T doc = .ok out) :
    (doc.operations.map slot).Nodup :=
  ((List.mergeSort_perm doc.operations precedes).map slot).nodup_iff.1 (slots_of_pathsFrom h).1

/-- The paths can be finished if slots differ and each operation can be finished. -/
theorem exists_paths (hslots : (doc.operations.map slot).Nodup)
    (hops : ∀ op ∈ doc.operations, ∃ object, operationObject T doc op = .ok object) :
    ∃ out, paths T doc = .ok out := by
  refine exists_pathsFrom ?_ fun op hop => ⟨rfl, hops op (List.mem_mergeSort.1 hop)⟩
  exact ((List.mergeSort_perm doc.operations precedes).map slot).nodup_iff.2 hslots

/-- Every operation of a finished document could be finished. -/
theorem exists_operationObject {out : SortedMap PathItem} (h : paths T doc = .ok out)
    {op : Operation} (hop : op ∈ doc.operations) :
    ∃ object, operationObject T doc op = .ok object :=
  ((slots_of_pathsFrom h).2 op (List.mem_mergeSort.2 hop)).2

/-- **Where an operation of a finished document comes from.** -/
theorem operationAt_paths {out : SortedMap PathItem} (h : paths T doc = .ok out)
    {path : String} {m : Method} {object : OperationObject} :
    operationAt out path m = some object ↔
      ∃ op ∈ doc.operations, slot op = (path, m) ∧ operationObject T doc op = .ok object := by
  rw [operationAt_pathsFrom h path m object]
  simp only [List.mem_mergeSort]
  constructor
  · rintro (hat | hop)
    · cases hat
    · exact hop
  · intro hop
    exact .inr hop

/-! ## Components -/

theorem describes_roots (T : TypeTable) (doc : Document) : ∀ r ∈ doc.roots T, T.Describes r := by
  intro r hr
  obtain ⟨response, _, rfl⟩ := List.mem_map.1 hr
  exact TypeTable.describes_describe _

/-- The roots are the bodies of the responses. -/
theorem mem_roots {r : Descriptor} : r ∈ doc.roots T ↔
    ∃ op ∈ doc.operations, ∃ response ∈ op.responses T, r = T.view response.body := by
  simp only [roots, List.mem_map, List.mem_flatMap]
  constructor
  · rintro ⟨response, ⟨op, hop, hresponse⟩, rfl⟩
    exact ⟨op, hop, response, hresponse, rfl⟩
  · rintro ⟨op, hop, response, hresponse, rfl⟩
    exact ⟨response, ⟨op, hop, hresponse⟩, rfl⟩

/-- A component's schema is its object, with references. -/
theorem schemasOf_eq_ok {cs : List Descriptor} {out : List (String × Schema)}
    (hn : ∀ c ∈ cs, TypeTable.isReferable c = true) :
    schemasOf T doc cs = .ok out ↔ List.Forall₂ (fun c e => e.1 = TypeTable.sortName c
      ∧ T.objectOf doc.rules Policy.inlineUnreferable c = .ok e.2) cs out := by
  induction cs generalizing out with
  | nil =>
    rw [schemasOf, List.forall₂_nil_left_iff]
    constructor
    · intro h; cases h; rfl
    · rintro rfl; rfl
  | cons c rest ih =>
    have hname : ∃ name, c.name? = some name := by
      have := hn c List.mem_cons_self
      rw [TypeTable.isReferable, Bool.and_eq_true] at this
      exact Option.isSome_iff_exists.1 this.1
    obtain ⟨name, hname⟩ := hname
    have hsort : TypeTable.sortName c = name := by simp [TypeTable.sortName, hname]
    rw [schemasOf, hname, List.forall₂_cons_left_iff]
    constructor
    · intro h
      obtain ⟨schema, hschema, h⟩ := bind_eq_ok.1 h
      obtain ⟨later, hlater, h⟩ := bind_eq_ok.1 h
      cases h
      refine ⟨(name, schema), later, ⟨hsort.symm, hschema⟩, ?_, rfl⟩
      exact (ih fun c hc => hn c (List.mem_cons_of_mem _ hc)).1 hlater
    · rintro ⟨⟨name', schema⟩, later, ⟨hname', hschema⟩, hlater, rfl⟩
      have hlater := (ih fun c hc => hn c (List.mem_cons_of_mem _ hc)).2 hlater
      refine bind_eq_ok.2 ⟨schema, hschema, bind_eq_ok.2 ⟨later, hlater, ?_⟩⟩
      rw [← hsort, ← hname']
      rfl

theorem schemasOf_keys {cs : List Descriptor} {out : List (String × Schema)}
    (h : List.Forall₂ (fun c e => e.1 = TypeTable.sortName c
      ∧ T.objectOf doc.rules Policy.inlineUnreferable c = .ok e.2) cs out) :
    Keyed.keys out = cs.map TypeTable.sortName := by
  induction h with
  | nil => rfl
  | cons hhead _ ih => exact congr (congrArg List.cons hhead.1) ih

/-- The components of a document are finished one by one, each under its name. -/
theorem schemas_eq_ok {out : Keyed String Schema} :
    schemas T doc = .ok out ↔ ∃ cs, T.components doc.rules (doc.roots T) = .ok cs
      ∧ List.Forall₂ (fun c e => e.1 = TypeTable.sortName c
        ∧ T.objectOf doc.rules Policy.inlineUnreferable c = .ok e.2) cs out := by
  -- the names ascend, so that none is inserted twice
  have hlist : ∀ {cs l}, T.components doc.rules (doc.roots T) = .ok cs →
      schemasOf T doc cs = .ok l → Keyed.ofList l = l ∧ List.Forall₂ (fun c e =>
        e.1 = TypeTable.sortName c
          ∧ T.objectOf doc.rules Policy.inlineUnreferable c = .ok e.2) cs l := by
    intro cs l hcs hl
    obtain ⟨found, _, hby, hasc⟩ := TypeTable.components_eq_ok.1 hcs
    have hn : ∀ c ∈ cs, TypeTable.isReferable c = true := by
      intro c hc
      rw [hby] at hc
      exact (TypeTable.mem_byName.1 hc).2
    have hall := (schemasOf_eq_ok hn).1 hl
    refine ⟨Keyed.ofList_of_nodup ?_, hall⟩
    rw [schemasOf_keys hall]
    exact TypeTable.nodup_sortName hasc
  unfold schemas
  rw [bind_eq_ok]
  constructor
  · rintro ⟨cs, hcs, h⟩
    obtain ⟨l, hl, h⟩ := bind_eq_ok.1 h
    cases h
    obtain ⟨hkeyed, hall⟩ := hlist hcs hl
    exact ⟨cs, hcs, by rw [hkeyed]; exact hall⟩
  · rintro ⟨cs, hcs, hall⟩
    have hn : ∀ c ∈ cs, TypeTable.isReferable c = true := by
      obtain ⟨found, _, hby, _⟩ := TypeTable.components_eq_ok.1 hcs
      intro c hc
      rw [hby] at hc
      exact (TypeTable.mem_byName.1 hc).2
    have hl := (schemasOf_eq_ok hn).2 hall
    refine ⟨cs, hcs, bind_eq_ok.2 ⟨out, hl, ?_⟩⟩
    rw [(hlist hcs hl).1]
    rfl

/-- A struct in reach that can be referred to is there under its name, as its object. -/
theorem component_of_reaches {out : Keyed String Schema} (h : schemas T doc = .ok out)
    {e : Descriptor} {i : TypeFacts} {name : String}
    (hreach : T.Reaches doc.rules (doc.roots T) e)
    (hi : TypeTable.enterable? doc.rules e = some i) (hn : e.name? = some name)
    (hx : e.isExported = true) :
    ∃ object, Keyed.get? name out = some object
      ∧ T.objectOf doc.rules Policy.inlineUnreferable e = .ok object := by
  obtain ⟨cs, hcs, hall⟩ := schemas_eq_ok.1 h
  obtain ⟨hfacts, hk, hrule⟩ := TypeTable.enterable?_eq_some.1 hi
  have hlist := TypeTable.componentList_of_ok (describes_roots T doc) hcs
  have href : i.Referable := by
    refine (TypeTable.isReferable_iff hfacts).1 ?_
    rw [TypeTable.isReferable, hn, hx]
    rfl
  obtain ⟨c, hc, hfilter⟩ := hlist.once i ⟨e, hreach, hfacts, hk, hrule⟩ href
  have hmem : c ∈ cs := by
    have hself : c ∈ cs.filter (fun x => x.id? = some i.id) := by
      rw [hfilter]
      exact List.mem_singleton_self c
    exact (List.mem_filter.1 hself).1
  obtain ⟨entry, hentry, hname, hobject⟩ := exists_of_mem_left hall hmem
  have hce : c.facts = e.facts := hc.trans hfacts.symm
  have hkeys : (Keyed.keys out).Nodup := by
    rw [schemasOf_keys hall]
    exact TypeTable.nodup_sortName hlist.ascending
  refine ⟨entry.2, Keyed.get?_of_mem hkeys ?_, ?_⟩
  · have hkey : entry.1 = name := by
      rw [hname, TypeTable.sortName, TypeTable.name?_congr hce, hn]
      rfl
    rw [← hkey]
    exact hentry
  · rw [← TypeTable.objectOf_congr hce]
    exact hobject

/-- Every entry is the object of a struct in reach, under the name of that struct. -/
theorem reaches_of_mem_schemas {out : Keyed String Schema} (h : schemas T doc = .ok out)
    {name : String} {schema : Schema} (hmem : (name, schema) ∈ out) :
    ∃ d i, T.Reaches doc.rules (doc.roots T) d ∧ TypeTable.enterable? doc.rules d = some i
      ∧ d.name? = some name ∧ T.objectOf doc.rules Policy.inlineUnreferable d = .ok schema := by
  obtain ⟨cs, hcs, hall⟩ := schemas_eq_ok.1 h
  obtain ⟨c, hc, hname, hobject⟩ := exists_of_mem_right hall hmem
  have hlist := TypeTable.componentList_of_ok (describes_roots T doc) hcs
  obtain ⟨i, hci, ⟨d, hd, hdi, hk, hrule⟩, _, name', hn⟩ := hlist.only c hc
  -- the component may be another descriptor than the one in reach, but has the same facts
  have hfacts : c.facts = d.facts := hci.trans hdi.symm
  have hdn : d.name? = some name' := (TypeTable.name?_eq_some hdi).2 hn
  have hsort : TypeTable.sortName c = name' := by
    rw [TypeTable.sortName, TypeTable.name?_congr hfacts, hdn]
    rfl
  refine ⟨d, i, hd, TypeTable.enterable?_eq_some.2 ⟨hdi, hk, hrule⟩, ?_, ?_⟩
  · exact hdn.trans (congrArg some (hname.trans hsort).symm)
  · rw [← TypeTable.objectOf_congr hfacts]
    exact hobject

/-! ## The document -/

theorem assemble_eq_ok {out : OpenApi.Document} (h : assemble T doc = .ok out) :
    paths T doc = .ok out.paths ∧ schemas T doc = .ok out.schemas := by
  obtain ⟨paths, hpaths, h⟩ := bind_eq_ok.1 h
  obtain ⟨schemas, hschemas, h⟩ := bind_eq_ok.1 h
  cases h
  exact ⟨hpaths, hschemas⟩

end Document

end ApiAtlas
