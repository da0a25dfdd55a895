import ApiAtlas.Proofs.Provenance
import ApiAtlas.Proofs.Roots

/-!
# No reference dangles

References are written in two places, responses and components, by policies that look at a struct
from its use. Components are collected by a walk that knows neither. The two agree: a reference was
written for a struct in reach that is exported and has a name, and of these the walk misses none.
-/

namespace ApiAtlas

namespace Schema

theorem refFree_of_refersWithin {T : TypeTable} {R : Registry} {d : Descriptor} {s : Schema}
    (h : T.RefersWithin R Policy.inlineAll d s) : s.RefFree := by
  intro p t hat
  cases ht : t.target? with
  | none => rfl
  | some target =>
    obtain ⟨e, _, ⟨i, name, _, _, hpolicy, _⟩, _⟩ := h p t target hat ht
    cases hpolicy

end Schema

namespace Document

open OpenApi (Content OperationObject Parameter ResponseObject operationAt)

variable {T : TypeTable} {doc : Document}

/-- The reference leads to the entry of the struct of `e`: its own object, with references. -/
def LeadsTo (T : TypeTable) (doc : Document) (schemas : Keyed String Schema) (e : Descriptor)
    (target : String) : Prop :=
  ∃ i name object, e.facts = some i ∧ i.kind = .struct ∧ e.name? = some name
    ∧ target = Schema.componentPath name ∧ Keyed.get? name schemas = some object
    ∧ T.objectOf doc.rules Policy.inlineUnreferable (T.describe i.id) = .ok object

/-- Every reference in the schema of `d` leads to the entry of the struct behind its place. -/
def RefsResolve (T : TypeTable) (doc : Document) (schemas : Keyed String Schema) (d : Descriptor)
    (s : Schema) : Prop :=
  ∀ p t target, s.At p t → t.target? = some target →
    ∃ e, T.siteAt? p d = some e ∧ LeadsTo T doc schemas e target

/-- A policy that refers to exported structs only leaves no reference without its component. -/
theorem refsResolve_of_refersWithin {schemas : Keyed String Schema} {policy : Policy}
    {d : Descriptor} {s : Schema} (h : Document.schemas T doc = .ok schemas)
    (hpolicy : ∀ e, policy e = false → e.isExported = true)
    (hd : T.Reaches doc.rules (doc.roots T) d) (hs : T.RefersWithin doc.rules policy d s) :
    RefsResolve T doc schemas d s := by
  intro p t target hat ht
  obtain ⟨e, he, ⟨i, name, hi, hn, hp, htarget⟩, hreach⟩ := hs p t target hat ht
  have her := hreach _ hd
  obtain ⟨hfacts, hk, _⟩ := TypeTable.enterable?_eq_some.1 hi.1
  obtain ⟨object, hget, hobject⟩ := component_of_reaches h her hi.1 hn (hpolicy e hp)
  have hself := (her.describes (describes_roots T doc)).describe_id hfacts
  refine ⟨e, he, i, name, object, hfacts, hk, hn, htarget, hget, ?_⟩
  rw [TypeTable.objectOf_congr hself]
  exact hobject

theorem isExported_of_referExported {e : Descriptor} (h : Policy.referExported e = false) :
    e.isExported = true := by
  simpa [Policy.referExported] using h

theorem isExported_of_inlineUnreferable {e : Descriptor} (h : Policy.inlineUnreferable e = false) :
    e.isExported = true := by
  simp only [Policy.inlineUnreferable, Bool.or_eq_false_iff, Bool.not_eq_false'] at h
  exact h.2

/-- The object of a struct in reach refers to structs in reach. -/
theorem refersWithin_of_objectOf {R : Registry} {policy : Policy} {d : Descriptor} {i : TypeFacts}
    {s : Schema} (hi : TypeTable.enterable? R d = some i) (h : T.objectOf R policy d = .ok s) :
    T.RefersWithin R policy d s := by
  obtain ⟨j, ms, pairs, hj, _, hms, hs, hall⟩ := TypeTable.objectFrom_eq_ok h
  rw [hs]
  refine TypeTable.RefersWithin.ofProperties hi hms (hall.imp fun m e h => ?_)
  exact ⟨h.1, TypeTable.refersWithin_of_schemaFrom h.2⟩

theorem refFree_of_schemaOf {R : Registry} {d : Descriptor} {s : Schema}
    (h : T.schemaOf R Policy.inlineAll d = .ok s) : s.RefFree :=
  Schema.refFree_of_refersWithin (TypeTable.refersWithin_of_schemaFrom h)

end Document

/-! ## The example, finished -/

namespace Example

open TypeTable

def text : Schema := .data ((Rule.typed "string" "").run table model)

/-- A text renders through its rule, in whatever table and wherever it occurs. -/
theorem schemaFrom_of_text {T : TypeTable} {policy : Policy} {path : List TypeId} {d : Descriptor}
    (hd : d.facts = some ⟨.primitive .string, "alloc::string::String", none, true, .string⟩) :
    T.schemaFrom document.rules policy path d = .ok (.data ((Rule.typed "string" "").run T d)) := by
  have hrule : document.rules.hasTypeRule d = true := by
    rw [Registry.hasTypeRule, hd]
    rfl
  refine schemaFrom_of_rule hd (.inl hrule) ?_
  rw [Registry.rule?, hd]
  rfl

theorem schemaFrom_model (policy : Policy) (path : List TypeId) :
    table.schemaFrom document.rules policy path model = .ok text :=
  schemaFrom_of_text facts_model

theorem objectFrom_device (policy : Policy) {path : List TypeId} (hp : .named "Device" ∉ path) :
    table.objectFrom document.rules policy path device = .ok (.object [("model", text)]) :=
  objectFrom_of_singleton facts_device hp members_device rfl (schemaFrom_model policy _)

theorem expands_session : table.Expands document.rules session
    ⟨.named "Session", "app::Session", some "Session", false, .struct⟩ := by
  refine ⟨enterable?_session, ?_⟩
  rw [fields_of_struct find?_session rfl]
  exact List.cons_ne_nil _ _

theorem expands_device : table.Expands document.rules device
    ⟨.named "Device", "app::Device", some "Device", true, .struct⟩ := by
  refine ⟨enterable?_device, ?_⟩
  rw [fields_of_struct find?_device rfl]
  exact List.cons_ne_nil _ _

theorem peelArrays_session : table.peelArrays document.rules session = (0, session) :=
  peelArrays_of_not_slice (hasKind_of_enterable? enterable?_session).2

theorem peelArrays_device : table.peelArrays document.rules device = (0, device) :=
  peelArrays_of_not_slice (hasKind_of_enterable? enterable?_device).2

theorem name?_device : device.name? = some "Device" :=
  (name?_eq_some facts_device).2 ⟨rfl, by decide⟩

theorem schemaFrom_device (path : List TypeId) :
    table.schemaFrom document.rules Policy.referExported path device = .ok (.ref "Device") := by
  have hp : Policy.referExported device = false := by
    rw [Policy.referExported, Descriptor.isExported, facts_device]
    rfl
  have hsite : table.siteSchema? document.rules Policy.referExported
      (table.peelArrays document.rules device).2 = .ok (some (.ref "Device")) := by
    rw [peelArrays_device, siteSchema?_of_expands expands_device]
    simp [name?_device, hp]
  rw [schemaFrom_of_finished hsite, peelArrays_device]
  rfl

/-- The session is private, so its object stands in its place; the device it holds may differ. -/
theorem schemaOf_session {policy : Policy} {s : Schema} (hp : policy session = true)
    (hs : table.schemaFrom document.rules policy [.named "Session"] device = .ok s) :
    table.schemaOf document.rules policy session = .ok (.object [("device", s)]) := by
  have hn : session.name? = some "Session" := (name?_eq_some facts_session).2 ⟨rfl, by decide⟩
  have hsite : table.siteSchema? document.rules policy (table.peelArrays document.rules session).2
      = .ok none := by
    rw [peelArrays_session, siteSchema?_of_expands expands_session]
    simp [hn, hp]
  have hname : device.propertyName = some "device" := rfl
  rw [schemaOf, schemaFrom_of_unfinished hsite, peelArrays_session,
    objectFrom_of_singleton facts_session List.not_mem_nil members_session hname hs]
  rfl

theorem schemaOf_response : table.schemaOf document.rules Policy.referExported
    (table.describe (.named "Session")) = .ok (.object [("device", .ref "Device")]) := by
  have hp : Policy.referExported session = true := by
    rw [Policy.referExported, Descriptor.isExported, facts_session]
    rfl
  exact schemaOf_session hp (schemaFrom_device _)

theorem operation_finishes_with_method {m : Method} (hm : m ≠ .post) : ∃ object,
    Document.operationObject table document { operation with method := m } = .ok object := by
  have hbody : Document.requestBody table document { operation with method := m } = .ok none := by
    simp [Document.requestBody, Operation.hasRequestBody, operation, Operation.bare,
      isEmpty_describe_empty]
    rfl
  have hparameters : Document.parameters table document { operation with method := m } = .ok [] := by
    have hno : (table.describe .empty).hasKind .struct = false := by
      rw [Descriptor.hasKind, Descriptor.kind?, TypeTable.describe, facts?_empty]
      rfl
    simp [Document.parameters, operation, Operation.bare, hno]
  have hsession : (table.describe (.named "Session")).isEmpty = false :=
    isEmpty_of_schemaFrom schemaOf_response
  unfold Document.operationObject
  rw [hbody, hparameters, responses_with_method hm]
  simp only [Document.responseObjects, Document.responseObject, view_of, view_empty, hsession,
    isEmpty_describe_empty, schemaOf_response]
  exact ⟨_, rfl⟩

theorem operation_finishes :
    ∃ object, Document.operationObject table document operation = .ok object :=
  operation_finishes_with_method (m := .get) (by decide)

theorem document_assembles : ∃ out, Document.assemble table document = .ok out
    ∧ out.schemas = [("Device", .object [("model", text)])] := by
  obtain ⟨object, hobject⟩ := operation_finishes
  have hpaths : ∃ paths, Document.paths table document = .ok paths := by
    have hsort : document.operations.mergeSort Document.precedes = [operation] :=
      List.mergeSort_singleton operation
    rw [Document.paths, hsort, Document.pathsFrom, hobject]
    exact ⟨_, rfl⟩
  obtain ⟨paths, hpaths⟩ := hpaths
  have hschemas : Document.schemas table document
      = .ok [("Device", .object [("model", text)])] := by
    refine Document.schemas_eq_ok.2 ⟨_, components_document, .cons ⟨?_, ?_⟩ .nil⟩
    · rw [sortName, name?_device]
      rfl
    · exact objectFrom_device _ List.not_mem_nil
  exact ⟨_, bind_eq_ok.2 ⟨paths, hpaths, bind_eq_ok.2 ⟨_, hschemas, rfl⟩⟩, rfl⟩

end Example

namespace Document

open OpenApi (Content OperationObject Parameter ResponseObject operationAt)

variable {T : TypeTable} {doc : Document}

/-- **No reference dangles, and each leads to its own type.** A reference in a response body or in a
component names an entry of the component schemas, and that entry is the object of the very struct
that stands behind the place of the reference. Request bodies and parameters hold no reference. -/
theorem references_resolve {out : OpenApi.Document} (h : assemble T doc = .ok out) :
    (∀ path m object, operationAt out.paths path m = some object →
        (∀ code response content, (code, response) ∈ object.responses →
            response.content = some content →
            ∃ op ∈ doc.operations, slot op = (path, m) ∧ ∃ r ∈ op.responses T, r.code.text = code
              ∧ T.schemaOf doc.rules Policy.referExported (T.view r.body) = .ok content.schema
              ∧ RefsResolve T doc out.schemas (T.view r.body) content.schema)
          ∧ (∀ content, object.requestBody = some content → content.schema.RefFree)
          ∧ ∀ p ∈ object.parameters, p.schema.RefFree)
      ∧ ∀ name schema, (name, schema) ∈ out.schemas →
        ∃ d, d.name? = some name ∧ T.objectOf doc.rules Policy.inlineUnreferable d = .ok schema
          ∧ RefsResolve T doc out.schemas d schema := by
  obtain ⟨hpaths, hschemas⟩ := assemble_eq_ok h
  constructor
  · intro path m object hat
    obtain ⟨op, hop, hslot, hobject⟩ := (operationAt_paths hpaths).1 hat
    obtain ⟨hbody, _, hparameters⟩ := operationObject_eq_ok hobject
    refine ⟨?_, ?_, ?_⟩
    · intro code response content hmem hcontent
      obtain ⟨r, hr, hcode, hresponse⟩ := exists_response_of_mem hobject hmem
      have hschema := content_of_responseObject hresponse hcontent
      refine ⟨op, hop, hslot, r, hr, hcode.symm, hschema, ?_⟩
      have hroot : T.Reaches doc.rules (doc.roots T) (T.view r.body) :=
        .root (mem_roots.2 ⟨op, hop, r, hr, rfl⟩)
      exact refsResolve_of_refersWithin hschemas (fun _ => isExported_of_referExported) hroot
        (TypeTable.refersWithin_of_schemaFrom hschema)
    · intro content hcontent
      rw [hcontent] at hbody
      exact refFree_of_schemaOf (schema_of_requestBody hbody)
    · intro p hp
      obtain ⟨d, hd⟩ := schema_of_mem_parameters hparameters hp
      exact refFree_of_schemaOf hd
  · intro name schema hmem
    obtain ⟨d, i, hd, hi, hn, hobject⟩ := reaches_of_mem_schemas hschemas hmem
    refine ⟨d, hn, hobject, ?_⟩
    exact refsResolve_of_refersWithin hschemas (fun _ => isExported_of_inlineUnreferable) hd
      (refersWithin_of_objectOf hi hobject)

/-- The reference to a device, inside a session that is written out, leads to its entry. -/
theorem references_resolve_document : ∃ (out : OpenApi.Document) (content : Content),
    assemble Example.table Example.document = .ok out
    ∧ content.schema = .object [("device", .ref "Device")]
    ∧ ∃ op ∈ Example.document.operations, ∃ r ∈ op.responses Example.table,
      RefsResolve Example.table Example.document out.schemas (Example.table.view r.body)
        content.schema := by
  obtain ⟨out, hout, _⟩ := Example.document_assembles
  obtain ⟨object, hobject⟩ := Example.operation_finishes
  have hr : ⟨.status 200, "ok response", .of (.named "Session")⟩
      ∈ Example.operation.responses Example.table := by
    rw [Example.responses_operation]
    exact List.mem_cons_self
  obtain ⟨response, content, hmem, hcontent, hschema⟩ := exists_content_of_response hobject hr
    (TypeTable.isEmpty_of_schemaFrom Example.schemaOf_response)
  have hat := (operationAt_paths (assemble_eq_ok hout).1).2
    ⟨_, List.mem_singleton_self _, rfl, hobject⟩
  obtain ⟨op, hop, _, r', hr', _, _, hresolve⟩ :=
    ((references_resolve hout).1 _ _ object hat).1 _ response content hmem hcontent
  refine ⟨out, content, hout, ?_, op, hop, r', hr', hresolve⟩
  exact Except.ok.inj (hschema.symm.trans Example.schemaOf_response)

end Document

end ApiAtlas
