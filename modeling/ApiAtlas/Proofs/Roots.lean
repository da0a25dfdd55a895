import ApiAtlas.Proofs.Assembly

/-!
# What decides the components of a document

The components of a document are a matter of its response bodies and its rules alone. Operations
bring parameters, summaries and tags with them as well; none of these is looked at when components
are collected or finished.
-/

namespace ApiAtlas

namespace Document

variable {T : TypeTable} {doc : Document}

/-- The parameters of operations are none of their response bodies. -/
theorem roots_with_params (params : Operation → Shape) :
    roots T { doc with operations := doc.operations.map fun op => { op with params := params op } }
      = doc.roots T := by
  unfold roots
  rw [List.flatMap_map]
  rfl

end Document

/-! ## An example: a private struct around an exported one -/

namespace Example

def property (name : String) (t : TypeExpr) : Field :=
  ⟨some name, true, false, [("json", name)], some t⟩

def deviceDef : TypeDef :=
  ⟨some "Device", "app::Device", true, .struct [property "model" (.primitive .string)]⟩

def sessionDef : TypeDef :=
  ⟨some "Session", "app::Session", false, .struct [property "device" (.named "Device")]⟩

def table : TypeTable := ⟨[("Device", deviceDef), ("Session", sessionDef)]⟩

def operation : Operation :=
  { Operation.bare .get "/session" "" with onSuccess := .shape (.of (.named "Session")) }

def document : Document :=
  { Document.blank "sessions" "" "1" with
    rules := ⟨[(.primitive .string, Rule.typed "string" "")], []⟩
    operations := [operation] }

def session : Descriptor := table.describe (.named "Session")

def device : Descriptor :=
  (table.describe (.named "Device")).through (property "device" (.named "Device"))

def model : Descriptor :=
  (table.describe (.primitive .string)).through (property "model" (.primitive .string))

open TypeTable

theorem find?_session : table.find? "Session" = some sessionDef := rfl

theorem find?_device : table.find? "Device" = some deviceDef := rfl

theorem facts_session : session.facts
    = some ⟨.named "Session", "app::Session", some "Session", false, .struct⟩ :=
  facts?_of_struct find?_session rfl

theorem facts_device : device.facts
    = some ⟨.named "Device", "app::Device", some "Device", true, .struct⟩ :=
  facts?_of_struct find?_device rfl

theorem facts_model : model.facts
    = some ⟨.primitive .string, "alloc::string::String", none, true, .string⟩ :=
  facts?_of_primitive .string

theorem members_session : table.members session = .ok [device] := by
  have hdevice : table.isCircular (.named "Device") = false := isCircular_of_not_newtype rfl
  rw [members, membersFrom, facts_session]
  simp [fields_of_struct find?_session rfl, membersOf, property, Field.isVisible, hdevice]
  rfl

theorem members_device : table.members device = .ok [model] := by
  rw [members, membersFrom, facts_device]
  simp [fields_of_struct find?_device rfl, membersOf, property, Field.isVisible]
  rfl

theorem enterable?_session : enterable? document.rules session
    = some ⟨.named "Session", "app::Session", some "Session", false, .struct⟩ := by
  refine enterable?_eq_some.2 ⟨facts_session, rfl, ?_⟩
  rw [Registry.hasTypeRule, facts_session]
  rfl

theorem enterable?_device : enterable? document.rules device
    = some ⟨.named "Device", "app::Device", some "Device", true, .struct⟩ := by
  refine enterable?_eq_some.2 ⟨facts_device, rfl, ?_⟩
  rw [Registry.hasTypeRule, facts_device]
  rfl

/-- What is returned is the same with every method that creates nothing. -/
theorem responses_with_method {m : Method} (hm : m ≠ .post) :
    { operation with method := m }.responses table
      = [⟨.status 200, "ok response", .of (.named "Session")⟩,
        ⟨.default, "error response", .empty⟩] := by
  have hbody : (table.describe (.named "Session")).isEmpty = false := by
    show session.facts.isNone = false
    rw [facts_session]
    rfl
  simp [Operation.responses, Operation.successResponses, Operation.failureResponses, operation,
    Operation.bare, hbody, hm]

theorem responses_operation : operation.responses table
    = [⟨.status 200, "ok response", .of (.named "Session")⟩, ⟨.default, "error response", .empty⟩] :=
  responses_with_method (m := .get) (by decide)

theorem discover_document : table.discover document.rules (document.roots table)
    = .ok [session, device] := by
  have hroots : document.roots table = [session, table.describe .empty] := by
    simp [Document.roots, document, responses_operation, session]
  have hself : ∀ {d : Descriptor} {i : TypeFacts}, enterable? document.rules d = some i →
      table.bottom d = d := fun hi => bottom_of_not_slice (hasKind_of_enterable? hi).2
  -- neither texts nor what is no type at all are entered
  have hslice : model.hasKind .slice = false := by
    rw [Descriptor.hasKind, Descriptor.kind?, facts_model]
    rfl
  have hmodel : enterable? document.rules (table.bottom model) = none := by
    rw [bottom_of_not_slice hslice, enterable?, facts_model]
    rfl
  rw [hroots, discover, discoverFrom_of_enter (hself enterable?_session) enterable?_session
    List.not_mem_nil members_session, List.singleton_append,
    discoverFrom_of_enter (hself enterable?_device) enterable?_device (by decide) members_device,
    List.singleton_append, discoverFrom_of_pass (isBottomless_of_not_slice hslice) hmodel,
    discoverFrom_of_empty, discoverFrom]
  rfl

theorem components_document :
    table.components document.rules (document.roots table) = .ok [device] := by
  refine components_eq_ok.2 ⟨_, discover_document, ?_, List.pairwise_singleton _ _⟩
  have hsession : isReferable session = false := by
    rw [isReferable, Descriptor.isExported, facts_session]
    simp
  have hdevice : isReferable device = true :=
    (isReferable_iff facts_device).2 ⟨rfl, _, rfl, by decide⟩
  rw [byName, removeUnreferable, List.filter_cons_of_neg (by simp [hsession]),
    List.filter_cons_of_pos hdevice, List.filter_nil, sortByName, List.mergeSort_singleton]

end Example

namespace Document

/-- **The component set is exact.** If components can be collected at all, they are the exported
structs with a name, and no data types, that single steps reach from the roots, each exactly once
and strictly ascending by name. In a document the roots are the response bodies, the components are
keyed by the names of that list, and what the parameters of operations are makes no difference. -/
theorem components_exact (T : TypeTable) :
    (∀ (R : Registry) (roots cs : List Descriptor), (∀ r ∈ roots, T.Describes r) →
        T.components R roots = .ok cs → T.ComponentList R roots cs)
      ∧ ∀ doc : Document,
        (∀ r, r ∈ doc.roots T ↔
            ∃ op ∈ doc.operations, ∃ response ∈ op.responses T, r = T.view response.body)
          ∧ (∀ out, schemas T doc = .ok out →
            ∃ cs, T.components doc.rules (doc.roots T) = .ok cs
              ∧ Keyed.keys out = cs.map TypeTable.sortName)
          ∧ ∀ params : Operation → Shape,
            schemas T { doc with
                operations := doc.operations.map fun op => { op with params := params op } }
              = schemas T doc := by
  constructor
  · intro R roots cs hroots h
    exact TypeTable.componentList_of_ok hroots h
  · intro doc
    refine ⟨fun r => mem_roots, fun out h => ?_, fun params => ?_⟩
    · obtain ⟨cs, hcs, hall⟩ := schemas_eq_ok.1 h
      exact ⟨cs, hcs, schemasOf_keys hall⟩
    · exact schemas_congr rfl (roots_with_params params)

/-- The private session is walked through, the device in it listed. -/
theorem components_exact_document :
    Example.table.components Example.document.rules (Example.document.roots Example.table)
        = .ok [Example.device]
      ∧ Example.table.ComponentList Example.document.rules (Example.document.roots Example.table)
        [Example.device] :=
  ⟨Example.components_document, (components_exact Example.table).1 _ _ _
    (describes_roots Example.table Example.document) Example.components_document⟩

end Document

end ApiAtlas
