import ApiAtlas.Proofs.PathIdentifiers
import ApiAtlas.Proofs.Slots

/-!
# Operations that share an identifier

No two operations of a finished document share a slot, and nothing else is asked of them. The
identifier of an operation knows less than its slot: it has the method, but of the path only the
words, run together. So there are documents in which two operations have one identifier, and it can
be said which operations these are: what `PathIdentifiers` says of paths holds of the operations of
a document, each of which has the identifier of its slot (`operationId_of_mem_entries`).

It takes no odd path for that. The example has a path that ends in a parameter and another one that
ends in a word of the same name.
-/

namespace ApiAtlas

open OpenApi (OperationObject entries mem_entries)
open PathTemplate (PlainPath identifier operationId_eq_iff operationId_normalForm unbraced)

namespace Document

variable {T : TypeTable} {doc : Document}

theorem operationId_of_operationObject {op : Operation} {object : OperationObject}
    (h : operationObject T doc op = .ok object) : object.operationId = op.operationId := by
  obtain ⟨body, _, h⟩ := bind_eq_ok.1 h
  obtain ⟨responses, _, h⟩ := bind_eq_ok.1 h
  obtain ⟨parameters, _, h⟩ := bind_eq_ok.1 h
  cases h
  rfl

/-- An operation of a finished document has the identifier of its slot. -/
theorem operationId_of_mem_entries {out : OpenApi.Document} (h : assemble T doc = .ok out)
    {a : (String × Method) × OperationObject} (ha : a ∈ entries out.paths) :
    a.2.operationId = PathTemplate.operationId a.1.2 a.1.1 := by
  obtain ⟨⟨path, m⟩, object⟩ := a
  obtain ⟨op, _, hslot, hobject⟩ := (operationAt_paths (assemble_eq_ok h).1).1 (mem_entries.1 ha)
  cases hslot
  rw [operationId_of_operationObject hobject]
  exact (operationId_normalForm op.method op.path).symm

/-! ## Operations without bodies -/

/-- Nothing can go wrong with an operation that has neither parameters nor bodies. -/
theorem exists_operationObject_bare (m : Method) (path summary : String) :
    ∃ object, operationObject T doc (Operation.bare m path summary) = .ok object := by
  have hempty : (T.describe .empty).isEmpty = true := TypeTable.isEmpty_describe_empty
  have hbody : requestBody T doc (Operation.bare m path summary) = .ok none := by
    rw [requestBody, if_neg]
    · rfl
    · simp [Operation.hasRequestBody, Operation.bare, hempty]
  have hparameters : parameters T doc (Operation.bare m path summary) = .ok [] := by
    have hkind : (T.describe .empty).hasKind .struct = false := by
      have hfacts : (T.describe .empty).facts = none := TypeTable.facts?_empty
      rw [Descriptor.hasKind, Descriptor.kind?, hfacts]
      rfl
    rw [parameters]
    simp [Operation.bare, hkind]
  have hresponses : (Operation.bare m path summary).responses T
      = [⟨.status 204, "The operation completed successfully.", .empty⟩,
        ⟨.default, "error response", .empty⟩] := by
    show Operation.successResponses T _ ++ Operation.failureResponses _ = _
    simp [Operation.successResponses, Operation.failureResponses, Operation.bare, hempty]
  unfold operationObject
  rw [hbody, hparameters, hresponses]
  simp only [responseObjects, responseObject, TypeTable.view_empty, hempty]
  exact ⟨_, rfl⟩

/-- No type at all is no root of a walk. -/
theorem discover_of_empty {R : Registry} {roots : List Descriptor}
    (h : ∀ r ∈ roots, r = T.describe .empty) : T.discover R roots = .ok [] := by
  unfold TypeTable.discover
  induction roots with
  | nil => rw [TypeTable.discoverFrom]
  | cons r rest ih =>
    rw [h r List.mem_cons_self, TypeTable.discoverFrom_of_empty]
    exact ih fun r hr => h r (List.mem_cons_of_mem _ hr)

end Document

/-! ## An example: paths that are only read -/

namespace Example

/-- A document that offers to read each of the paths. -/
def reads (paths : List String) : Document :=
  { Document.blank "reads" "" "1" with operations := paths.map fun path => .bare .get path "" }

theorem schemas_reads (paths : List String) : Document.schemas ⟨[]⟩ (reads paths) = .ok [] := by
  have hroots : ∀ r ∈ (reads paths).roots ⟨[]⟩, r = TypeTable.describe ⟨[]⟩ .empty := by
    intro r hr
    obtain ⟨op, hop, response, hresponse, rfl⟩ := Document.mem_roots.1 hr
    obtain ⟨path, _, rfl⟩ := List.mem_map.1 hop
    have hbody : response.body = .empty := by
      simp only [Operation.responses, Operation.successResponses, Operation.failureResponses,
        Operation.bare, TypeTable.view_empty, TypeTable.isEmpty_describe_empty, if_true,
        List.mem_append, List.mem_singleton] at hresponse
      rcases hresponse with rfl | rfl
      · rfl
      · rfl
    rw [hbody, TypeTable.view_empty]
  have hcomponents : TypeTable.components ⟨[]⟩ (reads paths).rules ((reads paths).roots ⟨[]⟩)
      = .ok [] :=
    TypeTable.components_eq_ok.2 ⟨_, Document.discover_of_empty hroots, List.mergeSort_nil.symm,
      .nil⟩
  exact Document.schemas_eq_ok.2 ⟨_, hcomponents, .nil⟩

/-- Paths that are not the same in normal form can be read side by side. -/
theorem reads_assembles {paths : List String} (h : (paths.map PathTemplate.normalForm).Nodup) :
    ∃ out, Document.assemble ⟨[]⟩ (reads paths) = .ok out
      ∧ ∀ path ∈ paths, ∃ object,
        ((PathTemplate.normalForm path, .get), object) ∈ entries out.paths := by
  have hslots : ((reads paths).operations.map Document.slot).Nodup := by
    refine List.Nodup.of_map Prod.fst ?_
    have hmaps : ((reads paths).operations.map Document.slot).map Prod.fst
        = paths.map PathTemplate.normalForm := by
      simp only [reads, List.map_map]
      rfl
    rw [hmaps]
    exact h
  obtain ⟨found, hfound⟩ := Document.exists_paths (T := ⟨[]⟩) hslots fun op hop => by
    obtain ⟨path, _, rfl⟩ := List.mem_map.1 hop
    exact Document.exists_operationObject_bare .get path ""
  refine ⟨_, bind_eq_ok.2 ⟨found, hfound, bind_eq_ok.2 ⟨_, schemas_reads paths, rfl⟩⟩, ?_⟩
  intro path hpath
  have hop : Operation.bare .get path "" ∈ (reads paths).operations := List.mem_map_of_mem hpath
  obtain ⟨object, hobject⟩ := Document.exists_operationObject hfound hop
  exact ⟨object, mem_entries.2 ((Document.operationAt_paths hfound).2 ⟨_, hop, rfl, hobject⟩)⟩

theorem normalForm_users : PathTemplate.normalForm "/users" = "/users" :=
  PathTemplate.normalForm_of_not_mem (by decide)

theorem normalForm_word : PathTemplate.normalForm "/users/id" = "/users/id" :=
  PathTemplate.normalForm_of_not_mem (by decide)

theorem normalForm_parameter : PathTemplate.normalForm "/users/:id" = "/users/\x7bid\x7d" := by
  show String.ofList (PathTemplate.braced ['/', 'u', 's', 'e', 'r', 's', '/', ':', 'i', 'd']) = _
  simp [PathTemplate.braced, PathTemplate.parameterName]

theorem plainPath_users : PlainPath "/users".toList := by
  refine ⟨["users".toList], fun w hw => ?_, by decide⟩
  rw [List.mem_singleton.1 hw]
  decide

theorem plainPath_parameter : PlainPath "/users/\x7bid\x7d".toList := by
  refine ⟨["users".toList, "id".toList], fun w hw => ?_, by decide⟩
  simp only [List.mem_cons, List.not_mem_nil, or_false] at hw
  rcases hw with rfl | rfl
  · decide
  · decide

end Example

namespace Document

variable {T : TypeTable} {doc : Document}

/-- A parameter and a word of the same name make two paths, and one identifier. -/
theorem parameter_and_word_share_id :
    ∃ (out : OpenApi.Document) (a b : (String × Method) × OperationObject),
      assemble ⟨[]⟩ (Example.reads ["/users/:id", "/users/id"]) = .ok out
      ∧ a ∈ entries out.paths ∧ b ∈ entries out.paths
      ∧ a.1 = ("/users/\x7bid\x7d", .get) ∧ b.1 = ("/users/id", .get)
      ∧ a.2.operationId = "getUsersId" ∧ b.2.operationId = "getUsersId" := by
  have hpaths : (["/users/:id", "/users/id"].map PathTemplate.normalForm).Nodup := by
    rw [List.map_cons, List.map_cons, List.map_nil, Example.normalForm_parameter,
      Example.normalForm_word]
    decide
  obtain ⟨out, hout, hthere⟩ := Example.reads_assembles hpaths
  obtain ⟨x, hx⟩ := hthere "/users/:id" (by simp)
  obtain ⟨y, hy⟩ := hthere "/users/id" (by simp)
  rw [Example.normalForm_parameter] at hx
  rw [Example.normalForm_word] at hy
  refine ⟨out, _, _, hout, hx, hy, rfl, rfl, ?_, ?_⟩
  · rw [operationId_of_mem_entries hout hx]
    show PathTemplate.operationId .get "/users/\x7bid\x7d" = "getUsersId"
    decide
  · rw [operationId_of_mem_entries hout hy]
    show PathTemplate.operationId .get "/users/id" = "getUsersId"
    decide

/-- **Which operations of a document share an identifier.** Two operations of a finished document do
exactly if they have one method and the words of their paths, run together, are the same. If the
paths are made of plain words, bare or as parameters, that means that the paths are the same but for
the braces of parameters. -/
theorem operation_ids_coincide {out : OpenApi.Document} (h : assemble T doc = .ok out)
    {a b : (String × Method) × OperationObject} (ha : a ∈ entries out.paths)
    (hb : b ∈ entries out.paths) :
    (a.2.operationId = b.2.operationId
        ↔ a.1.2 = b.1.2 ∧ identifier a.1.1.toList = identifier b.1.1.toList)
      ∧ (PlainPath a.1.1.toList → PlainPath b.1.1.toList →
        (a.2.operationId = b.2.operationId
          ↔ a.1.2 = b.1.2 ∧ unbraced a.1.1.toList = unbraced b.1.1.toList)) := by
  have hids : a.2.operationId = b.2.operationId
      ↔ a.1.2 = b.1.2 ∧ identifier a.1.1.toList = identifier b.1.1.toList := by
    rw [operationId_of_mem_entries h ha, operationId_of_mem_entries h hb, operationId_eq_iff]
  refine ⟨hids, fun hplain hplain' => ?_⟩
  rw [hids, PathTemplate.identifier_eq_iff_of_plainPath hplain hplain']

/-- All users and one of them are told apart. -/
theorem operation_ids_coincide_reads :
    ∃ (out : OpenApi.Document) (a b : (String × Method) × OperationObject),
      assemble ⟨[]⟩ (Example.reads ["/users", "/users/:id"]) = .ok out
      ∧ a ∈ entries out.paths ∧ b ∈ entries out.paths
      ∧ a.1 = ("/users", .get) ∧ b.1 = ("/users/\x7bid\x7d", .get)
      ∧ a.2.operationId ≠ b.2.operationId := by
  have hpaths : (["/users", "/users/:id"].map PathTemplate.normalForm).Nodup := by
    rw [List.map_cons, List.map_cons, List.map_nil, Example.normalForm_users,
      Example.normalForm_parameter]
    decide
  obtain ⟨out, hout, hthere⟩ := Example.reads_assembles hpaths
  obtain ⟨x, hx⟩ := hthere "/users" (by simp)
  obtain ⟨y, hy⟩ := hthere "/users/:id" (by simp)
  rw [Example.normalForm_users] at hx
  rw [Example.normalForm_parameter] at hy
  have hids := (operation_ids_coincide hout hx hy).2 Example.plainPath_users
    Example.plainPath_parameter
  refine ⟨out, _, _, hout, hx, hy, rfl, rfl, fun hsame => ?_⟩
  have hunbraced : unbraced "/users".toList = unbraced "/users/\x7bid\x7d".toList :=
    (hids.1 hsame).2
  exact absurd hunbraced (by decide)

end Document

end ApiAtlas
