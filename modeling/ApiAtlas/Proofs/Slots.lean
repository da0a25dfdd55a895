import Mathlib.Data.List.Duplicate
import ApiAtlas.Proofs.Failures
import ApiAtlas.Proofs.InsertionOrder
import ApiAtlas.Proofs.References
import ApiAtlas.Proofs.Sessions
import ApiAtlas.Proofs.SortedMaps

/-!
# Every operation in a slot of its own

A path and a method make a slot, and a finished document holds at most one operation in each. Read
in the order in which they are written (`entries`), the slots of a finished document are those of
the operations that were added, sorted: by path and, within one, by the rank of the method. So none
is lost, none is there twice and none was made up.

A slot that is taken is the one reason for which operations that can each be finished make no
document, and the error that says so is raised for no other.
-/

namespace ApiAtlas

namespace OpenApi

/-- The operations of a path item in the order in which they are written. -/
def PathItem.listed (item : PathItem) : List (Method × OperationObject) :=
  Method.all.filterMap fun m => (item.operation? m).map fun object => (m, object)

/-- All operations by slot, in the order in which they are written. -/
def entries (paths : SortedMap PathItem) : List ((String × Method) × OperationObject) :=
  paths.toList.flatMap fun e => e.2.listed.map fun o => ((e.1, o.1), o.2)

/-- The order of slots: by path, then by the rank of the method. -/
def Before (a b : String × Method) : Prop :=
  a.1 < b.1 ∨ a.1 = b.1 ∧ a.2.rank < b.2.rank

theorem Before.irrefl (a : String × Method) : ¬ Before a a := by
  rintro (h | ⟨_, h⟩)
  · exact String.lt_irrefl _ h
  · exact Nat.lt_irrefl _ h

theorem Before.asymm {a b : String × Method} (hab : Before a b) : ¬ Before b a := by
  intro hba
  rcases hab with hab | ⟨hpath, hab⟩
  · rcases hba with hba | ⟨hpath, _⟩
    · exact absurd (String.lt_trans hab hba) (String.lt_irrefl _)
    · rw [hpath] at hab
      exact absurd hab (String.lt_irrefl _)
  · rcases hba with hba | ⟨_, hba⟩
    · rw [hpath] at hba
      exact absurd hba (String.lt_irrefl _)
    · omega

instance : Std.Irrefl Before := ⟨Before.irrefl⟩

instance : Std.Antisymm Before := ⟨fun _ _ hab hba => absurd hba hab.asymm⟩

instance {α : Type} : Std.Irrefl fun a b : (String × Method) × α => Before a.1 b.1 :=
  ⟨fun a => Before.irrefl a.1⟩

instance {α : Type} : Std.Antisymm fun a b : (String × Method) × α => Before a.1 b.1 :=
  ⟨fun _ _ hab hba => absurd hba hab.asymm⟩

/-- A path item is written operation by operation. -/
theorem PathItem.toValue_eq (item : PathItem) :
    item.toValue = .map (item.listed.map fun o => (o.1.lower, o.2.toValue)) := by
  unfold PathItem.toValue PathItem.listed
  congr 1
  generalize Method.all = methods
  induction methods with
  | nil => rfl
  | cons m rest ih =>
    rw [List.flatMap_cons, ih, List.filterMap_cons]
    cases item.operation? m with
    | none => rfl
    | some object => rfl

theorem PathItem.mem_listed {item : PathItem} {m : Method} {object : OperationObject} :
    (m, object) ∈ item.listed ↔ item.operation? m = some object := by
  have hall : m ∈ Method.all := by cases m <;> decide
  simp only [PathItem.listed, List.mem_filterMap, Option.map_eq_some_iff, Prod.mk.injEq]
  constructor
  · rintro ⟨m', _, object', hobject, rfl, rfl⟩
    exact hobject
  · intro hobject
    exact ⟨m, hall, object, hobject, rfl, rfl⟩

theorem mem_entries {paths : SortedMap PathItem} {path : String} {m : Method}
    {object : OperationObject} :
    ((path, m), object) ∈ entries paths ↔ operationAt paths path m = some object := by
  unfold entries operationAt
  simp only [List.mem_flatMap, List.mem_map, Prod.mk.injEq, Option.bind_eq_some_iff]
  constructor
  · rintro ⟨⟨path', item⟩, he, ⟨m', object'⟩, ho, ⟨rfl, rfl⟩, rfl⟩
    exact ⟨item, SortedMap.get?_eq_some.2 he, PathItem.mem_listed.1 ho⟩
  · rintro ⟨item, hitem, hobject⟩
    exact ⟨(path, item), SortedMap.get?_eq_some.1 hitem, (m, object), PathItem.mem_listed.2 hobject,
      ⟨rfl, rfl⟩, rfl⟩

theorem rank_lt_all : Method.all.Pairwise fun m n => m.rank < n.rank := by decide

/-- What is written ascends by slot. -/
theorem entries_ascending (paths : SortedMap PathItem) :
    ((entries paths).map Prod.fst).Pairwise Before := by
  unfold entries
  rw [List.pairwise_map, List.pairwise_flatMap]
  constructor
  · intro e _
    rw [List.pairwise_map, PathItem.listed, List.pairwise_filterMap]
    refine rank_lt_all.imp fun {m n} hmn o ho o' ho' => .inr ⟨rfl, ?_⟩
    obtain ⟨object, _, rfl⟩ := Option.map_eq_some_iff.1 ho
    obtain ⟨object', _, rfl⟩ := Option.map_eq_some_iff.1 ho'
    exact hmn
  · refine paths.ascending.imp fun {e e'} hlt x hx y hy => .inl ?_
    obtain ⟨o, _, rfl⟩ := List.mem_map.1 hx
    obtain ⟨o', _, rfl⟩ := List.mem_map.1 hy
    exact hlt

/-- Every path has an operation. -/
def Filled (paths : SortedMap PathItem) : Prop := ∀ e ∈ paths.toList, e.2.listed ≠ []

theorem filled_empty : Filled SortedMap.empty := fun _ h => by cases h

/-- The path that an operation is put in has this one, and the others are as they were. -/
theorem Filled.putOperation {paths : SortedMap PathItem} (h : Filled paths) (path : String)
    (m : Method) (object : OperationObject) : Filled (putOperation paths path m object) := by
  rintro ⟨path', item⟩ he
  have hget := SortedMap.get?_eq_some.2 he
  unfold OpenApi.putOperation at hget
  rw [SortedMap.get?_insert] at hget
  split at hget
  · cases hget
    have hlisted : (m, object) ∈ (((paths.get? path).getD PathItem.empty).withOperation m
        object).listed := by
      rw [PathItem.mem_listed, PathItem.operation?_withOperation, if_pos rfl]
    exact List.ne_nil_of_mem hlisted
  · exact h _ (SortedMap.get?_eq_some.1 hget)

end OpenApi

namespace Document

open OpenApi (Before Filled OperationObject PathItem entries entries_ascending filled_empty
  mem_entries operationAt operationAt_putOperation putOperation)

variable {T : TypeTable} {doc : Document}

/-! ## The slots of a finished document -/

/-- Operations that have slots of their own are sorted by slot. -/
theorem slots_ascending {ops : List Operation} (h : (ops.map slot).Nodup) :
    ((ops.mergeSort precedes).map slot).Pairwise Before := by
  have hnodup : ((ops.mergeSort precedes).map slot).Nodup :=
    ((List.mergeSort_perm ops precedes).map slot).nodup_iff.2 h
  have hsorted := List.pairwise_mergeSort precedes_trans precedes_total ops
  refine List.pairwise_map.2 ((hsorted.and (List.pairwise_map.1 hnodup)).imp ?_)
  rintro a b ⟨hab, hne⟩
  rcases precedes_iff.1 hab with hlt | ⟨hpath, hm⟩
  · exact .inl hlt
  · refine .inr ⟨hpath, Nat.lt_of_le_of_ne hm fun hrank => hne ?_⟩
    exact Prod.ext hpath (Method.rank_injective hrank)

/-- The slots that are written are those of the operations, sorted. -/
theorem map_fst_entries {out : SortedMap PathItem} (h : paths T doc = .ok out) :
    (entries out).map Prod.fst = (doc.operations.mergeSort precedes).map slot := by
  refine List.Pairwise.eq_of_mem_iff (entries_ascending out) (slots_ascending (nodup_slots h))
    fun s => ?_
  obtain ⟨path, m⟩ := s
  rw [List.mem_map, List.mem_map]
  constructor
  · rintro ⟨⟨s, object⟩, hmem, rfl⟩
    obtain ⟨op, hop, hslot, _⟩ := (operationAt_paths h).1 (mem_entries.1 hmem)
    exact ⟨op, List.mem_mergeSort.2 hop, hslot⟩
  · rintro ⟨op, hop, hslot⟩
    have hop := List.mem_mergeSort.1 hop
    obtain ⟨object, hobject⟩ := exists_operationObject h hop
    have hat := (operationAt_paths h).2 ⟨op, hop, hslot, hobject⟩
    exact ⟨((path, m), object), mem_entries.2 hat, rfl⟩

theorem filled_pathsFrom {start out : SortedMap PathItem} {ops : List Operation}
    (h : pathsFrom T doc start ops = .ok out) (hstart : Filled start) : Filled out := by
  induction ops generalizing start with
  | nil =>
    rw [pathsFrom] at h
    cases h
    exact hstart
  | cons op rest ih =>
    obtain ⟨object, _, _, h⟩ := pathsFrom_cons_eq_ok h
    exact ih h (hstart.putOperation _ _ _)

/-! ## Slots that are taken -/

/-- The error of a slot that is taken comes from no walk and no rendering. -/
theorem failureSites_of_no_slot (T : TypeTable) (R : Registry) :
    TypeTable.FailureSites T R (fun _ => True) fun e => ∀ m path, e ≠ .repeatedOperation m path :=
  TypeTable.failureSites_of_rendering T R fun e he m path heq => by
    rw [heq] at he
    exact he

/-- A slot that is found taken was taken before, or two of the operations have it. -/
theorem duplicate_of_pathsFrom {start : SortedMap PathItem} {ops : List Operation} {m : Method}
    {path : String} (h : pathsFrom T doc start ops = .error (.repeatedOperation m path)) :
    (operationAt start path m ≠ none ∧ (path, m) ∈ ops.map slot)
      ∨ List.Duplicate (path, m) (ops.map slot) := by
  induction ops generalizing start with
  | nil => rw [pathsFrom] at h; cases h
  | cons op rest ih =>
    cases hobject : operationObject T doc op with
    | error e =>
      rw [pathsFrom, hobject] at h
      cases h
      have hop : Renders T (fun _ => True) op := ⟨fun _ => trivial, fun _ _ _ => trivial⟩
      have hno := failsOnly_operationObject (failureSites_of_no_slot T doc.rules)
        (fun _ _ _ _ => Error.noConfusion) hop
      exact absurd rfl (hno _ hobject m path)
    | ok object =>
      rw [pathsFrom_cons hobject] at h
      split at h
      next htaken =>
        cases h
        refine .inl ⟨?_, List.mem_map.2 ⟨op, List.mem_cons_self, rfl⟩⟩
        exact Option.isSome_iff_ne_none.1 htaken
      next =>
        rw [List.map_cons]
        rcases ih h with ⟨htaken, hmem⟩ | hdup
        · rw [operationAt_putOperation] at htaken
          split at htaken
          -- this very operation took the slot
          next hslot =>
            obtain ⟨rfl, rfl⟩ := hslot
            exact .inr (List.Mem.duplicate_cons_self hmem)
          next => exact .inl ⟨htaken, List.mem_cons_of_mem _ hmem⟩
        · exact .inr (hdup.duplicate_cons _)

theorem duplicate_of_assemble {m : Method} {path : String}
    (h : assemble T doc = .error (.repeatedOperation m path)) :
    List.Duplicate (path, m) (doc.operations.map slot) := by
  cases hpaths : paths T doc with
  | ok out =>
    have hno : FailsOnly (fun e => ∀ m path, e ≠ .repeatedOperation m path) (schemas T doc) :=
      failsOnly_schemas (failureSites_of_no_slot T doc.rules) fun _ _ _ _ _ => Error.noConfusion
    have hlater : FailsOnly (fun e => ∀ m path, e ≠ .repeatedOperation m path) (assemble T doc) := by
      unfold assemble
      rw [hpaths]
      exact hno.bind fun _ _ => .ok _
    exact absurd rfl (hlater _ h m path)
  | error e =>
    have he : e = .repeatedOperation m path := by
      unfold assemble at h
      rw [hpaths] at h
      exact Except.error.inj h
    rw [he] at hpaths
    rcases duplicate_of_pathsFrom hpaths with ⟨hat, _⟩ | hdup
    · exact absurd rfl hat
    · have hperm := (List.mergeSort_perm doc.operations precedes).map slot
      have hcount := @List.Perm.count_eq _ instBEqOfDecidableEq _ _ hperm (path, m)
      refine List.duplicate_iff_two_le_count.2 ?_
      rw [← hcount]
      exact List.duplicate_iff_two_le_count.1 hdup

theorem exists_error_of_duplicate {s : String × Method}
    (h : List.Duplicate s (doc.operations.map slot)) : ∃ e, assemble T doc = .error e := by
  cases hout : assemble T doc with
  | error e => exact ⟨e, rfl⟩
  | ok out => exact absurd (nodup_slots (assemble_eq_ok hout).1) h.not_nodup

/-- **No operation is lost, made twice or changed by another one.** In a finished document every
operation stands in its slot, as it would be if it were alone, in a session just opened; the slots
that are written are those of the operations and no others, strictly ascending by path and, within
one, by the rank of the method; and each path that is written has an operation. That all operations
share a session makes no difference. Two operations with one slot make no document, and the error
that says so is raised for two such operations only. -/
theorem operations_exact (T : TypeTable) (doc : Document) :
    (∀ out, assemble T doc = .ok out →
        (∀ op ∈ doc.operations, ∃ object,
            operationAt out.paths op.template op.method = some object
              ∧ (InSession.operationObject T doc op).run.run [] = (.ok object, []))
          ∧ (entries out.paths).map Prod.fst = (doc.operations.mergeSort precedes).map slot
          ∧ ((entries out.paths).map Prod.fst).Pairwise Before
          ∧ ∀ e ∈ out.paths.toList, e.2.listed ≠ []
            ∧ e.2.toValue = .map (e.2.listed.map fun o => (o.1.lower, o.2.toValue)))
      ∧ (InSession.paths T doc).run.run [] = (paths T doc, [])
      ∧ (∀ s, List.Duplicate s (doc.operations.map slot) → ∃ e, assemble T doc = .error e)
      ∧ ∀ m path, assemble T doc = .error (.repeatedOperation m path) →
        List.Duplicate (path, m) (doc.operations.map slot) := by
  refine ⟨fun out h => ?_, paths_gives T doc, fun s hs => exists_error_of_duplicate hs,
    fun m path h => duplicate_of_assemble h⟩
  obtain ⟨hpaths, _⟩ := assemble_eq_ok h
  refine ⟨fun op hop => ?_, map_fst_entries hpaths, entries_ascending _, fun e he => ?_⟩
  · obtain ⟨object, hobject⟩ := exists_operationObject hpaths hop
    refine ⟨object, (operationAt_paths hpaths).2 ⟨op, hop, rfl, hobject⟩, ?_⟩
    rw [← hobject]
    exact operationObject_gives op
  · exact ⟨filled_pathsFrom hpaths filled_empty e he, OpenApi.PathItem.toValue_eq e.2⟩

/-- One operation is there; added twice, it makes no document, since its slot is taken. -/
theorem operations_exact_document :
    (∃ out object, assemble Example.table Example.document = .ok out
        ∧ operationAt out.paths Example.operation.template .get = some object
        ∧ (entries out.paths).map Prod.fst = [(Example.operation.template, .get)])
      ∧ assemble Example.table { Example.document with
          operations := [Example.operation, Example.operation] }
        = .error (.repeatedOperation .get Example.operation.template)
      ∧ List.Duplicate (Example.operation.template, .get)
        [slot Example.operation, slot Example.operation] := by
  obtain ⟨out, hout, _⟩ := Example.document_assembles
  obtain ⟨hthere, hslots, _, _⟩ := (operations_exact Example.table Example.document).1 out hout
  obtain ⟨object, hat, _⟩ := hthere Example.operation (List.mem_singleton_self _)
  have htwice : assemble Example.table { Example.document with
      operations := [Example.operation, Example.operation] }
      = .error (.repeatedOperation .get Example.operation.template) := by
    obtain ⟨object, hobject⟩ := Example.operation_finishes
    have hsame : operationObject Example.table { Example.document with
        operations := [Example.operation, Example.operation] } Example.operation
        = operationObject Example.table Example.document Example.operation :=
      operationObject_congr (by rfl) (by rfl) _
    have hsort : [Example.operation, Example.operation].mergeSort precedes
        = [Example.operation, Example.operation] := by
      refine List.mergeSort_of_pairwise (List.pairwise_pair.2 ?_)
      exact precedes_iff.2 (.inr ⟨rfl, Nat.le_refl _⟩)
    have hpaths : paths Example.table { Example.document with
        operations := [Example.operation, Example.operation] }
        = .error (.repeatedOperation .get Example.operation.template) := by
      have htaken : operationAt (putOperation SortedMap.empty Example.operation.template
          Example.operation.method object) Example.operation.template Example.operation.method
          = some object := by
        rw [operationAt_putOperation, if_pos ⟨rfl, rfl⟩]
      rw [paths, hsort, pathsFrom_cons (hsame.trans hobject), if_neg (by exact Bool.false_ne_true),
        pathsFrom_cons (hsame.trans hobject), htaken]
      rfl
    unfold assemble
    rw [hpaths]
    rfl
  refine ⟨⟨out, object, hout, hat, ?_⟩, htwice,
    (operations_exact Example.table _).2.2.2 _ _ htwice⟩
  rw [hslots]
  exact congrArg (List.map slot) (List.mergeSort_singleton _)

end Document

end ApiAtlas
