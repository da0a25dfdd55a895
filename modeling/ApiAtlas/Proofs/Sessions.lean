import ApiAtlas.Document.Session
import ApiAtlas.Proofs.Identity

/-!
# A session leaves no trace

A session has a stack, and a rendering a path; the stack of a session plays the part of the path as
long as every request finds it as it was left by the one before. `Gives` says of an action that it
has an outcome and restores the stack, also if the outcome is an error. Every action of a session is
of this sort, so requests do not see each other, and a document that is assembled in one session is
the document.
-/

namespace ApiAtlas

namespace Session

/-- On this stack the action has the outcome `x`, and it leaves the stack as it was. -/
def Gives {α : Type} (stack : List TypeId) (action : SessionM α) (x : Except Error α) : Prop :=
  action.run.run stack = (x, stack)

namespace Gives

variable {α β : Type} {stack : List TypeId}

theorem pure (a : α) : Gives stack (Pure.pure a : SessionM α) (.ok a) := rfl

theorem throw (e : Error) : Gives stack (MonadExcept.throw e : SessionM α) (.error e) := rfl

theorem lift (x : Except Error α) : Gives stack (liftM x : SessionM α) x := rfl

theorem get : Gives stack (MonadState.get : SessionM (List TypeId)) (.ok stack) := rfl

/-- Two actions that restore the stack, one after the other, do so as well. -/
theorem bind {action : SessionM α} {x : Except Error α} {f : α → SessionM β}
    {g : α → Except Error β} (hx : Gives stack action x)
    (hf : ∀ a, x = .ok a → Gives stack (f a) (g a)) : Gives stack (action >>= f) (x >>= g) := by
  show (match action.run.run stack with
    | (outcome, stack') => (ExceptT.bindCont f outcome).run stack') = _
  rw [hx]
  cases x with
  | error e => rfl
  | ok a => exact hf a rfl

theorem map {action : SessionM α} {x : Except Error α} (hx : Gives stack action x) (f : α → β) :
    Gives stack (action >>= fun a => Pure.pure (f a)) (x.map f) := by
  have h := hx.bind fun a _ => pure (f a)
  cases x with
  | error e => exact h
  | ok a => exact h

/-- What is put on the stack for an action is taken off after it. -/
theorem within {action : SessionM α} {x : Except Error α} {id : TypeId}
    (h : Gives (id :: stack) action x) : Gives stack (Session.within id action) x := by
  show (match action.run.run (id :: stack) with
    | (outcome, stack') => (outcome, stack'.tail)) = _
  rw [h]
  rfl

end Gives

/-! ## Requests -/

variable {T : TypeTable} {R : Registry} {policy : Policy} {stack : List TypeId}

/-- If structs are expanded as they should be, so is what stands around them. -/
theorem site_gives {expand : Descriptor → SessionM Schema}
    (h : ∀ d, Gives stack (expand d) (T.objectFrom R policy stack d)) (d : Descriptor) :
    Gives stack (site T R expand policy d) (T.schemaFrom R policy stack d) := by
  rw [TypeTable.schemaFrom_eq]
  refine (Gives.lift _).bind fun o _ => ?_
  cases o with
  | some schema => exact Gives.pure _
  | none => exact (h _).map _

theorem propertiesOf_gives {render : Descriptor → SessionM Schema}
    (h : ∀ d, Gives stack (render d) (T.schemaFrom R policy stack d)) (ms : List Descriptor) :
    Gives stack (propertiesOf render ms) (T.propertiesFrom R policy stack ms) := by
  induction ms with
  | nil =>
    rw [TypeTable.propertiesFrom]
    exact Gives.pure _
  | cons m rest ih =>
    rw [TypeTable.propertiesFrom, propertiesOf]
    cases m.propertyName with
    | none => exact ih
    | some name => exact (h m).bind fun _ _ => ih.bind fun _ _ => Gives.pure _

/-- An expansion that is allowed more levels than there are types left to enter goes as deep as it
has to. -/
theorem expand_gives {depth : Nat} {d : Descriptor} (h : unvisited T.structIds stack < depth) :
    Gives stack (expand T R policy depth d) (T.objectFrom R policy stack d) := by
  induction depth generalizing stack d with
  | zero => omega
  | succ depth ih =>
    rw [expand]
    cases hi : d.facts with
    | none =>
      rw [TypeTable.objectFrom_of_no_facts hi]
      exact Gives.throw _
    | some i =>
      dsimp only
      by_cases hp : i.id ∈ stack
      · rw [TypeTable.objectFrom_of_met hi hp]
        show Gives stack (MonadState.get >>= fun s => if i.id ∈ s then _ else _)
          (.ok stack >>= fun _ => .error _)
        refine Gives.get.bind fun s hs => ?_
        cases hs
        rw [if_pos hp]
        exact Gives.throw _
      · rw [TypeTable.objectFrom_eq hi hp]
        show Gives stack (MonadState.get >>= fun s => if i.id ∈ s then _ else _)
          (.ok stack >>= fun _ => _)
        refine Gives.get.bind fun s hs => ?_
        cases hs
        rw [if_neg hp]
        refine Gives.within ((Gives.lift _).bind fun ms hms => ?_)
        have hproperties : Gives (i.id :: stack)
            (propertiesOf (site T R (expand T R policy depth) policy) ms)
            (T.propertiesFrom R policy (i.id :: stack) ms) := by
          by_cases hnil : T.fields i.id = []
          -- without fields there is nothing to render, however many levels are left
          · cases (TypeTable.members_of_fields_eq_nil hi hnil).symm.trans hms
            rw [TypeTable.propertiesFrom]
            exact Gives.pure _
          · have hlt := unvisited_cons_lt (TypeTable.mem_structIds_of_fields hnil) hp
            exact propertiesOf_gives (site_gives fun d => ih (by omega)) ms
        exact hproperties.bind fun _ _ => Gives.pure _

theorem unvisited_lt_depthBound (stack : List TypeId) :
    unvisited T.structIds stack < depthBound T := by
  have hle : unvisited T.structIds stack ≤ T.structIds.length := List.countP_le_length
  unfold depthBound
  omega

/-- **A request is a rendering** that starts inside the types on the stack. -/
theorem schema_gives (d : Descriptor) :
    Gives stack (schema T R policy d) (T.schemaFrom R policy stack d) :=
  site_gives (fun _ => expand_gives (unvisited_lt_depthBound stack)) d

theorem object_gives (d : Descriptor) :
    Gives stack (object T R policy d) (T.objectFrom R policy stack d) :=
  expand_gives (unvisited_lt_depthBound stack)

/-- The outcome of a request in which structs on the stack count as being in expansion. -/
def outcome (T : TypeTable) (R : Registry) (stack : List TypeId) (q : Request) :
    Except Error Schema :=
  if q.asObject then T.objectFrom R q.policy stack q.descriptor
  else T.schemaFrom R q.policy stack q.descriptor

theorem answer_run (q : Request) : (answer T R q).run stack = (outcome T R stack q, stack) := by
  unfold answer outcome
  cases q.asObject with
  | true => exact object_gives q.descriptor
  | false => exact schema_gives q.descriptor

/-- Every request of a sequence finds the stack as the first one found it. -/
theorem answers_run (qs : List Request) :
    (answers T R qs).run stack = (qs.map (outcome T R stack), stack) := by
  induction qs with
  | nil => rfl
  | cons q rest ih =>
    unfold answers at ih ⊢
    rw [List.mapM_cons]
    show (match (answer T R q).run stack with
      | (first, stack') => match (rest.mapM (answer T R)).run stack' with
        | (later, stack'') => (first :: later, stack'')) = _
    rw [answer_run]
    dsimp only
    rw [ih]
    rfl

/-- **Requests leave no trace.** Whatever a request asks for, and whether or not it fails, it leaves the
stack as it was. So each of a sequence of requests has the outcome that it has alone, in a new session;
and there it is the rendering. -/
theorem requests_leave_no_trace (T : TypeTable) (R : Registry) :
    (∀ q stack, ((answer T R q).run stack).2 = stack)
      ∧ (∀ qs stack, (answers T R qs).run stack
        = (qs.map fun q => ((answer T R q).run stack).1, stack))
      ∧ ∀ q, ((answer T R q).run []).1 = if q.asObject then T.objectOf R q.policy q.descriptor
        else T.schemaOf R q.policy q.descriptor := by
  refine ⟨fun q stack => by rw [answer_run], fun qs stack => ?_, fun q => by rw [answer_run]; rfl⟩
  rw [answers_run]
  simp only [answer_run]

end Session

/-! ## One session for all operations -/

namespace Document

open Session (Gives)

variable {T : TypeTable} {doc : Document}

theorem requestBody_gives (op : Operation) :
    Gives [] (InSession.requestBody T doc op) (requestBody T doc op) := by
  unfold InSession.requestBody requestBody
  split
  · exact (Session.schema_gives _).bind fun _ _ => Gives.pure _
  · exact Gives.pure _

theorem responseObjects_gives (id : String) (done : Keyed String OpenApi.ResponseObject)
    (rs : List Response) : Gives [] (InSession.responseObjects T doc id done rs)
      (responseObjects T doc id done rs) := by
  have hone (r : Response) :
      Gives [] (InSession.responseObject T doc r) (responseObject T doc r) := by
    unfold InSession.responseObject responseObject
    dsimp only
    split
    · exact Gives.pure _
    · exact (Session.schema_gives _).bind fun _ _ => Gives.pure _
  induction rs generalizing done with
  | nil => exact Gives.pure _
  | cons r rest ih =>
    rw [InSession.responseObjects, responseObjects]
    refine (hone r).bind fun object _ => ?_
    split
    · exact Gives.throw _
    · exact ih _

theorem parameters_gives (op : Operation) :
    Gives [] (InSession.parameters T doc op) (parameters T doc op) := by
  have hof (ds : List Descriptor) :
      Gives [] (InSession.parametersOf T doc ds) (parametersOf T doc ds) := by
    induction ds with
    | nil => exact Gives.pure _
    | cons d rest ih =>
      rw [InSession.parametersOf, parametersOf]
      cases placement d with
      | none => exact ih
      | some p => exact (Session.schema_gives _).bind fun _ _ => ih.bind fun _ _ => Gives.pure _
  unfold InSession.parameters parameters
  dsimp only
  split
  · exact (Gives.lift _).bind fun ds _ => hof ds
  · exact Gives.pure _

/-- An operation in a session is the operation by itself. -/
theorem operationObject_gives (op : Operation) :
    Gives [] (InSession.operationObject T doc op) (operationObject T doc op) :=
  (requestBody_gives op).bind fun _ _ => (responseObjects_gives _ _ _).bind fun _ _ =>
    (parameters_gives op).bind fun _ _ => Gives.pure _

/-- **Operations that share a session do not see each other.** -/
theorem paths_gives (T : TypeTable) (doc : Document) :
    Gives [] (InSession.paths T doc) (paths T doc) := by
  have hfrom (ops : List Operation) : ∀ start : SortedMap OpenApi.PathItem,
      Gives [] (InSession.pathsFrom T doc start ops) (pathsFrom T doc start ops) := by
    induction ops with
    | nil => intro start; exact Gives.pure _
    | cons op rest ih =>
      intro start
      rw [InSession.pathsFrom, pathsFrom]
      refine (operationObject_gives op).bind fun object _ => ?_
      dsimp only
      split
      · exact Gives.throw _
      · exact ih _
  exact hfrom _ _

end Document

end ApiAtlas
