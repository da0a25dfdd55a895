import ApiAtlas.Rendering

/-!
# Rendering sessions

A session answers many requests. It keeps a single stack of the structs whose expansion is in
progress: a struct is pushed before its properties are rendered and taken off afterwards, whether or
not they could be. `TypeTable.schemaFrom` passes the same information down as an argument; here it
is state that one request could leave behind for the next, and it is up to `within` that none does.
-/

namespace ApiAtlas

/-- An action of a session: it may fail, and it keeps the changed stack even then. -/
abbrev SessionM := ExceptT Error (StateM (List TypeId))

namespace Session

/-- One request: the schema of a descriptor where it is used, or the object of a struct whatever its
name. -/
structure Request where
  policy : Policy
  descriptor : Descriptor
  asObject : Bool

variable (T : TypeTable) (R : Registry)

/-- Run an action with a type on top of the stack, and take the top off afterwards. -/
def within {α : Type} (id : TypeId) (action : SessionM α) : SessionM α := ExceptT.mk do
  modify (id :: ·)
  let outcome ← action.run
  modify List.tail
  return outcome

/-- The schema at one site, if structs are expanded by the given action. -/
def site (expand : Descriptor → SessionM Schema) (policy : Policy) (d : Descriptor) :
    SessionM Schema := do
  let (arrays, bottom) := T.peelArrays R d
  match ← (T.siteSchema? R policy bottom : Except Error (Option Schema)) with
  | some schema => return Schema.nested arrays schema
  | none => return Schema.nested arrays (← expand bottom)

/-- The properties that fields give, each rendered by the given action. -/
def propertiesOf (render : Descriptor → SessionM Schema) :
    List Descriptor → SessionM (List (String × Schema))
  | [] => return []
  | d :: rest => match d.propertyName with
    | none => propertiesOf render rest
    | some name => do
      let schema ← render d
      let later ← propertiesOf render rest
      return (name, schema) :: later

/-- Expand a struct, at most `depth` levels deep. -/
def expand (policy : Policy) : Nat → Descriptor → SessionM Schema
  | 0, d => throw (.endlessType d.fullName)
  | depth + 1, d => match d.facts with
    | none => throw (.defect .renderOfEmpty)
    | some i => do
      if i.id ∈ (← get) then throw (.endlessType i.fullName)
      within i.id do
        let fields ← (T.members d : Except Error (List Descriptor))
        let pairs ← propertiesOf (site T R (expand policy depth) policy) fields
        return Schema.ofProperties pairs

/-- More levels than an expansion can have: each but the first and the last opens a type of the
table for the first time. -/
def depthBound : Nat := T.structIds.length + 2

/-- The schema of a descriptor. -/
def schema (policy : Policy) (d : Descriptor) : SessionM Schema :=
  site T R (expand T R policy (depthBound T)) policy d

/-- The object of a struct, whatever its name; the policy governs its fields. -/
def object (policy : Policy) (d : Descriptor) : SessionM Schema :=
  expand T R policy (depthBound T) d

/-- The outcome of one request. -/
def answer (q : Request) : StateM (List TypeId) (Except Error Schema) :=
  if q.asObject then (object T R q.policy q.descriptor).run
  else (schema T R q.policy q.descriptor).run

/-- The outcomes of requests one after the other, and the stack that they leave. -/
def answers (qs : List Request) : StateM (List TypeId) (List (Except Error Schema)) :=
  qs.mapM (answer T R)

end Session

end ApiAtlas
