import ApiAtlas.Descriptor
import ApiAtlas.Error

/-!
# Members

The members of a struct are the fields that take part in its schema, in order of declaration: the
visible ones, as descriptors that carry their field. A flattened field is replaced in place by the
members of its own type. A struct that flattens itself would never end; it is an error, found when a
type is met on the path of types that are being flattened into one another. The path only ever holds
types of the table, each once, which is why the walk ends. There is no end where a visible field has
a type of circular newtypes: nothing stops its description.
-/

namespace ApiAtlas.TypeTable

variable (T : TypeTable)

mutual

/-- The members of a descriptor's type, which is reached through the flattened types in `path`. -/
def membersFrom (path : List TypeId) (d : Descriptor) : Except Error (List Descriptor) :=
  match d.facts with
  | none => .error (.defect .walkOfEmpty)
  | some i =>
    if i.id ∈ path then .error (.endlessType i.fullName)
    else membersOf (i.id :: path) i.fullName (T.fields i.id)
termination_by (unvisited T.structIds path, 1)
decreasing_by
  -- a type with fields is a new one of the table; one without leaves nothing to go through
  by_cases hf : T.fields i.id = []
  · have hle := unvisited_cons_le T.structIds path i.id
    rw [hf]
    rcases Nat.lt_or_eq_of_le hle with hlt | heq
    · exact Prod.Lex.left _ _ hlt
    · rw [heq]; exact Prod.Lex.right _ (by simp)
  · exact Prod.Lex.left _ _ (unvisited_cons_lt (mem_structIds_of_fields hf) ‹_›)

/-- The members that the given fields of the struct called `owner` make. -/
def membersOf (path : List TypeId) (owner : String) : List Field →
    Except Error (List Descriptor)
  | [] => .ok []
  | f :: rest =>
    if !f.isVisible then membersOf path owner rest
    else match f.type with
      | none => .error (.defect (.untypedField f.label owner))
      | some t =>
        let d := (T.describe t).through f
        if T.isCircular t then .error .noEnd
        else if !f.flattened then do
          let later ← membersOf path owner rest
          return d :: later
        else if !d.hasKind .struct then .error (.flattenedNonStruct f.label d.fullName)
        else do
          let here ← membersFrom path d
          let later ← membersOf path owner rest
          return here ++ later
termination_by fields => (unvisited T.structIds path, 2 * fields.length)
decreasing_by all_goals exact Prod.Lex.right _ (by simp <;> omega)

end

/-- The members of the type of a descriptor. What is not a struct has none. -/
def members (d : Descriptor) : Except Error (List Descriptor) := T.membersFrom [] d

/-- What declares no fields has no members. -/
theorem members_of_fields_eq_nil {T : TypeTable} {d : Descriptor} {i : TypeFacts}
    (hd : d.facts = some i) (hf : T.fields i.id = []) : T.members d = .ok [] := by
  unfold members membersFrom
  simp [hd, hf, membersOf]

end ApiAtlas.TypeTable
