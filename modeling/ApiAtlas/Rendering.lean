import ApiAtlas.Element
import ApiAtlas.Members
import ApiAtlas.Policy
import ApiAtlas.Registry
import ApiAtlas.Schema

/-!
# Rendering

The schema of a descriptor at one use site. A data type renders through its rule, a slice as an
array of its element, a struct as an object or, if it has a name and the policy of the site does not
ask to expand it, as a reference; everything else needs a rule.

An object holds a property for each visible field with a serialized name. The structs whose
expansion is in progress form a path; to meet one of them again is an error, and the path only ever
grows by types of the table. Nothing of the kind is done about slices: where they hold each other in
a circle, rendering has no end.
-/

namespace ApiAtlas

/-- The schema of a data type, or of a type that a rule of its kind renders. -/
def Registry.dataSchema (R : Registry) (T : TypeTable) (d : Descriptor) : Except Error Schema :=
  (R.attributesOf T d).map .data

namespace TypeTable

variable (T : TypeTable) (R : Registry)

/-- The descriptor to render after all arrays around it, and their number. -/
def peelArrays (d : Descriptor) : Nat × Descriptor := T.peel R.hasTypeRule d

/-- What the type at one site comes to, once the arrays around it are gone: a finished schema, or a
struct that has to be expanded, for which there is none yet. -/
def siteSchema? (policy : Policy) (d : Descriptor) : Except Error (Option Schema) :=
  match d.facts with
  | none => .error (.defect .renderOfEmpty)
  | some i =>
    if R.hasTypeRule d then (R.dataSchema T d).map some
    else match i.kind with
      -- a slice that is left behind all slices has no element, or the next one is never reached
      | .slice => match T.element? i.id with
        | none => .error (.defect (.sliceWithoutElement i.fullName))
        | some _ => .error .noEnd
      | .struct =>
        if T.fields i.id = [] then .ok (some (.object []))
        else match d.name? with
          | some name => if policy d then .ok none else .ok (some (.ref name))
          | none => .ok none
      | _ => (R.dataSchema T d).map some

mutual

/-- The schema of a descriptor inside the expansion of the types in `path`. -/
def schemaFrom (policy : Policy) (path : List TypeId) (d : Descriptor) : Except Error Schema :=
  let (arrays, bottom) := T.peelArrays R d
  match T.siteSchema? R policy bottom with
  | .error e => .error e
  | .ok (some schema) => .ok (Schema.nested arrays schema)
  | .ok none => (objectFrom policy path bottom).map (Schema.nested arrays)
termination_by (unvisited T.structIds path, 2)
decreasing_by exact Prod.Lex.right _ (by decide)

/-- The object of a struct inside the expansion of the types in `path`. -/
def objectFrom (policy : Policy) (path : List TypeId) (d : Descriptor) :
    Except Error Schema :=
  match _hi : d.facts with
  | none => .error (.defect .renderOfEmpty)
  | some i =>
    if i.id ∈ path then .error (.endlessType i.fullName)
    else match _hf : T.members d with
      | .error e => .error e
      | .ok fields =>
        (propertiesFrom policy (i.id :: path) fields).map Schema.ofProperties
termination_by (unvisited T.structIds path, 1)
decreasing_by
  -- a struct with fields is a new one of the table; one without has no fields to render
  by_cases hnil : T.fields i.id = []
  · cases (members_of_fields_eq_nil _hi hnil).symm.trans _hf
    rcases Nat.lt_or_eq_of_le (unvisited_cons_le T.structIds path i.id) with hlt | heq
    · exact Prod.Lex.left _ _ hlt
    · rw [heq]; exact Prod.Lex.right _ (by decide)
  · exact Prod.Lex.left _ _ (unvisited_cons_lt (mem_structIds_of_fields hnil) ‹_›)

/-- The properties that fields give, in order and with repetitions. -/
def propertiesFrom (policy : Policy) (path : List TypeId) :
    List Descriptor → Except Error (List (String × Schema))
  | [] => .ok []
  | d :: rest => match d.propertyName with
    | none => propertiesFrom policy path rest
    | some name => do
      let schema ← schemaFrom policy path d
      let later ← propertiesFrom policy path rest
      return (name, schema) :: later
termination_by fields => (unvisited T.structIds path, 3 * fields.length)
decreasing_by all_goals exact Prod.Lex.right _ (by simp <;> omega)

end

/-- The schema of a descriptor. -/
def schemaOf (policy : Policy) (d : Descriptor) : Except Error Schema := T.schemaFrom R policy [] d

/-- The object of a struct, whatever its name; the policy governs its fields. -/
def objectOf (policy : Policy) (d : Descriptor) : Except Error Schema :=
  T.objectFrom R policy [] d

end TypeTable

end ApiAtlas
