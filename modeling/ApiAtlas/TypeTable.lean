import ApiAtlas.Field
import ApiAtlas.Unvisited

/-!
# Tables of type definitions

A finite table gives every key the definition of one type. All that is known about a type follows
from the table and the type's expression: what it is at bottom (`underlying`), its kind, its element
and its fields. A newtype is its inner type under another name, so `underlying` follows newtypes to
the first type that is none. If newtypes lead back to one of them there is no such type: to describe
it is a run without end. `isCircular` tells these types; they have no kind and no element.
-/

namespace ApiAtlas

/-- What a defined type is. -/
inductive TypeBody where
  /-- A struct with its fields in order of declaration. -/
  | struct (fields : List Field)
  /-- Another type under a new name. -/
  | newtype (inner : TypeExpr)
  /-- A choice of names, written as a text. -/
  | enumeration
  /-- A type described by hand: any kind, perhaps with an element type, and no fields. -/
  | raw (kind : Kind) (element : Option TypeExpr)
deriving DecidableEq, Repr

/-- A defined type: its declared name (none for an anonymous type), its full name for diagnostics,
and whether it is visible outside its module. -/
structure TypeDef where
  name : Option String
  fullName : String
  exported : Bool
  body : TypeBody
deriving DecidableEq, Repr

/-- A struct that only a rule gives a form: named, exported, without fields. -/
def TypeDef.placeholder (name : Option String) (fullName : String) : TypeDef :=
  ⟨name, fullName, true, .struct []⟩

/-- The definitions by key. -/
structure TypeTable where
  defs : List (String × TypeDef)
deriving DecidableEq, Repr

namespace TypeTable

variable (T : TypeTable)

/-- The definition of a key. -/
def find? (key : String) : Option TypeDef := T.defs.lookup key

/-- The keys of the table. -/
def keys : List String := T.defs.map Prod.fst

theorem mem_keys_of_find? {T : TypeTable} {key : String} {d : TypeDef} (h : T.find? key = some d) :
    key ∈ T.keys := by
  obtain ⟨defs⟩ := T
  simp only [find?, keys] at *
  induction defs with
  | nil => simp at h
  | cons e rest ih =>
    rw [List.lookup_cons] at h
    by_cases he : key = e.1
    · simp [he]
    · rw [beq_false_of_ne he] at h
      exact List.mem_cons_of_mem _ (ih h)

/-- The inner type of a newtype. -/
def newtype? (key : String) : Option TypeExpr :=
  (T.find? key).bind fun d => match d.body with
    | .newtype inner => some inner
    | _ => none

theorem mem_keys_of_newtype? {T : TypeTable} {key : String} {inner : TypeExpr}
    (h : T.newtype? key = some inner) : key ∈ T.keys := by
  obtain ⟨d, hd, _⟩ := Option.bind_eq_some_iff.1 h
  exact mem_keys_of_find? hd

/-- The type that a type is behind its newtypes, and whether an option is met on the way there;
none if the newtypes in `visited` are led back to. -/
def underlyingFrom (visited : List String) (t : TypeExpr) : Option (TypeId × Bool) :=
  match t.core with
  | .named key =>
    match _hn : T.newtype? key with
    | some inner =>
      if _hv : key ∈ visited then none
      else
        (underlyingFrom (key :: visited) inner).map fun u => (u.1, t.isOptional || u.2)
    | none => some (.named key, t.isOptional)
  | u => some (u, t.isOptional)
termination_by unvisited T.keys visited
decreasing_by exact unvisited_cons_lt (mem_keys_of_newtype? _hn) _hv

/-- Whether the newtypes behind a type lead back to one of them. -/
def isCircular (t : TypeExpr) : Bool := (T.underlyingFrom [] t).isNone

/-- The type that a type is behind its newtypes; no type at all if they are circular. -/
def underlying (t : TypeExpr) : TypeId := ((T.underlyingFrom [] t).map Prod.fst).getD .empty

/-- What is no newtype is what it is. -/
theorem underlying_of_not_newtype {T : TypeTable} {key : String} (h : T.newtype? key = none) :
    T.underlying (.named key) = .named key := by
  unfold underlying underlyingFrom
  simp only [TypeExpr.core]
  split
  next hd => rw [h] at hd; cases hd
  · rfl

/-- Whether an option stands around a type or inside the newtypes that lead to it. -/
def isNullable (t : TypeExpr) : Bool := ((T.underlyingFrom [] t).map Prod.snd).getD false

/-- The kind of a type; none for no type and for a key without a definition. -/
def kind? (t : TypeExpr) : Option Kind :=
  match T.underlying t with
  | .empty => none
  | .primitive p => some p.kind
  | .named key => (T.find? key).bind fun d => match d.body with
    | .struct _ => some .struct
    | .enumeration => some .string
    | .raw kind _ => some kind
    | .newtype _ => none
  | .sequence _ _ | .array _ _ => some .slice
  | .dictionary _ _ => some .map
  | .option _ | .pointer _ _ => none

/-- The item type of a slice or the value type of a map. -/
def element? (t : TypeExpr) : Option TypeExpr :=
  match T.underlying t with
  | .primitive .jsonMap => some (.primitive .value)
  | .named key => (T.find? key).bind fun d => match d.body with
    | .raw _ element => element
    | _ => none
  | .sequence _ item | .array item _ => some item
  | .dictionary _ value => some value
  | _ => none

/-- The declared fields of a type. Only defined types have any. -/
def fields : TypeId → List Field
  | .named key =>
    match T.underlying (.named key) with
    | .named key => match T.find? key with
      | some ⟨_, _, _, .struct fields⟩ => fields
      | _ => []
    | _ => []
  | _ => []

/-- The identities that can have fields. -/
def structIds : List TypeId := T.keys.map .named

/-- The full name of a type, for diagnostics. -/
def fullName : TypeExpr → String
  | .empty => "<empty>"
  | .primitive p => p.fullName
  | .named key => match T.find? key with
    | some d => d.fullName
    | none => "<empty>"
  | .option t => "core::option::Option<" ++ fullName t ++ ">"
  | .pointer p t => p.fullName ++ "<" ++ fullName t ++ ">"
  | .sequence s t => s.fullName ++ "<" ++ fullName t ++ ">"
  | .array t n => "[" ++ fullName t ++ "; " ++ toString n ++ "]"
  | .dictionary d t => d.fullName ++ "<alloc::string::String, " ++ fullName t ++ ">"

theorem fullName_of_find? {T : TypeTable} {key : String} {d : TypeDef}
    (h : T.find? key = some d) : T.fullName (.named key) = d.fullName := by
  show (match T.find? key with | some d => d.fullName | none => "<empty>") = _
  rw [h]

/-- The declared name of a type. -/
def name? : TypeId → Option String
  | .primitive p => p.name?
  | .named key => (T.find? key).bind (·.name)
  | _ => none

/-- Whether a type is visible outside its module. -/
def isExported : TypeId → Bool
  | .named key => ((T.find? key).map (·.exported)).getD true
  | _ => true

/-- A type with fields is one of the table's keys. -/
theorem mem_structIds_of_fields {T : TypeTable} {id : TypeId} (h : T.fields id ≠ []) :
    id ∈ T.structIds := by
  unfold fields at h
  split at h
  next key =>
    refine List.mem_map_of_mem (Decidable.byContradiction fun hk => h ?_)
    -- without a definition the key is not a newtype either, so it is its own underlying type
    have hfind : T.find? key = none := by
      rcases hf : T.find? key with _ | d
      · rfl
      · exact absurd (mem_keys_of_find? hf) hk
    have hnew : T.newtype? key = none := by simp [newtype?, hfind]
    have hund := underlying_of_not_newtype hnew
    simp [hund, hfind]
  -- no other identity has fields
  · exact absurd rfl h

end TypeTable

end ApiAtlas
