import ApiAtlas.TypeTable

/-!
# Descriptors

A descriptor is one observed type: its identity, names and kind, whether it may be null, and the
field through which it was reached. What lies inside a type (fields, element) is found in the type
table by identity, which is why a rule, free to look inside, is given the table as well.
-/

namespace ApiAtlas

/-- The facts about a type that hold wherever it occurs. -/
structure TypeFacts where
  id : TypeId
  fullName : String
  name : Option String
  exported : Bool
  kind : Kind
deriving DecidableEq, Repr

/-- One observed type, or nothing at all if there is no information. -/
structure Descriptor where
  facts : Option TypeFacts
  nullable : Bool
  field : Option Field
deriving DecidableEq, Repr

namespace Descriptor

/-- The descriptor of no type. It never renders. -/
def empty : Descriptor := ⟨none, false, none⟩

/-- Whether there is no type. -/
def isEmpty (d : Descriptor) : Bool := d.facts.isNone

/-- The identity of the type. -/
def id? (d : Descriptor) : Option TypeId := d.facts.map (·.id)

/-- The kind of the type. -/
def kind? (d : Descriptor) : Option Kind := d.facts.map (·.kind)

/-- Whether the type is of this kind. -/
def hasKind (d : Descriptor) (k : Kind) : Bool := d.kind? = some k

/-- The declared name; an empty name is none. -/
def name? (d : Descriptor) : Option String := (d.facts.bind (·.name)).filter (· ≠ "")

/-- The full name of the type, for diagnostics. -/
def fullName (d : Descriptor) : String := (d.facts.map (·.fullName)).getD "<empty>"

/-- Whether the type is visible outside its module. -/
def isExported (d : Descriptor) : Bool := (d.facts.map (·.exported)).getD false

/-- Whether the type was reached through a flattened field. -/
def isFlattened (d : Descriptor) : Bool := (d.field.map (·.flattened)).getD false

/-- The value of a tag of the field through which the type was reached. -/
def tag (d : Descriptor) (key : String) : Option String := d.field.bind (·.tag key)

/-- The property name of the field through which the type was reached. -/
def propertyName (d : Descriptor) : Option String := d.field.bind (·.propertyName)

/-- The descriptor reached through a field. -/
def through (d : Descriptor) (f : Field) : Descriptor := { d with field := some f }

/-- A short text for diagnostics. -/
def diagnostic (d : Descriptor) : String :=
  match d.facts with
  | some i => "TypeDescriptor\x7b" ++ i.kind.name ++ "-" ++ i.fullName ++ "\x7d"
  | none => "TypeDescriptor\x7b\x7d"

end Descriptor

namespace TypeTable

variable (T : TypeTable)

/-- The facts about a type; none for no type. -/
def facts? (t : TypeExpr) : Option TypeFacts :=
  (T.kind? t).map fun kind =>
    ⟨t.core, T.fullName t.core, T.name? t.core, T.isExported t.core, kind⟩

/-- The descriptor of a type. -/
def describe (t : TypeExpr) : Descriptor := ⟨T.facts? t, T.isNullable t, none⟩

/-- The fields that the type of a descriptor declares. -/
def ownFields (d : Descriptor) : List Field :=
  match d.facts with
  | some i => T.fields i.id
  | none => []

/-- The item type of a slice or the value type of a map, if it can be described. -/
def item? (t : TypeExpr) : Option TypeExpr := (T.element? t).filter fun item => !T.isCircular item

/-- The descriptor of the item type of a slice or the value type of a map. -/
def element (d : Descriptor) : Option Descriptor :=
  d.facts.bind fun i => (T.item? i.id).map T.describe

/-- An option is met on the way and changes nothing else. -/
theorem underlyingFrom_option (visited : List String) (t : TypeExpr) :
    T.underlyingFrom visited (.option t)
      = (T.underlyingFrom visited t).map fun u => (u.1, true) := by
  unfold underlyingFrom
  simp only [TypeExpr.core, TypeExpr.isOptional]
  split
  · split
    · split
      · rfl
      · rw [Option.map_map]
        rfl
    · rfl
  · rfl

/-- A pointer is as if it were not there. -/
theorem underlyingFrom_pointer (visited : List String) (p : Pointer) (t : TypeExpr) :
    T.underlyingFrom visited (.pointer p t) = T.underlyingFrom visited t := by
  unfold underlyingFrom
  simp only [TypeExpr.core, TypeExpr.isOptional]

theorem underlying_option (t : TypeExpr) : T.underlying (.option t) = T.underlying t := by
  unfold underlying
  rw [underlyingFrom_option, Option.map_map]
  rfl

theorem underlying_pointer (p : Pointer) (t : TypeExpr) :
    T.underlying (.pointer p t) = T.underlying t := by
  unfold underlying
  rw [underlyingFrom_pointer]

/-- An option leaves the type as it is. -/
theorem facts?_option (t : TypeExpr) : T.facts? (.option t) = T.facts? t := by
  simp only [facts?, kind?, underlying_option, TypeExpr.core]

/-- A pointer leaves the type as it is. -/
theorem facts?_pointer (p : Pointer) (t : TypeExpr) : T.facts? (.pointer p t) = T.facts? t := by
  simp only [facts?, kind?, underlying_pointer, TypeExpr.core]

end TypeTable

end ApiAtlas
