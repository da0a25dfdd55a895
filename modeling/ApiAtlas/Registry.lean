import ApiAtlas.Error
import ApiAtlas.Rule

/-!
# Rule registries

A registry gives rules to types and, for types without one, to kinds. The most recent registration
wins. A type with a rule of its own is a data type: it renders through that rule whatever its kind,
and nothing looks inside it.
-/

namespace ApiAtlas

/-- The rules by type and by kind, the most recent first. -/
structure Registry where
  byType : List (TypeId × Rule)
  byKind : List (Kind × Rule)

namespace Registry

/-- No rules at all. -/
def empty : Registry := ⟨[], []⟩

/-- Install a rule for every type of a kind that has none of its own. -/
def withKindRule (R : Registry) (k : Kind) (r : Rule) : Registry :=
  { R with byKind := (k, r) :: R.byKind }

/-- Install a rule for one type. The canonical primitive of a kind speaks for its whole kind; no
type at all is ignored. -/
def withTypeRule (R : Registry) (d : Descriptor) (r : Rule) : Registry :=
  match d.facts with
  | none => R
  | some i =>
    let R := if i.kind.canonical?.map TypeExpr.primitive = some i.id then R.withKindRule i.kind r
      else R
    { R with byType := (i.id, r) :: R.byType }

/-- The descriptors of the types with a built-in rule; they are the same in every table. -/
def builtinDescriptors : List Descriptor :=
  Rule.builtinIds.map (TypeTable.describe ⟨[]⟩)

/-- The registry of the built-in rules. -/
def builtin : Registry :=
  let R := builtinDescriptors.foldl
    (fun R d => R.withTypeRule d (Rule.builtin (d.id?.getD .empty) [])) empty
  (R.withKindRule .map (Rule.typed "object" "")).withKindRule .any Rule.nothing

/-- The rule of a descriptor: its type's, or else its kind's. -/
def rule? (R : Registry) (d : Descriptor) : Option Rule :=
  d.facts.bind fun i => (R.byType.lookup i.id).or (R.byKind.lookup i.kind)

/-- Whether a rule is known for exactly this type. -/
def hasTypeRule (R : Registry) (d : Descriptor) : Bool :=
  match d.facts with
  | none => false
  | some i => (R.byType.lookup i.id).isSome

/-- The attributes that the rule of a descriptor writes. -/
def attributesOf (R : Registry) (T : TypeTable) (d : Descriptor) : Except Error Attributes :=
  match d.facts with
  | none => .error (.defect .lookupOfEmpty)
  | some i => match R.rule? d with
    | some r => .ok (r.run T d)
    | none => .error (.noRule i.kind i.fullName)

end Registry

end ApiAtlas
