import ApiAtlas.Descriptor

/-!
# Policies

A struct with a name can be written out where it is met, or referred to by its name. A policy
decides between the two at one use site. It is not asked about what has no name.
-/

namespace ApiAtlas

/-- Decides whether a struct with a name is expanded where it is met. -/
abbrev Policy := Descriptor → Bool

namespace Policy

/-- Expand everything: for request bodies and parameters. -/
def inlineAll : Policy := fun _ => true

/-- Refer to every named type that is exported: for responses. -/
def referExported : Policy := fun d => !d.isExported

/-- Expand only what cannot be referred to by name: inside components. -/
def inlineUnreferable : Policy := fun d => d.name?.isNone || d.isFlattened || !d.isExported

/-- Expand the types of these names. -/
def inlineNamed (names : List String) : Policy := fun d => match d.name? with
  | some name => names.contains name
  | none => false

end Policy

end ApiAtlas
