import ApiAtlas.Settings

/-!
# Asking for settings

`Settings.fillFrom` has the values of all variables before it. Here the same settings are filled in by
asking for one variable after the other, so that it can be said which of them are asked for at all: whether
a question is asked depends on the settings and on the answers before it.
-/

namespace ApiAtlas

/-- A computation that asks for variables, each question in view of the answers so far. -/
inductive Inquiry (α : Type) where
  | done (result : α)
  | ask (name : String) (next : Option String → Inquiry α)

namespace Inquiry

variable {α β : Type}

/-- One inquiry after another. -/
def bind : Inquiry α → (α → Inquiry β) → Inquiry β
  | done a, f => f a
  | ask name next, f => ask name fun answer => (next answer).bind f

instance : Monad Inquiry where
  pure := done
  bind := bind

/-- Ask for a variable. -/
def valueOf (name : String) : Inquiry (Option String) := ask name done

/-- What is set is not asked for. -/
def unlessSet (value : Option String) (p : Inquiry (Option String)) : Inquiry (Option String) :=
  match value with
  | some v => return some v
  | none => p

/-- What is of no use is not asked for. -/
def onlyIf (useful : Bool) (p : Inquiry (Option String)) : Inquiry (Option String) :=
  if useful then p else return none

/-- The result if the variables have these values. -/
def result (lookup : String → Option String) : Inquiry α → α
  | done a => a
  | ask name next => (next (lookup name)).result lookup

/-- The variables that are asked for, in order, if they have these values. -/
def asked (lookup : String → Option String) : Inquiry α → List String
  | done _ => []
  | ask name next => name :: (next (lookup name)).asked lookup

end Inquiry

namespace Settings

open Inquiry (onlyIf unlessSet valueOf)

/-- Ask for what is not set. -/
def inquiry (s : Settings) : Inquiry Settings := do
  let serverUrl ← unlessSet s.serverUrl do
    return (← valueOf "TAILOR_SERVER_URL").filter isWebAddress
  let serverDescription ← unlessSet s.serverDescription
    (onlyIf serverUrl.isSome (valueOf "TAILOR_SERVER_DESCRIPTION"))
  let title ← unlessSet s.title (valueOf "TAILOR_TITLE")
  let description ← unlessSet s.description (valueOf "TAILOR_DESCRIPTION")
  let version ← unlessSet s.version (valueOf "TAILOR_VERSION")
  let version ← unlessSet version (valueOf "CARGO_PKG_VERSION")
  let contentType ← unlessSet s.contentType (valueOf "TAILOR_CONTENT_TYPE")
  let output ← unlessSet s.output (valueOf "TAILOR_OPENAPI")
  return ⟨title, description, version, serverUrl, serverDescription, contentType, output⟩

end Settings

end ApiAtlas
