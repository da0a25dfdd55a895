import ApiAtlas.Text.Uppercase

/-!
# HTTP methods

The methods that a path item has a place for, in the order of those places.
-/

namespace ApiAtlas

/-- An HTTP method. -/
inductive Method where
  | get
  | post
  | put
  | patch
  | delete
  | head
  | options
  | trace
deriving DecidableEq, Repr

namespace Method

/-- All methods in the order of a path item. -/
def all : List Method := [.get, .post, .put, .patch, .delete, .head, .options, .trace]

/-- The position of a method in a path item, counted from one. -/
def rank : Method → Nat
  | .get => 1
  | .post => 2
  | .put => 3
  | .patch => 4
  | .delete => 5
  | .head => 6
  | .options => 7
  | .trace => 8

/-- The name as the key of a path item. -/
def lower : Method → String
  | .get => "get"
  | .post => "post"
  | .put => "put"
  | .patch => "patch"
  | .delete => "delete"
  | .head => "head"
  | .options => "options"
  | .trace => "trace"

/-- The name as a request line spells it. -/
def upper : Method → String
  | .get => "GET"
  | .post => "POST"
  | .put => "PUT"
  | .patch => "PATCH"
  | .delete => "DELETE"
  | .head => "HEAD"
  | .options => "OPTIONS"
  | .trace => "TRACE"

/-- The methods that carry a request body. -/
def carriesBody (m : Method) : Bool := m = .post ∨ m = .put

/-- A name that is no method, uppercased. -/
structure Unknown where
  name : String
deriving DecidableEq

/-- What is said about an unknown method. -/
def Unknown.message (u : Unknown) : String := "unknown HTTP method: " ++ u.name

/-- The method of a name in any case. -/
def ofName (name : String) : Except Unknown Method :=
  let upper := Text.uppercase name
  match all.find? (·.upper = upper) with
  | some m => .ok m
  | none => .error ⟨upper⟩

theorem rank_injective {m n : Method} (h : m.rank = n.rank) : m = n := by
  revert h; cases m <;> cases n <;> decide

end Method

end ApiAtlas
