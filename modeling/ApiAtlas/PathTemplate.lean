import ApiAtlas.Method

/-!
# Path templates

A path template names its parameters, written `:name` or `{name}`. The normal form writes all of
them with braces, and `operationId` makes an identifier of a method and a path. Both are defined on
lists of characters and wrapped for texts.
-/

namespace ApiAtlas.PathTemplate

/-! ## Parameters -/

/-- The parameter name that a text starts with: its leading ASCII letters and digits. -/
def parameterName (cs : List Char) : List Char := cs.takeWhile Char.isAlphanum

/-- Copy a path, giving each `/:name` with a non-empty name the form `/{name}`. -/
def braced : List Char → List Char
  | [] => []
  | '/' :: ':' :: rest =>
    let name := parameterName rest
    if name = [] then '/' :: braced (':' :: rest)
    else '/' :: '\x7b' :: name ++ '\x7d' :: braced (rest.drop name.length)
  | c :: rest => c :: braced rest
termination_by cs => cs.length
decreasing_by all_goals simp_all <;> omega

/-- A path template with every parameter in braces. -/
def normalForm (path : String) : String := String.ofList (braced path.toList)

/-! ## Operation identifiers -/

/-- Slashes and hyphens, as underscores. -/
def underscored (cs : List Char) : List Char := cs.map fun c => if c = '/' || c = '-' then '_' else c

/-- ASCII letters, digits and underscores only. -/
def cleaned (cs : List Char) : List Char := cs.filter fun c => c.isAlphanum || c = '_'

/-- Without the underscores in front and behind. -/
def trimmed (cs : List Char) : List Char :=
  ((cs.dropWhile (· = '_')).reverse.dropWhile (· = '_')).reverse

/-- A word with its first letter in upper case. -/
def titled : List Char → List Char
  | [] => []
  | c :: rest => Text.uppercaseChar c ++ rest

/-- The part of an identifier that a path gives: what stands between underscores once all that
separates is one, each piece with an upper-case first letter. -/
def identifier (cs : List Char) : List Char :=
  ((trimmed (cleaned (underscored cs))).splitOnP (· = '_')).flatMap titled

/-- The identifier of an operation, such as `getUsersId` for `GET /users/:id`. -/
def operationId (m : Method) (path : String) : String :=
  m.lower ++ String.ofList (identifier path.toList)

end ApiAtlas.PathTemplate
