import ApiAtlas.Derive.TokenTree

/-!
# Parsers on token trees

A parser reads a part off the front of a list of token trees or refuses it. It never goes back: a
choice is made by a test of the tokens ahead. What tokens mean is nowhere needed here, so a parser
returns only what the choices after it depend on.
-/

namespace ApiAtlas.Derive

/-- A test of the tokens ahead. -/
abbrev Test := List TokenTree → Bool

/-- What reads a part off the front of the tokens, or refuses them. -/
abbrev TokenParser := StateT (List TokenTree) Option

/-! ## Words -/

/-- The keywords, which are no names. -/
def keywords : List String :=
  ["_", "abstract", "as", "async", "await", "become", "box", "break", "const", "continue", "crate",
    "do", "dyn", "else", "enum", "extern", "false", "final", "fn", "for", "if", "impl", "in", "let",
    "loop", "macro", "match", "mod", "move", "mut", "override", "priv", "pub", "ref", "return",
    "Self", "self", "static", "struct", "super", "trait", "true", "try", "type", "typeof", "unsafe",
    "unsized", "use", "virtual", "where", "while", "yield"]

/-- The keywords that are segments of paths and have no arguments. -/
def pathWords : List String := ["super", "self", "crate"]

namespace Test

/-- Nothing is ahead. -/
def atEnd : Test := List.isEmpty

/-- Any word is ahead. -/
def anyWord : Test
  | .word _ :: _ => true
  | _ => false

/-- The given word is ahead. -/
def word (w : String) : Test
  | .word v :: _ => v = w
  | _ => false

/-- One of the given words is ahead. -/
def wordOf (ws : List String) : Test
  | .word v :: _ => ws.contains v
  | _ => false

/-- A name is ahead: a word that is no keyword. -/
def name : Test
  | .word v :: _ => !keywords.contains v
  | _ => false

/-- A label is ahead. -/
def label : Test
  | .label _ :: _ => true
  | _ => false

/-- The given brackets are ahead. -/
def group (d : Delimiter) : Test
  | .group d' _ :: _ => d = d'
  | _ => false

/-- Brackets of any kind are ahead. -/
def anyGroup : Test
  | .group _ _ :: _ => true
  | _ => false

/-- The given characters are ahead as marks, each of them joint with the next one. -/
def marks : List Char → Test
  | [c], .mark d _ :: _ => c = d
  | c :: cs, .mark d joint :: rest => c = d && joint && marks cs rest
  | _, _ => false

/-- The given operator or separator is ahead. A longer one that it begins passes as well. -/
def mark (s : String) : Test := marks s.toList

/-- Whether a literal is a number. -/
def isNumber : Literal → Bool
  | .integer _ _ | .float _ => true
  | _ => false

/-- A literal is ahead, which may be a truth value or a number with a minus. -/
def literal : Test
  | .literal _ :: _ => true
  | .word w :: _ => w = "true" || w = "false"
  | .mark '-' _ :: .literal l :: _ => isNumber l
  | _ => false

/-- A text is ahead. -/
def text : Test
  | .literal (.text _) :: _ => true
  | _ => false

/-- One of the tests passes. -/
def any (tests : List Test) : Test := fun ts => tests.any fun t => t ts

/-- The test passes behind the first token. -/
def second (t : Test) : Test := fun ts => t (ts.drop 1)

/-- The test passes behind the first two tokens. -/
def third (t : Test) : Test := fun ts => t (ts.drop 2)

/-- The test fails. -/
def fails (t : Test) : Test := fun ts => !t ts

/-- Both tests pass. -/
def and (t u : Test) : Test := fun ts => t ts && u ts

/-- The brackets are ahead, and the test passes on what they enclose. -/
def inside (d : Delimiter) (t : Test) : Test
  | .group d' content :: _ => d = d' && t content
  | _ => false

/-- No tokens pass. -/
def never : Test := fun _ => false

/-- The first operator is ahead, and not one of the longer ones. -/
def only (s : String) (longer : List String) : Test := fun ts =>
  mark s ts && !longer.any fun l => mark l ts

end Test

namespace TokenParser

variable {α : Type}

/-- Whether the tokens ahead pass a test. -/
def ahead (t : Test) : TokenParser Bool := return t (← get)

/-- Refuse tokens that do not pass a test. -/
def require (t : Test) : TokenParser Unit := do
  guard (t (← get))

/-- Read past so many trees. -/
def drop (n : Nat) : TokenParser Unit := modify (List.drop n)

/-- Read so many trees if they pass a test. -/
def takeIf (n : Nat) (t : Test) : TokenParser Bool := do
  if ← ahead t then
    drop n
    return true
  else return false

/-- Read so many trees, which have to pass a test. -/
def take (n : Nat) (t : Test) : TokenParser Unit := do
  require t
  drop n

/-- Read an operator or separator. -/
def mark (s : String) : TokenParser Unit := take s.length (Test.mark s)

/-- Read an operator or separator, if it is ahead. -/
def mark? (s : String) : TokenParser Bool := takeIf s.length (Test.mark s)

/-- Read the given word. -/
def word (w : String) : TokenParser Unit := take 1 (Test.word w)

/-- Read the given word, if it is ahead. -/
def word? (w : String) : TokenParser Bool := takeIf 1 (Test.word w)

/-- Read a name. -/
def name : TokenParser Unit := take 1 Test.name

/-- Read a label. -/
def label : TokenParser Unit := take 1 Test.label

/-- Read a label, if one is ahead. -/
def label? : TokenParser Bool := takeIf 1 Test.label

/-- Read a literal. -/
def literal : TokenParser Unit := do
  require Test.literal
  drop (if ← ahead (Test.mark "-") then 2 else 1)

/-- Read brackets of any kind with whatever they enclose. -/
def anyGroup : TokenParser Unit := take 1 Test.anyGroup

/-- Read brackets with whatever they enclose. -/
def group (d : Delimiter) : TokenParser Unit := take 1 (Test.group d)

/-- Read brackets and what they enclose. What the parser leaves over inside them is not looked
at. -/
def within (d : Delimiter) (p : TokenParser α) : TokenParser α := fun
  | .group d' content :: rest => if d = d' then (p content).map fun r => (r.1, rest) else none
  | _ => none

/-- Read something if a test passes. -/
def optional (t : Test) (p : TokenParser Unit) : TokenParser Unit := do
  if ← ahead t then p

/-- Read something if the parser does not refuse what is ahead. -/
def attempt (p : TokenParser Unit) : TokenParser Bool := do
  match p (← get) with
  | some (_, rest) =>
    set rest
    return true
  | none => return false

/-- Repeat a step until it has no further result, at most so many times. -/
def iterateFor (step : α → TokenParser (Option α)) : Nat → α → TokenParser α
  | 0, a => return a
  | n + 1, a => do
    match ← step a with
    | some b => iterateFor step n b
    | none => return a

/-- Repeat a step until it has no further result. A step with a result reads at least one token, so
the tokens ahead bound the repetition. -/
def iterate (step : α → TokenParser (Option α)) (a : α) : TokenParser α := do
  iterateFor step ((← get).length + 1) a

/-- Read something as long as a test passes. -/
def whileAhead (t : Test) (p : TokenParser Unit) : TokenParser Unit :=
  iterate (fun _ => do
    if ← ahead t then
      p
      return some ()
    else return none) ()

/-- Read items up to a place where a test passes, with a separator between any two of them. One
more separator may stand at the end. -/
def separated (separator : String) (stop : Test) (item : TokenParser Unit) : TokenParser Unit :=
  iterate (fun _ => do
    if ← ahead stop then return none
    item
    if ← ahead stop then return none
    mark separator
    return some ()) ()

/-- Read items with a separator between any two of them, up to the first item that no separator
follows or to a place where a test passes. -/
def chained (separator : String) (stop : Test) (item : TokenParser Unit) : TokenParser Unit :=
  iterate (fun _ => do
    if ← ahead stop then return none
    item
    if ← mark? separator then return some () else return none) ()

/-- Read items to the end of the tokens, with commas between them. -/
def list (item : TokenParser Unit) : TokenParser Unit := separated "," Test.atEnd item

/-- Read items to the end of the tokens. -/
def all (item : TokenParser Unit) : TokenParser Unit := whileAhead (Test.fails Test.atEnd) item

/-- Run a parser, with the tokens that it reads. -/
def consumed (p : TokenParser α) : TokenParser (α × List TokenTree) := do
  let before ← get
  let a ← p
  return (a, before.take (before.length - (← get).length))

end TokenParser

end ApiAtlas.Derive
