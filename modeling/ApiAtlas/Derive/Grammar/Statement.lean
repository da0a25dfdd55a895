import ApiAtlas.Derive.Grammar.Item

/-!
# Statements

The content of a block. A statement ends in a semicolon, but the last one of a block, a block, a
macro with braces and an item may do without.
-/

namespace ApiAtlas.Derive

namespace Grammar

variable (g : Grammar)

open TokenParser

/-- What begins an item. -/
def itemAhead : Test :=
  let functionWord := Test.wordOf ["unsafe", "extern", "fn"]
  let closureBehindConst := Test.any [Test.group .braces, Test.wordOf ["static", "move"],
    Test.mark "|", Test.and (Test.word "async") (Test.second (Test.fails functionWord))]
  Test.any [
    Test.wordOf ["pub", "extern", "use", "fn", "mod", "type", "struct", "enum", "trait", "impl",
      "macro"],
    Test.and (Test.word "crate") (Test.second (Test.fails (Test.mark "::"))),
    Test.and (Test.word "static") (Test.second (Test.any [Test.word "mut", Test.name])),
    Test.and (Test.word "const") (Test.second (Test.fails closureBehindConst)),
    Test.and (Test.word "unsafe") (Test.second (Test.fails (Test.group .braces))),
    Test.and (Test.word "async") (Test.second functionWord),
    Test.and (Test.word "union") (Test.second Test.name),
    Test.and (Test.word "auto") (Test.second (Test.word "trait")),
    Test.and (Test.word "default") (Test.second (Test.wordOf ["unsafe", "impl"]))]

/-- What a test says behind the path of a macro and its exclamation mark. -/
def behindMacroPath (t : Test) : Test := fun ts =>
  (plainPath ts).any fun r => Test.mark "!" r.2 && Test.second t r.2

/-- The use of a macro that declares a name. -/
def macroItemAhead : Test := behindMacroPath (Test.any [Test.name, Test.word "try"])

/-- The use of a macro with braces that is a statement of its own. -/
def macroStatementAhead : Test :=
  behindMacroPath (Test.and (Test.group .braces)
    (Test.second (Test.fails (Test.any [Test.only "." [".."], Test.mark "?"]))))

/-- Whether tokens end in braces. -/
def endsInBraces (ts : List TokenTree) : Bool :=
  match ts.getLast? with
  | some t => Test.group .braces [t]
  | none => false

/-- A variable with its pattern and perhaps its type and value. What happens where the value does
not match may follow behind `else`, unless the value ends in braces. -/
def variableStatement : TokenParser Unit := do
  word "let"
  let _ ← g.patternAt
  if ← mark? ":" then
    let _ ← g.type true
  if ← mark? "=" then
    let (_, value) ← consumed (g.expression true)
    if !endsInBraces value then
      if ← word? "else" then g.block
  mark ";"

/-- A statement. The result says whether it is complete, so that another one may follow. -/
def statement : TokenParser Bool := do
  g.outerAttributes
  if ← ahead macroStatementAhead then
    plainPath
    mark "!"
    group .braces
    let _ ← mark? ";"
    return true
  else if ← ahead (Test.word "let") then
    g.variableStatement
    return true
  else if ← ahead (Test.any [itemAhead, macroItemAhead]) then
    g.plainItem
    return true
  else
    let shape ← g.statementExpressionAt
    return (← mark? ";") || shape = .block || shape = .bracedMacro

/-- The statements of a block. -/
def statementsAt : TokenParser Unit :=
  iterate (fun _ => do
    whileAhead (Test.mark ";") (mark ";")
    if ← ahead Test.atEnd then return none
    let complete ← g.statement
    if ← ahead Test.atEnd then return none
    guard complete
    return some ()) ()

end Grammar

end ApiAtlas.Derive
