import ApiAtlas.Derive.Grammar.Pattern
import ApiAtlas.Numeral

/-!
# Expressions

An operand is read with the marks before it and the calls, members and indices behind it; then come
the operators, each of which takes what follows it as far as that binds more tightly. Where braces
would be taken for the block of a condition, a path does not go on with them.
-/

namespace ApiAtlas.Derive

namespace Grammar

variable (g : Grammar)

open TokenParser

/-! ## Lists of expressions -/

/-- An expression on its own. -/
def anyExpression : TokenParser Unit := do
  let _ ← g.expression true

/-- Expressions with commas between them. -/
def expressionList : TokenParser Unit := list g.anyExpression

/-- An expression in parentheses, or a tuple, or the arguments of a call. -/
def arguments : TokenParser Unit := within .parens g.expressionList

/-- An array: its items, or one item and their number. -/
def arrayContent : TokenParser Unit := do
  if ← ahead Test.atEnd then return
  g.anyExpression
  if ← mark? ";" then g.anyExpression
  else if ← ahead Test.atEnd then return
  else
    mark ","
    g.expressionList

/-- The value of a member. A member with a name may be a value of that name. -/
def fieldValue : TokenParser Unit := do
  g.outerAttributes
  let named ← member
  if !named || (← ahead (Test.mark ":")) then
    mark ":"
    g.anyExpression

/-- The members of a struct with their values, and perhaps a struct that gives the others. -/
def fieldValues : TokenParser Unit :=
  iterate (fun _ => do
    if ← ahead Test.atEnd then return none
    if ← mark? ".." then
      if ← ahead Test.atEnd then return none
      g.anyExpression
      return none
    g.fieldValue
    if ← ahead Test.atEnd then return none
    mark ","
    return some ()) ()

/-! ## Conditions and loops -/

/-- A condition, and what else stands in front of a block. -/
def condition : TokenParser Unit := do
  let _ ← g.expression false

/-- The conditions and blocks of an `if`. -/
def ifExpression : TokenParser Unit := do
  word "if"
  g.condition
  g.block
  iterate (fun _ => do
    if ← word? "else" then
      if ← word? "if" then
        g.condition
        g.block
        return some ()
      else
        g.block
        return none
    else return none) ()

/-- A loop. -/
def loopExpression : TokenParser Unit := do
  if ← word? "while" then g.condition
  else if ← word? "for" then
    g.alternatives
    word "in"
    g.condition
  else word "loop"
  g.attributedBlock

/-- A loop or a block behind its label. -/
def labelled : TokenParser Unit := do
  label
  mark ":"
  if ← ahead (Test.group .braces) then g.attributedBlock
  else g.loopExpression

/-! ## Blocks -/

/-- What tells a binder from a loop. -/
def binderAhead : Test :=
  Test.and (Test.word "for") (Test.and (Test.second (Test.mark "<"))
    (Test.third (Test.any [Test.label, Test.mark ">"])))

/-- A block or a control structure is ahead. -/
def blockAhead : Test :=
  Test.any [Test.wordOf ["if", "while", "loop", "match", "unsafe"], Test.group .braces, Test.label,
    Test.and (Test.wordOf ["try", "const"]) (Test.second (Test.group .braces)),
    Test.and (Test.word "for") (Test.fails binderAhead)]

/-- The arms of a `match`. Only an arm whose expression is a block needs no comma behind it. -/
def arms : TokenParser Unit :=
  all do
    g.outerAttributes
    g.alternatives
    if ← word? "if" then g.anyExpression
    mark "=>"
    if (← g.statementExpression) = .block || (← ahead Test.atEnd) then
      let _ ← mark? ","
    else mark ","

/-- A block or a control structure. -/
def blockExpression : TokenParser Unit := do
  if ← ahead (Test.word "if") then g.ifExpression
  else if ← ahead (Test.wordOf ["while", "for", "loop"]) then g.loopExpression
  else if ← word? "match" then
    g.condition
    within .braces do
      g.innerAttributes
      g.arms
  else if ← word? "try" then g.block
  else if ← ahead Test.label then g.labelled
  else
    let _ ← takeIf 1 (Test.wordOf ["unsafe", "const"])
    g.attributedBlock

/-! ## Jumps and closures -/

/-- What can begin an expression behind a jump. -/
def beginsExpression : Test :=
  Test.any [Test.and Test.anyWord (Test.fails (Test.word "as")), Test.anyGroup, Test.literal,
    Test.only "!" ["!="], Test.only "-" ["-=", "->"], Test.only "*" ["*="], Test.only "|" ["|="],
    Test.only "&" ["&="], Test.mark "..", Test.only "<" ["<=", "<<="], Test.mark "::", Test.label,
    Test.mark "#"]

/-- An expression, if one can begin here. -/
def expression? : TokenParser Unit := optional beginsExpression g.anyExpression

/-- A jump out of a loop. A label in front of a value is never the one of another loop. -/
def breakExpression (structs : Bool) : TokenParser Unit := do
  word "break"
  require (Test.fails (Test.and Test.label (Test.second (Test.mark ":"))))
  let _ ← label?
  if structs || !(← ahead (Test.group .braces)) then g.expression?

/-- What begins a closure. -/
def closureAhead : Test :=
  Test.any [Test.mark "|", Test.wordOf ["move", "static"], binderAhead,
    Test.and (Test.word "const") (Test.second (Test.fails (Test.group .braces))),
    Test.and (Test.word "async") (Test.second (Test.any [Test.mark "|", Test.word "move"]))]

/-- A parameter of a closure. -/
def closureParameter : TokenParser Unit := do
  g.outerAttributes
  let _ ← g.patternAt
  if ← mark? ":" then
    let _ ← g.type true

/-- A closure. One with a type for its result has a block. -/
def closure (structs : Bool) : TokenParser Unit := do
  let _ ← g.binder?
  let _ ← word? "const"
  let _ ← word? "static"
  let _ ← word? "async"
  let _ ← word? "move"
  mark "|"
  separated "," (Test.mark "|") g.closureParameter
  mark "|"
  if ← mark? "->" then
    let _ ← g.type true
    g.block
  else
    let _ ← g.expression structs

/-! ## Operators -/

/-- The operators between two operands, those of more characters before the ones that they begin
with. -/
def binaryOperators : List (String × Precedence) :=
  [("+=", .assignment), ("-=", .assignment), ("*=", .assignment), ("/=", .assignment),
    ("%=", .assignment), ("^=", .assignment), ("&=", .assignment), ("|=", .assignment),
    ("<<=", .assignment), (">>=", .assignment), ("&&", .and), ("||", .or), ("<<", .shift),
    (">>", .shift), ("==", .comparison), ("<=", .comparison), ("!=", .comparison),
    (">=", .comparison), ("+", .sum), ("-", .sum), ("*", .product), ("/", .product),
    ("%", .product), ("^", .bitXor), ("&", .bitAnd), ("|", .bitOr), ("<", .comparison),
    (">", .comparison)]

/-- The operator between two operands that is ahead. -/
def binaryOperator? (ts : List TokenTree) : Option (String × Precedence) :=
  binaryOperators.find? fun op => Test.mark op.1 ts

/-- The sign of an assignment. -/
def assignmentAhead : Test := Test.only "=" ["=>"]

/-- The precedence of the operator that is ahead, whatever its form. -/
def precedenceAhead (ts : List TokenTree) : Precedence :=
  match binaryOperator? ts with
  | some (_, p) => p
  | none =>
    if assignmentAhead ts then .assignment
    else if Test.mark ".." ts then .range
    else if Test.word "as" ts then .cast
    else .lowest

/-- The right operand of an operator: an operand with all operators behind it that bind more
tightly. Assignments also take further ones to their right. -/
def rightOperand (structs : Bool) (p : Precedence) : TokenParser Unit := do
  let first ← g.operand structs
  let _ ← iterate (fun shape => do
    let ts ← get
    let next := precedenceAhead ts
    if p.rank < next.rank || (next = p && p = .assignment) then
      let shape ← g.operators structs next shape
      if (← get).length = ts.length then return none else return some shape
    else return none) first

/-- What may follow a range without an end. -/
def endsRange (structs : Bool) : Test := fun ts =>
  Test.any [Test.atEnd, Test.mark ",", Test.mark ";", Test.only "." [".."], Test.mark "?",
      Test.mark "=", Test.mark "+", Test.mark "/", Test.mark "%", Test.mark "^", Test.mark ">",
      Test.mark "<=", Test.mark "!=", Test.mark "-=", Test.mark "*=", Test.mark "&=",
      Test.mark "|=", Test.mark "<<=", Test.word "as"] ts ||
    (!structs && Test.group .braces ts)

/-- The dots of a range and its end. A range that includes its end needs one. -/
def range (structs : Bool) : TokenParser Unit := do
  require (Test.fails (Test.mark "..."))
  if ← mark? "..=" then g.rightOperand structs .range
  else
    mark ".."
    if !(← ahead (endsRange structs)) then g.rightOperand structs .range

/-- What may not follow the type of a cast. -/
def continuesCast : Test :=
  Test.any [Test.only "." [".."], Test.mark "?", Test.group .brackets, Test.group .parens]

/-- An operator and its right side, if one follows that binds tightly enough. A range is no left
operand, and comparisons do not follow each other. -/
def operator? (structs : Bool) (least : Precedence) (left : ExpressionShape) :
    TokenParser (Option ExpressionShape) := do
  let ts ← get
  if left = .range then return none
  else match binaryOperator? ts with
    | some (op, p) =>
      if p.rank < least.rank then return none
      guard !(p = .comparison && left = .comparison)
      mark op
      g.rightOperand structs p
      return some (if p = .comparison then .comparison else .other)
    | none =>
      if least.rank ≤ Precedence.assignment.rank && assignmentAhead ts then
        mark "="
        g.rightOperand structs .assignment
        return some .other
      else if least.rank ≤ Precedence.range.rank && Test.mark ".." ts then
        g.range structs
        return some .range
      else if ← word? "as" then
        let _ ← g.type false
        require (Test.fails continuesCast)
        return some .other
      else return none

/-- The operators that follow an operand and bind at least as tightly as said. -/
def operatorsAt (structs : Bool) (least : Precedence) (left : ExpressionShape) :
    TokenParser ExpressionShape :=
  iterate (g.operator? structs least) left

/-! ## Operands -/

/-- Whether a number with points is a run of indices, such as those of a tuple in a tuple. -/
def isIndexRun (spelling : String) : Bool :=
  let parts := spelling.splitOn "."
  let parts := if parts.getLast? = some "" then parts.dropLast else parts
  parts.all fun part =>
    ((Numeral.ofDigits? 10 (part.toList.filter (· != '_'))).any fun n => n < Nat.pow 2 32)

/-- A member behind its dot, which may be a method with types as arguments. -/
def memberAccess : TokenParser Unit := do
  let named ← member
  if named && (← ahead (Test.mark "::")) then
    mark "::"
    let _ ← g.angleArguments
    g.arguments

/-- What follows a dot. -/
def afterDot : TokenParser Unit := do
  if ← word? "await" then return
  match ← get with
  | .literal (.float spelling) :: _ =>
    drop 1
    guard (isIndexRun spelling)
    if spelling.toList.getLast? = some '.' then g.memberAccess
  | _ => g.memberAccess

/-- The calls, members and indices behind an operand. -/
def withTrailers (shape : ExpressionShape) : TokenParser ExpressionShape :=
  iterate (fun shape => do
    let ts ← get
    if Test.group .parens ts then
      g.arguments
      return some .other
    else if Test.group .brackets ts then
      within .brackets g.anyExpression
      return some .other
    else if shape ≠ .range && Test.only "." [".."] ts then
      mark "."
      g.afterDot
      return some .other
    else if shape ≠ .range && Test.mark "?" ts then
      mark "?"
      return some .other
    else return none) shape

/-- An expression that begins with a path: the path, a macro, or a struct. -/
def pathExpression (structs : Bool) : TokenParser ExpressionShape := do
  let (qualified, p) ← g.qualifiedPath true
  if !qualified && p.isPlain && (← ahead (Test.only "!" ["!="])) then
    mark "!"
    let braced ← ahead (Test.group .braces)
    anyGroup
    return if braced then .bracedMacro else .other
  else
    if structs && (← ahead (Test.group .braces)) then within .braces g.fieldValues
    return .other

/-- The jumps, which take the expression behind them with them. -/
def jump (structs : Bool) : TokenParser Unit := do
  if ← ahead (Test.word "break") then g.breakExpression structs
  else if ← word? "continue" then
    let _ ← label?
  else if ← word? "become" then g.anyExpression
  else
    take 1 (Test.wordOf ["return", "yield"])
    g.expression?

/-- A pattern that an operand has to match. -/
def letExpression (structs : Bool) : TokenParser Unit := do
  word "let"
  g.alternatives
  mark "="
  let left ← g.operand structs
  let _ ← g.operators structs .comparison left

/-- The smallest expressions. -/
def atom (structs : Bool) : TokenParser ExpressionShape := do
  let ts ← get
  let braces := Test.group .braces
  let asyncBlock := Test.and (Test.word "async")
    (Test.any [Test.second braces, Test.and (Test.second (Test.word "move")) (Test.third braces)])
  let macroWord := Test.and (Test.word "try")
    (Test.second (Test.any [Test.mark "!", Test.mark "::"]))
  if Test.literal ts then
    literal
    return .other
  else if asyncBlock ts then
    word "async"
    let _ ← word? "move"
    g.block
    return .other
  else if closureAhead ts then
    g.closure structs
    return .other
  else if Test.and (Test.word "builtin") (Test.second (Test.mark "#")) ts then
    word "builtin"
    mark "#"
    name
    group .parens
    return .other
  else if Test.any [Test.name, pathWordAhead, macroWord] ts then g.pathExpression structs
  else if Test.group .parens ts then
    g.arguments
    return .other
  else if Test.group .brackets ts then
    within .brackets g.arrayContent
    return .other
  else if Test.wordOf ["break", "continue", "return", "become", "yield"] ts then
    g.jump structs
    return .other
  else if Test.word "let" ts then
    g.letExpression structs
    return .other
  else if blockAhead ts then
    g.blockExpression
    return .block
  else if Test.mark ".." ts then
    g.range structs
    return .range
  else
    word "_"
    return .other

/-- The signs that stand before an operand: a reference, or a single mark. -/
def sign? : TokenParser Bool := do
  if ← mark? "&" then
    if !(← takeIf 2 (Test.and (Test.word "raw") (Test.second (Test.wordOf ["mut", "const"])))) then
      let _ ← word? "mut"
    return true
  else takeIf 1 (Test.any [Test.mark "*", Test.mark "!", Test.mark "-"])

/-- An operand with what is before and behind it. Attributes may not stand before a range that has
no beginning. -/
def operandAt (structs : Bool) : TokenParser ExpressionShape := do
  let attributed ← ahead (Test.mark "#")
  g.outerAttributes
  if ← sign? then
    let _ ← g.operand structs
    return .other
  else
    let shape ← g.withTrailers (← g.atom structs)
    guard !(attributed && shape = .range)
    return shape

/-- An expression. The flag says whether braces behind a path are part of it. -/
def expressionAt (structs : Bool) : TokenParser ExpressionShape := do
  g.operatorsAt structs .lowest (← g.operandAt structs)

/-- An expression as a statement or as the arm of a `match`, where a block is complete in itself
unless a dot or a question mark follows. -/
def statementExpressionAt : TokenParser ExpressionShape := do
  g.outerAttributes
  if ← ahead blockAhead then
    g.blockExpression
    if ← ahead (Test.any [Test.only "." [".."], Test.mark "?"]) then
      g.operatorsAt true .lowest (← g.withTrailers .block)
    else return .block
  else g.operatorsAt true .lowest (← g.operandAt true)

end Grammar

end ApiAtlas.Derive
