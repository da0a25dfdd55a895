import ApiAtlas.Derive.Grammar.Basic

/-!
# Paths

Names that double colons join, with arguments in angle brackets; the first segment may be a type in
angle brackets. Inside expressions a `<` behind a name is a comparison, so arguments need a double
colon there.
-/

namespace ApiAtlas.Derive

namespace Grammar

variable (g : Grammar)

open TokenParser

/-! ## Attributes -/

/-- A path of names alone. -/
def plainPath : TokenParser Unit := do
  let _ ← mark? "::"
  chained "::" Test.never (take 1 (Test.any [Test.name, Test.wordOf ("Self" :: pathWords)]))

/-- The content of an attribute. -/
def attributeContent : TokenParser Unit := do
  if !(← word? "unsafe") then plainPath
  if ← ahead Test.anyGroup then anyGroup
  else if ← mark? "=" then
    require (Test.fails (Test.and (Test.mark "#") (Test.second (Test.group .brackets))))
    let _ ← g.expression true

/-- An attribute of what follows it. -/
def outerAttribute : TokenParser Unit := do
  mark "#"
  within .brackets g.attributeContent

/-- Attributes of what follows them. -/
def outerAttributes : TokenParser Unit := whileAhead (Test.mark "#") g.outerAttribute

/-- Attributes of what encloses them. -/
def innerAttributes : TokenParser Unit :=
  whileAhead (Test.and (Test.mark "#") (Test.second (Test.mark "!"))) do
    mark "#"
    mark "!"
    within .brackets g.attributeContent

/-! ## Arguments -/

/-- Statements in braces. -/
def block : TokenParser Unit := within .braces g.statements

/-- Statements in braces, before which attributes of the whole may stand. -/
def attributedBlock : TokenParser Unit :=
  within .braces do
    g.innerAttributes
    g.statements

/-- A constant as an argument. -/
def constantArgument : TokenParser Unit := do
  if ← ahead Test.literal then literal
  else if ← ahead Test.name then name
  else g.attributedBlock

/-- Bounds of a parameter, up to a place where a test passes. -/
def parameterBounds (stop : Test) : TokenParser Unit :=
  chained "+" stop do
    let _ ← g.bound ⟨false, true⟩

/-- An argument in angle brackets: a lifetime, a constant, a type, or a name with what it equals or
the bounds that it satisfies. -/
def argument : TokenParser Unit := do
  let constant := Test.any [Test.literal, Test.group .braces]
  if ← ahead (Test.and Test.label (Test.second (Test.fails (Test.mark "+")))) then label
  else if ← ahead constant then g.constantArgument
  else if (← g.type true) = .name then
    if ← mark? "=" then
      if ← ahead constant then g.constantArgument
      else
        let _ ← g.type true
    else if ← mark? ":" then
      g.parameterBounds (Test.any [Test.mark ",", Test.mark ">"])

/-- Arguments in angle brackets. The result says whether there are any. -/
def angleArguments : TokenParser Bool := do
  mark "<"
  let found ← ahead (Test.fails (Test.mark ">"))
  separated "," (Test.mark ">") g.argument
  mark ">"
  return found

/-- The types of parameters in parentheses, and the type of the result. It says whether a path may
go on behind it: a type without parentheses would be taken to go on itself. -/
def parenthesizedArguments : TokenParser Bool := do
  within .parens (list do
    let _ ← g.type true)
  if ← mark? "->" then return (← g.type false) = .parens
  else return true

/-- Whether arguments in parentheses follow. -/
def parenthesesAhead : Test :=
  Test.any [Test.group .parens, Test.and (Test.mark "::") (Test.third (Test.group .parens))]

/-! ## Segments -/

/-- The name that is ahead, and reads past it. -/
def anyName : TokenParser String := do
  match ← get with
  | .word w :: _ =>
    drop 1
    return w
  | _ => failure

/-- A segment of a path. The flag says whether it stands in an expression. -/
def segment (inExpression : Bool) : TokenParser PathShape := do
  if ← ahead (Test.wordOf ("try" :: pathWords)) then
    return ⟨← anyName, false, true, true⟩
  require (Test.any [Test.name, Test.word "Self"])
  let w ← anyName
  let openAhead ← ahead (Test.only "<" ["<=", "<<="])
  let joinedAhead ← ahead (Test.and (Test.mark "::") (Test.third (Test.mark "<")))
  if (openAhead && !inExpression) || joinedAhead then
    let _ ← mark? "::"
    return ⟨w, ← g.angleArguments, false, true⟩
  else return ⟨w, false, true, true⟩

/-- A path with one more segment. -/
def extend (inExpression : Bool) (p : PathShape) : TokenParser PathShape := do
  mark "::"
  let s ← g.segment inExpression
  return { s with isPlain := p.isPlain && s.isPlain, isSingle := false }

/-- The segments that follow a path. Parentheses behind a double colon are none. -/
def moreSegments (inExpression : Bool) (p : PathShape) : TokenParser PathShape :=
  iterate (fun p => do
    if ← ahead (Test.and (Test.mark "::") (Test.third (Test.fails (Test.group .parens)))) then
      return some (← g.extend inExpression p)
    else return none) p

/-- A path. -/
def path (inExpression : Bool) : TokenParser PathShape := do
  let leading ← mark? "::"
  let first ← g.segment inExpression
  g.moreSegments inExpression { first with isSingle := !leading }

/-- A path whose first segment may be a type in angle brackets; the first result says whether it
is one. -/
def qualifiedPath (inExpression : Bool) : TokenParser (Bool × PathShape) := do
  if ← ahead (Test.mark "<") then
    mark "<"
    let _ ← g.type true
    if ← word? "as" then
      let _ ← g.path false
    mark ">"
    mark "::"
    let first ← g.segment inExpression
    let p ← iterate (fun p => do
      if ← ahead (Test.mark "::") then return some (← g.extend inExpression p)
      else return none) first
    return (true, p)
  else return (false, ← g.path inExpression)

/-- The arguments in parentheses that may follow a path. -/
def withParentheses (p : PathShape) : TokenParser (PathShape × Bool) := do
  if !p.hasArguments && (← ahead parenthesesAhead) then
    let _ ← mark? "::"
    let goesOn ← g.parenthesizedArguments
    return (⟨p.last, true, false, false⟩, goesOn)
  else return (p, false)

/-- The path of a type. -/
def typePath : TokenParser (Bool × PathShape) := do
  let (qualified, p) ← g.qualifiedPath false
  match ← g.withParentheses p with
  | (p, true) => return (qualified, ← g.moreSegments false p)
  | (p, false) => return (qualified, p)

end Grammar

end ApiAtlas.Derive
