import ApiAtlas.Derive.Grammar.Expression

/-!
# Items

The declarations that may stand among the statements of a block: functions, constants, types,
traits and their implementations, modules, imports, and macros.
-/

namespace ApiAtlas.Derive

namespace Grammar

variable (g : Grammar)

open TokenParser

/-! ## Parts of declarations -/

/-- Whether what is in the parentheses behind `pub` restricts it. -/
def restrictsVisibility : Test
  | [.word w] => pathWords.contains w
  | ts => Test.word "in" ts

/-- The visibility of a declaration, if it is written. -/
def visibility? : TokenParser Bool := do
  if ← word? "pub" then
    if ← ahead (Test.inside .parens restrictsVisibility) then
      within .parens do
        if ← word? "in" then plainPath
    return true
  else return false

/-- A name, or an underscore for none. -/
def nameOrGap : TokenParser Unit := take 1 (Test.any [Test.name, Test.word "_"])

/-- Generic parameters, if there are any. -/
def parameters? : TokenParser Unit := optional (Test.mark "<") g.parameters

/-- The end of a list of conditions. -/
def endsConditions : Test :=
  Test.any [Test.atEnd, Test.group .braces, Test.mark ",", Test.mark ";", Test.only ":" ["::"],
    Test.mark "="]

/-- A condition on a lifetime or a type. -/
def typeCondition : TokenParser Unit := do
  if ← ahead (Test.and Test.label (Test.second (Test.mark ":"))) then
    label
    mark ":"
    chained "+" endsConditions label
  else
    let _ ← g.binder?
    let _ ← g.type true
    mark ":"
    g.parameterBounds endsConditions

/-- The conditions on the parameters, if there are any. -/
def conditions? : TokenParser Unit := do
  if ← word? "where" then chained "," endsConditions g.typeCondition

/-- Bounds behind a colon, if there are any, up to a place where a test passes. -/
def bounds? (stop : Test) : TokenParser Unit := do
  if ← mark? ":" then
    separated "+" stop do
      let _ ← g.bound ⟨false, true⟩

/-- A type behind a colon. -/
def typed : TokenParser Unit := do
  mark ":"
  let _ ← g.type true

/-- A value behind the sign of an assignment, if there is one. -/
def value? : TokenParser Unit := do
  if ← mark? "=" then g.anyExpression

/-! ## Functions -/

/-- The parameter that stands for the value itself. -/
def receiver : TokenParser Unit := do
  let reference ← mark? "&"
  if reference then
    let _ ← label?
  let _ ← word? "mut"
  word "self"
  if !reference then
    if ← mark? ":" then
      let _ ← g.type true

/-- A parameter. The result says whether it may be the last one only. -/
def typedParameter : TokenParser Bool := do
  if ← ahead (Test.and Test.name (Test.second (Test.mark "<"))) then
    let _ ← g.type true
    return false
  else
    let _ ← g.patternAt
    mark ":"
    if ← mark? "..." then return true
    let _ ← g.type true
    return false

/-- The parameters of a function. Only the first one may stand for the value itself, and only the
last one for any number. -/
def functionArguments : TokenParser Unit := do
  let _ ← iterate (fun (isFirst : Bool) => do
    if ← ahead Test.atEnd then return none
    g.outerAttributes
    let isLast ← if ← mark? "..." then pure true
      else if ← attempt g.receiver then
        guard isFirst
        pure false
      else g.typedParameter
    if ← ahead Test.atEnd then return none
    mark ","
    return if isLast then none else some false) true

/-- What is in front of the word that begins a function. -/
def functionMarks : TokenParser Unit := do
  let _ ← word? "const"
  let _ ← word? "async"
  let _ ← word? "unsafe"
  origin

/-- A function is ahead. -/
def functionAhead : Test := fun ts =>
  (functionMarks ts).any fun r => Test.word "fn" r.2

/-- A function. One without a body ends in a semicolon. -/
def function : TokenParser Unit := do
  functionMarks
  word "fn"
  name
  g.parameters?
  within .parens g.functionArguments
  g.result true
  g.conditions?
  if !(← mark? ";") then g.attributedBlock

/-! ## Constants and types -/

/-- A constant. -/
def constant : TokenParser Unit := do
  word "const"
  nameOrGap
  g.parameters?
  g.typed
  g.value?
  g.conditions?
  mark ";"

/-- A variable of the program. -/
def static : TokenParser Unit := do
  word "static"
  let _ ← word? "mut"
  name
  if ← ahead (Test.mark ":") then g.typed else require (Test.mark "=")
  g.value?
  mark ";"

/-- Another name for a type. -/
def typeAlias : TokenParser Unit := do
  word "type"
  name
  g.parameters?
  g.bounds? (Test.any [Test.word "where", Test.mark "=", Test.mark ";"])
  g.conditions?
  if ← mark? "=" then
    let _ ← g.type true
  g.conditions?
  mark ";"

/-- Members with names, in braces. -/
def namedMembers : TokenParser Unit :=
  within .braces do
    list do
      g.outerAttributes
      let _ ← visibility?
      nameOrGap
      g.typed

/-- Members without names, in parentheses. -/
def tupleMembers : TokenParser Unit :=
  within .parens do
    list do
      g.outerAttributes
      let _ ← visibility?
      let _ ← g.type true

/-- A struct. -/
def struct : TokenParser Unit := do
  word "struct"
  name
  g.parameters?
  let conditioned ← ahead (Test.word "where")
  g.conditions?
  if !conditioned && (← ahead (Test.group .parens)) then
    g.tupleMembers
    g.conditions?
    mark ";"
  else if ← ahead (Test.group .braces) then g.namedMembers
  else mark ";"

/-- A variant of an enumeration. -/
def variant : TokenParser Unit := do
  g.outerAttributes
  let _ ← visibility?
  name
  if ← ahead (Test.group .braces) then g.namedMembers
  else if ← ahead (Test.group .parens) then g.tupleMembers
  g.value?

/-- An enumeration. -/
def enumeration : TokenParser Unit := do
  word "enum"
  name
  g.parameters?
  g.conditions?
  within .braces (list g.variant)

/-- A union. -/
def union : TokenParser Unit := do
  word "union"
  name
  g.parameters?
  g.conditions?
  g.namedMembers

/-! ## Macros -/

/-- The use of a macro as an item. Only braces need no semicolon behind them. -/
def macroItem : TokenParser Unit := do
  plainPath
  mark "!"
  let _ ← takeIf 1 (Test.any [Test.name, Test.word "try"])
  let braced ← ahead (Test.group .braces)
  anyGroup
  if !braced then mark ";"

/-- The declaration of a macro. -/
def macroDeclaration : TokenParser Unit := do
  word "macro"
  name
  let _ ← takeIf 1 (Test.group .parens)
  group .braces

/-- The path of a macro may begin here. -/
def macroAhead : Test := Test.any [Test.name, Test.wordOf pathWords, Test.mark "::"]

/-! ## Traits and implementations -/

/-- A declaration inside a trait or an implementation. -/
def associatedItem : TokenParser Unit := do
  g.outerAttributes
  let isVisible ← visibility?
  let defaultAhead := Test.and (Test.word "default") (Test.second (Test.fails (Test.mark "!")))
  let isDefault ← takeIf 1 defaultAhead
  if ← ahead functionAhead then g.function
  else if ← ahead (Test.word "const") then g.constant
  else if ← ahead (Test.word "type") then g.typeAlias
  else
    guard !(isVisible || isDefault)
    require macroAhead
    macroItem

/-- Declarations in braces. -/
def associatedItems : TokenParser Unit :=
  within .braces do
    g.innerAttributes
    all g.associatedItem

/-- A trait, or another name for traits. -/
def trait : TokenParser Unit := do
  let marked ← ahead (Test.wordOf ["unsafe", "auto"])
  let _ ← word? "unsafe"
  let _ ← word? "auto"
  word "trait"
  name
  g.parameters?
  if !marked && (← ahead (Test.mark "=")) then
    mark "="
    separated "+" (Test.any [Test.word "where", Test.mark ";"]) do
      let _ ← g.bound ⟨false, true⟩
    g.conditions?
    mark ";"
  else
    g.bounds? (Test.any [Test.word "where", Test.group .braces])
    g.conditions?
    g.associatedItems

/-- Parameters in angle brackets, and not a type, are ahead. -/
def parametersAhead : Test :=
  let separator := Test.any [Test.mark ":", Test.mark ",", Test.mark ">", Test.mark "="]
  Test.and (Test.mark "<") (Test.any [
    Test.second (Test.any [Test.mark ">", Test.mark "#", Test.word "const"]),
    Test.and (Test.second (Test.any [Test.label, Test.name])) (Test.third separator)])

/-- An implementation. -/
def implementation : TokenParser Unit := do
  let _ ← word? "default"
  let _ ← word? "unsafe"
  word "impl"
  optional parametersAhead g.parameters
  if ← ahead (Test.any [Test.word "const",
      Test.and (Test.mark "?") (Test.second (Test.word "const"))]) then
    let _ ← mark? "?"
    word "const"
  let _ ← takeIf 1 (Test.and (Test.mark "!") (Test.second (Test.fails (Test.group .braces))))
  let _ ← g.type true
  if ← word? "for" then
    let _ ← g.type true
  g.conditions?
  g.associatedItems

/-! ## Modules -/

/-- The paths that a declaration imports: one path, all of them, or several in braces. -/
def importsAt : TokenParser Unit := do
  if ← takeIf 1 (Test.any [Test.name, Test.wordOf ("try" :: pathWords)]) then
    if ← mark? "::" then g.imports
    else if ← word? "as" then nameOrGap
  else if ← mark? "*" then return
  else
    within .braces do
      list do
        let _ ← mark? "::"
        g.imports

/-- Items in braces. -/
def items : TokenParser Unit :=
  within .braces do
    g.innerAttributes
    all g.item

/-- A module. -/
def module : TokenParser Unit := do
  let _ ← word? "unsafe"
  word "mod"
  take 1 (Test.any [Test.name, Test.word "try"])
  if !(← mark? ";") then g.items

/-- A library, or declarations of what comes from elsewhere. -/
def foreign : TokenParser Unit := do
  let marked ← word? "unsafe"
  origin
  if !marked && (← ahead (Test.word "crate")) then
    word "crate"
    take 1 (Test.any [Test.name, Test.word "self"])
    if ← word? "as" then nameOrGap
    mark ";"
  else g.items

/-! ## Items -/

/-- An item whose visibility has been read. -/
def visibleItem : TokenParser Unit := do
  let ts ← get
  let next (w : String) : Bool := Test.second (Test.word w) ts
  if functionAhead ts then g.function
  else if Test.word "extern" ts then g.foreign
  else if ← word? "use" then
    let _ ← mark? "::"
    g.imports
    mark ";"
  else if Test.word "static" ts then g.static
  else if Test.word "const" ts then g.constant
  else if Test.word "unsafe" ts && (next "trait" || next "auto") then g.trait
  else if Test.word "unsafe" ts && next "impl" then g.implementation
  else if Test.word "unsafe" ts && next "extern" then g.foreign
  else if Test.word "unsafe" ts || Test.word "mod" ts then g.module
  else if Test.word "type" ts then g.typeAlias
  else if Test.word "struct" ts then g.struct
  else if Test.word "enum" ts then g.enumeration
  else if Test.word "union" ts && Test.second Test.name ts then g.union
  else if Test.word "trait" ts || (Test.word "auto" ts && next "trait") then g.trait
  else if Test.word "impl" ts || (Test.word "default" ts && !Test.second (Test.mark "!") ts) then
    g.implementation
  else macroDeclaration

/-- An item behind its attributes. -/
def plainItem : TokenParser Unit := do
  let itemAhead := Test.any [
    Test.and (Test.word "union") (Test.second Test.name),
    Test.and (Test.word "auto") (Test.second (Test.word "trait")),
    Test.and (Test.word "default") (Test.second (Test.fails (Test.mark "!")))]
  if ← visibility? then g.visibleItem
  else if (← ahead macroAhead) && !(← ahead itemAhead) then macroItem
  else g.visibleItem

/-- An item. -/
def itemAt : TokenParser Unit := do
  g.outerAttributes
  g.plainItem

end Grammar

end ApiAtlas.Derive
