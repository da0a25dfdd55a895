import ApiAtlas.Derive.Grammar.Type

/-!
# Patterns

What stands on the left of `let`, in front of an arm of a `match`, and as a parameter of a closure.
-/

namespace ApiAtlas.Derive

namespace Grammar

variable (g : Grammar)

open TokenParser

/-! ## Members -/

/-- Whether a literal counts the members of a tuple. -/
def isIndex : Literal → Bool
  | .integer n letters => letters = "" && n < Nat.pow 2 32
  | _ => false

/-- The member of a struct or a tuple. The result says whether it has a name. -/
def member : TokenParser Bool := do
  match ← get with
  | .literal l :: _ =>
    guard (isIndex l)
    drop 1
    return false
  | _ =>
    name
    return true

/-! ## Ranges -/

/-- The beginning of a path in an expression or a pattern, apart from names. -/
def pathWordAhead : Test :=
  Test.any [Test.wordOf ("Self" :: pathWords), Test.mark "::", Test.mark "<"]

/-- What may follow a range without an end. -/
def afterOpenRange : Test :=
  Test.any [Test.atEnd, Test.mark "|", Test.mark "=", Test.only ":" ["::"], Test.mark ",",
    Test.mark ";", Test.word "if"]

/-- An end of a range, if there is one. -/
def rangeEnd? : TokenParser Bool := do
  if ← ahead afterOpenRange then return false
  if ← ahead Test.literal then literal
  else if ← ahead (Test.any [Test.name, pathWordAhead]) then
    let _ ← g.qualifiedPath true
  else
    word "const"
    g.attributedBlock
  return true

/-- The dots of a range and what follows them. A range that includes its end needs one. The result
says whether there is one. -/
def restOfRange : TokenParser Bool := do
  if ← takeIf 3 (Test.any [Test.mark "..=", Test.mark "..."]) then
    guard (← g.rangeEnd?)
    return true
  else
    mark ".."
    g.rangeEnd?

/-! ## Patterns -/

/-- Patterns with bars between them, and whether they are a single range with one end. -/
def alternativesOf (single : TokenParser Bool) : TokenParser Bool := do
  let leading ← mark? "|"
  let isOpen ← single
  let several ← iterate (fun _ => do
    if ← ahead (Test.only "|" ["||", "|="]) then
      mark "|"
      let _ ← single
      return some true
    else return none) leading
  return isOpen && !several

/-- Patterns with commas between them. -/
def patternList : TokenParser Unit :=
  list do
    let _ ← alternativesOf g.pattern

/-- A member with its pattern, or a name that stands for both. -/
def fieldPattern : TokenParser Unit := do
  let boxed ← word? "box"
  let byReference ← word? "ref"
  let mutable ← word? "mut"
  if boxed || byReference || mutable then name
  else
    let named ← member
    if !named || (← ahead (Test.mark ":")) then
      mark ":"
      let _ ← alternativesOf g.pattern

/-- Members with their patterns, and two dots for the others. -/
def fieldPatterns : TokenParser Unit :=
  iterate (fun _ => do
    if ← ahead Test.atEnd then return none
    g.outerAttributes
    if ← mark? ".." then return none
    g.fieldPattern
    if ← ahead Test.atEnd then return none
    mark ","
    return some ()) ()

/-- A pattern that begins with a path. -/
def pathPattern : TokenParser Bool := do
  let (qualified, p) ← g.qualifiedPath true
  if !qualified && p.isPlain && (← ahead (Test.only "!" ["!="])) then
    mark "!"
    anyGroup
    return false
  else if ← ahead (Test.group .braces) then
    within .braces g.fieldPatterns
    return false
  else if ← ahead (Test.group .parens) then
    within .parens g.patternList
    return false
  else if ← ahead (Test.mark "..") then return !(← g.restOfRange)
  else return false

/-- A name for what is matched, perhaps with a pattern for it. -/
def namePattern : TokenParser Unit := do
  let _ ← word? "ref"
  let _ ← word? "mut"
  take 1 (Test.any [Test.name, Test.word "self"])
  if ← mark? "@" then
    let _ ← g.pattern

/-- A slice. A range with one end needs parentheses in it. -/
def slicePattern : TokenParser Unit :=
  within .brackets do
    list do
      guard !(← alternativesOf g.pattern)

/-- A pattern without alternatives. The result says whether it is a range with one end. -/
def patternAt : TokenParser Bool := do
  let afterPathName := Test.any [Test.mark "::", Test.mark "!", Test.group .braces,
    Test.group .parens, Test.mark ".."]
  let pathAhead := Test.any [Test.and Test.name (Test.second afterPathName),
    Test.and (Test.word "self") (Test.second (Test.mark "::")), Test.mark "::", Test.mark "<",
    Test.wordOf ["Self", "super", "crate"]]
  let constantAhead := Test.any [Test.mark "-", Test.literal, Test.word "const"]
  if ← ahead pathAhead then g.pathPattern
  else if ← word? "_" then return false
  else if ← word? "box" then
    let _ ← g.pattern
    return false
  else if ← ahead constantAhead then
    guard (← g.rangeEnd?)
    if ← ahead (Test.mark "..") then return !(← g.restOfRange) else return false
  else if ← mark? "&" then
    let _ ← word? "mut"
    let _ ← g.pattern
    return false
  else if ← ahead (Test.group .parens) then
    within .parens g.patternList
    return false
  else if ← ahead (Test.group .brackets) then
    g.slicePattern
    return false
  else if ← ahead (Test.only ".." ["..."]) then g.restOfRange
  else
    g.namePattern
    return false

/-- A pattern with its alternatives. -/
def alternatives : TokenParser Unit := do
  let _ ← alternativesOf g.patternAt

end Grammar

end ApiAtlas.Derive
