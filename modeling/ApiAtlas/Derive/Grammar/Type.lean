import ApiAtlas.Derive.Grammar.Path

/-!
# Types and their bounds

A type may be a sum of bounds, but not everywhere: behind `&`, `*`, `as` and an arrow a plus sign
belongs to what is around the type.
-/

namespace ApiAtlas.Derive

namespace Grammar

variable (g : Grammar)

open TokenParser

/-! ## Parameters -/

/-- A generic parameter: a type, a lifetime or a constant. -/
def parameter : TokenParser Unit := do
  let stop := Test.any [Test.mark ",", Test.mark ">"]
  g.outerAttributes
  if ← ahead Test.name then
    name
    if ← mark? ":" then g.parameterBounds (Test.any [stop, Test.mark "="])
    if ← mark? "=" then
      let _ ← g.type true
  else if ← ahead Test.label then
    label
    if ← mark? ":" then chained "+" stop label
  else
    word "const"
    name
    mark ":"
    let _ ← g.type true
    if ← mark? "=" then g.constantArgument

/-- Generic parameters in angle brackets. -/
def parameters : TokenParser Unit := do
  mark "<"
  separated "," (Test.mark ">") g.parameter
  mark ">"

/-- The parameters that hold for what follows, if there are any. -/
def binder? : TokenParser Bool := do
  if ← word? "for" then
    g.parameters
    return true
  else return false

/-! ## Bounds -/

/-- A trait as a bound: a path behind a binder and the marks that weaken it. -/
def traitBound (constant : Bool) : TokenParser BoundShape := do
  let bindsBefore ← g.binder?
  let marked ← ahead (Test.any [Test.group .brackets, Test.word "const"])
  if ← ahead (Test.group .brackets) then within .brackets (word "const")
  else
    let _ ← word? "const"
  guard (constant || !marked)
  let weakened ← mark? "?"
  let binds ← if weakened && !bindsBefore then g.binder? else pure bindsBefore
  let (p, _) ← g.withParentheses (← g.path false)
  guard !(binds && weakened)
  return .trait p.last

/-- The parameters that a type may capture. -/
def captures : TokenParser Unit := do
  word "use"
  mark "<"
  separated "," (Test.mark ">") (take 1 (Test.any [Test.label, Test.name, Test.word "Self"]))
  mark ">"

/-- A bound. A trait may stand in parentheses. -/
def boundAt (place : BoundPlace) : TokenParser BoundShape := do
  match ← get with
  | .label name :: _ =>
    label
    return .lifetime name
  | ts =>
    if Test.word "use" ts then
      captures
      guard place.captures
      return .captures
    else if Test.group .parens ts then within .parens (g.traitBound place.constant)
    else g.traitBound place.constant

/-- Whether a plus sign is followed by another bound. -/
def beginsBound (constant : Bool) : Test := fun ts =>
  Test.any [Test.anyWord, Test.mark "::", Test.mark "?", Test.label, Test.group .parens] ts ||
    (constant && Test.group .brackets ts)

/-- The bounds that follow the first one. The result says whether one of them is a trait, given
whether one before is. -/
def moreBounds (place : BoundPlace) (found : Bool) : TokenParser Bool :=
  iterate (fun found => do
    if ← mark? "+" then
      if ← ahead (beginsBound place.constant) then
        return some ((← g.boundAt place).isTrait || found)
      else return none
    else return none) found

/-- Bounds, at least one of which has to be a trait. The flag says whether there may be several. -/
def bounds (place : BoundPlace) (several : Bool) : TokenParser Unit := do
  let first ← g.boundAt place
  guard (← if several then g.moreBounds place first.isTrait else pure first.isTrait)

/-! ## Functions -/

/-- Where a function comes from. -/
def origin : TokenParser Unit := do
  if ← word? "extern" then
    let _ ← takeIf 1 Test.text

/-- The type that a function returns. The flag says whether it may be a sum. -/
def result (several : Bool) : TokenParser Unit := do
  if ← mark? "->" then
    let _ ← g.type several

/-- A parameter of a function type. The first one may be `self`. -/
def functionParameter (isFirst : Bool) : TokenParser Unit := do
  let mutableSelf ←
    if isFirst then takeIf 1 (Test.and (Test.word "mut") (Test.second (Test.word "self")))
    else pure false
  let selfAhead ← ahead (Test.word "self")
  let nameAhead ← ahead (Test.any [Test.name, Test.word "_"])
  if (nameAhead || (isFirst && selfAhead)) && (← ahead (Test.second (Test.only ":" ["::"]))) then
    drop 2
    let _ ← g.type true
  else if mutableSelf then word "self"
  else
    let _ ← g.type true

/-- The parameters of a function type, the last of which may stand for any number. -/
def functionParameters : TokenParser Unit := do
  let named := Test.and (Test.any [Test.name, Test.word "_"]) (Test.second
    (Test.and (Test.mark ":") (Test.second (Test.mark "..."))))
  let _ ← iterate (fun isFirst => do
    if ← ahead Test.atEnd then return none
    g.outerAttributes
    if ← ahead (Test.any [Test.mark "...", named]) then
      let _ ← takeIf 2 named
      mark "..."
      let _ ← mark? ","
      return none
    g.functionParameter isFirst
    if ← ahead Test.atEnd then return none
    mark ","
    return some false) true

/-- A function type behind its binder. -/
def functionType : TokenParser Unit := do
  let _ ← word? "unsafe"
  origin
  word "fn"
  within .parens g.functionParameters
  g.result false

/-! ## Types -/

/-- The bounds that follow a first one in parentheses or behind a plus sign. The result says
whether there are any. -/
def summands : TokenParser Bool :=
  iterate (fun _ => do
    if ← mark? "+" then
      let _ ← g.boundAt ⟨false, false⟩
      return some true
    else return none) false

/-- A type that begins with a parenthesis: a tuple, a sum of bounds, or one type. -/
def parenthesizedType (several : Bool) : TokenParser TypeShape := do
  if ← ahead (Test.inside .parens Test.atEnd) then
    group .parens
    return .other
  else if ← ahead (Test.inside .parens Test.label) then
    let _ ← within .parens (g.type true)
    return .parens
  else if ← ahead (Test.inside .parens (Test.mark "?")) then
    let _ ← within .parens (g.traitBound false)
    return if ← g.summands then .other else .bound
  else
    let (first, isTuple) ← within .parens do
      let first ← g.type true
      if ← mark? "," then
        list do
          let _ ← g.type true
        return (first, true)
      else return (first, false)
    if isTuple then return .other
    else if several && (first = .name || first = .path || first = .bound) then
      return if ← g.summands then .other else .parens
    else return .parens

/-- A type that begins with a path: the path, a macro, or a sum of bounds. -/
def pathType (several bound : Bool) : TokenParser TypeShape := do
  let (qualified, p) ← g.typePath
  if qualified then return .other
  else if p.isPlain && (← ahead (Test.only "!" ["!="])) then
    mark "!"
    anyGroup
    return .other
  else if bound || (several && (← ahead (Test.mark "+"))) then
    if several && (← ahead (Test.mark "+")) then
      let _ ← g.moreBounds ⟨false, false⟩ true
      return .other
    else return .bound
  else return if p.isSingle then .name else .path

/-- A slice or an array. -/
def bracketedType : TokenParser Unit :=
  within .brackets do
    let _ ← g.type true
    if ← mark? ";" then
      let _ ← g.expression true

/-- A type that its first word or mark tells. -/
def markedType (several : Bool) : TokenParser Unit := do
  if ← word? "dyn" then
    let _ ← mark? "*"
    g.bounds ⟨false, false⟩ several
  else if ← ahead (Test.group .brackets) then g.bracketedType
  else if ← mark? "*" then
    take 1 (Test.wordOf ["const", "mut"])
    let _ ← g.type false
  else if ← mark? "&" then
    let _ ← label?
    let _ ← word? "mut"
    let _ ← g.type false
  else if ← mark? "!" then return
  else if ← word? "impl" then g.bounds ⟨true, true⟩ several
  else if ← word? "_" then return
  else
    require Test.label
    g.bounds ⟨false, false⟩ true

/-- A type. The flag says whether it may be a sum of bounds. -/
def typeAt (several : Bool) : TokenParser TypeShape := do
  let pathAhead := Test.any [Test.name, Test.wordOf ["super", "self", "Self", "crate"]]
  let functionAhead := Test.wordOf ["fn", "unsafe", "extern"]
  let bound ← g.binder?
  if bound then require (Test.any [pathAhead, functionAhead])
  if ← ahead (Test.group .parens) then g.parenthesizedType several
  else if ← ahead functionAhead then
    g.functionType
    return .other
  else if ← ahead (Test.any [pathAhead, Test.mark "::", Test.mark "<"]) then
    g.pathType several bound
  else
    g.markedType several
    return .other

end Grammar

end ApiAtlas.Derive
