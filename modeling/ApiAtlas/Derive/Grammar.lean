import ApiAtlas.Derive.Grammar.Statement

/-!
# The grammar of values and bounds

What an attribute assigns to a key that does not matter here has to be an expression all the same,
and a parameter's bounds have to be bounds. The categories of the grammar are tied together to the
depth that the tokens can reach.
-/

namespace ApiAtlas.Derive

namespace Grammar

/-- The categories, given the parsers for what lies deeper. -/
def deepen (g : Grammar) : Grammar where
  expression := g.expressionAt
  operand := g.operandAt
  operators := g.operatorsAt
  statementExpression := g.statementExpressionAt
  type := g.typeAt
  bound := g.boundAt
  pattern := g.patternAt
  statements := g.statementsAt
  item := g.itemAt
  imports := g.importsAt

/-- The grammar of what is at most so deep. -/
def ofDepth : Nat → Grammar
  | 0 => empty
  | n + 1 => (ofDepth n).deepen

/-- The grammar for some tokens. Going deeper takes a token, so their number bounds the depth. -/
def ofTokens (ts : List TokenTree) : Grammar := ofDepth (TokenTree.sizes ts + 1)

/-- What follows the expression that the tokens begin with; none if they begin with none. -/
def afterExpression? (ts : List TokenTree) : Option (List TokenTree) :=
  ((ofTokens ts).expression true ts).map (·.2)

/-- The names of the bounds that tokens spell, plus signs between them: of a trait the last segment
of its path, and a lifetime as it is. -/
def boundNames? (ts : List TokenTree) : Option (List String) :=
  let g := ofTokens ts
  let step (found : List String) : TokenParser (Option (List String)) := do
    if ← TokenParser.ahead Test.atEnd then return none
    let b ← g.bound ⟨false, true⟩
    if !(← TokenParser.ahead Test.atEnd) then TokenParser.mark "+"
    return some (found ++ match b with
      | .trait name => [name]
      | .lifetime name => ["'" ++ name]
      | .captures => [])
  (TokenParser.iterate step [] ts).map (·.1)

end Grammar

end ApiAtlas.Derive
