import ApiAtlas.Derive.Grammar.TokenParser

/-!
# The categories of the grammar

The categories refer to each other, so each is a function of a `Grammar`: the parsers of all
categories for what lies deeper. A parser turns to it only behind a token that it has read, and thus
never more often than there are tokens.
-/

namespace ApiAtlas.Derive

/-- What the reading of an expression leaves for the choices that follow it. -/
inductive ExpressionShape where
  /-- A range, which is no left operand. -/
  | range
  /-- A comparison, which is no left operand of another one. -/
  | comparison
  /-- A block or a control structure, which may stand as a statement without a semicolon. -/
  | block
  /-- A macro with braces, which may do so too. -/
  | bracedMacro
  | other
deriving DecidableEq, Repr

/-- How tightly operators bind, from the loosest on. -/
inductive Precedence where
  | lowest
  | assignment
  | range
  | or
  | and
  | comparison
  | bitOr
  | bitXor
  | bitAnd
  | shift
  | sum
  | product
  | cast
deriving DecidableEq, Repr

/-- The place of a precedence among all. -/
def Precedence.rank : Precedence → Nat
  | .lowest => 0
  | .assignment => 1
  | .range => 2
  | .or => 3
  | .and => 4
  | .comparison => 5
  | .bitOr => 6
  | .bitXor => 7
  | .bitAnd => 8
  | .shift => 9
  | .sum => 10
  | .product => 11
  | .cast => 12

/-- What the reading of a type leaves for the choices that follow it. -/
inductive TypeShape where
  /-- A single name, with or without arguments in angle brackets. -/
  | name
  /-- Another path. -/
  | path
  /-- A single bound. -/
  | bound
  /-- A type in parentheses. -/
  | parens
  | other
deriving DecidableEq, Repr

/-- What the reading of a path leaves for the choices that follow it. -/
structure PathShape where
  /-- The name of the last segment. -/
  last : String
  /-- Whether the last segment has arguments. -/
  hasArguments : Bool
  /-- Whether the path consists of names alone. -/
  isPlain : Bool
  /-- Whether the path consists of one segment. -/
  isSingle : Bool
deriving DecidableEq, Repr

/-- A bound of a type parameter. -/
inductive BoundShape where
  /-- A trait, with the name of the last segment of its path. -/
  | trait (name : String)
  /-- A lifetime. -/
  | lifetime (name : String)
  /-- The parameters that a type may capture. -/
  | captures
deriving DecidableEq, Repr

/-- Whether a bound is a trait. -/
def BoundShape.isTrait : BoundShape → Bool
  | .trait _ => true
  | _ => false

/-- Where a bound stands, as far as it decides what the bound may be. -/
structure BoundPlace where
  /-- The captured parameters may be named. -/
  captures : Bool
  /-- The trait may be marked as constant. -/
  constant : Bool

/-- The parsers of what lies deeper. -/
structure Grammar where
  /-- An expression. The flag says whether braces behind a path are part of it. -/
  expression : Bool → TokenParser ExpressionShape
  /-- An operand with what is before and behind it. -/
  operand : Bool → TokenParser ExpressionShape
  /-- The operators that follow an operand and bind at least as tightly as said. -/
  operators : Bool → Precedence → ExpressionShape → TokenParser ExpressionShape
  /-- An expression as a statement or as the arm of a `match`. -/
  statementExpression : TokenParser ExpressionShape
  /-- A type. The flag says whether several bounds may follow each other. -/
  type : Bool → TokenParser TypeShape
  bound : BoundPlace → TokenParser BoundShape
  /-- A pattern without alternatives, and whether it is a range with one end. -/
  pattern : TokenParser Bool
  statements : TokenParser Unit
  item : TokenParser Unit
  /-- The paths that a declaration imports. -/
  imports : TokenParser Unit

/-- The grammar of what has no tokens. -/
def Grammar.empty : Grammar where
  expression _ := failure
  operand _ := failure
  operators _ _ _ := failure
  statementExpression := failure
  type _ := failure
  bound _ := failure
  pattern := failure
  statements := failure
  item := failure
  imports := failure

end ApiAtlas.Derive
