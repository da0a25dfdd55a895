/-!
# Token trees

The text between the parentheses of an attribute, or behind its `=`, as trees: words, literals,
labels and marks at the leaves, and brackets, which always match, at the nodes. A mark is one
character; an operator of several characters is a run of marks that are joint.
-/

namespace ApiAtlas.Derive

/-- A kind of brackets. -/
inductive Delimiter where
  | parens
  | brackets
  | braces
deriving DecidableEq, Repr

/-- A literal. -/
inductive Literal where
  /-- A text, with what it denotes. -/
  | text (value : String)
  /-- An integer, with what it denotes and the letters that follow its digits. -/
  | integer (value : Nat) (suffix : String)
  /-- A number with a point or an exponent, as it is spelled. -/
  | float (spelling : String)
  /-- A character, a byte, or a string of bytes. -/
  | other
deriving DecidableEq, Repr

/-- A token, or a pair of brackets with what they enclose. -/
inductive TokenTree where
  /-- An identifier or keyword. -/
  | word (name : String)
  | literal (l : Literal)
  /-- The name of a loop or of a lifetime. -/
  | label (name : String)
  /-- A character of an operator or separator, and whether another one follows it directly. -/
  | mark (c : Char) (joint : Bool)
  | group (d : Delimiter) (content : List TokenTree)

namespace TokenTree

mutual

/-- The number of tokens in a tree. Brackets count as one. -/
def size : TokenTree → Nat
  | .word _ | .literal _ | .label _ | .mark _ _ => 1
  | .group _ content => 1 + sizes content

/-- The number of tokens in a list of trees. -/
def sizes : List TokenTree → Nat
  | [] => 0
  | t :: rest => t.size + sizes rest

end

end TokenTree

end ApiAtlas.Derive
