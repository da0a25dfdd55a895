import ApiAtlas.Derive.TokenTree
import ApiAtlas.Numeral
import ApiAtlas.Text.Blank

/-!
# Reading token trees from text

`TokenTree.scan?` reads a whole text or none of it. A text is first cut into lexemes, which are
leaves and single brackets, and the brackets are then matched. Blanks and comments separate lexemes
and leave nothing behind, apart from doc comments, which stand for an attribute.
-/

namespace ApiAtlas.Derive

/-- A leaf of a token tree, or one bracket. -/
inductive Lexeme where
  | leaf (t : TokenTree)
  | opening (d : Delimiter)
  | closing (d : Delimiter)

namespace Lexer

/-! ## Characters -/

/-- Whether a character separates lexemes: the blanks and the two marks of writing direction. -/
def isBlank (c : Char) : Bool := Text.isBlank c || c = '\u200e' || c = '\u200f'

/-- Whether a character begins a word. All letters beyond ASCII do, and no other character beyond
ASCII can stand outside a literal or comment. -/
def beginsWord (c : Char) : Bool := c.isAlpha || c = '_' || (0x80 ≤ c.toNat && !isBlank c)

/-- Whether a character continues a word. -/
def continuesWord (c : Char) : Bool := beginsWord c || c.isDigit

/-- Whether a character is a digit or separates digits. -/
def isDigitOrGap (c : Char) : Bool := c.isDigit || c = '_'

/-- The characters of operators and separators. -/
def markChars : List Char := "~!@#$%^&*-=+|;:,<.>/?".toList

/-- The bracket that a character is. -/
def bracket? : Char → Option Lexeme
  | '(' => some (.opening .parens)
  | ')' => some (.closing .parens)
  | '[' => some (.opening .brackets)
  | ']' => some (.closing .brackets)
  | '\x7b' => some (.opening .braces)
  | '\x7d' => some (.closing .braces)
  | _ => none

/-- What is read at the start of a text, and the rest of it. -/
abbrev Cut (α : Type) := Option (α × List Char)

/-! ## Words -/

/-- The word at the start of a text. -/
def word? : List Char → Cut String
  | c :: rest =>
    if beginsWord c then
      some (String.ofList (c :: rest.takeWhile continuesWord), rest.dropWhile continuesWord)
    else none
  | [] => none

/-- The letters that directly follow a literal, and the rest. They may be missing. -/
def suffix (cs : List Char) : String × List Char := (word? cs).getD ("", cs)

/-! ## Texts and characters -/

/-- The character with the given number in hexadecimal digits, which gaps may separate. -/
def codePoint? (digits : List Char) : Option Char :=
  (Numeral.ofDigits? 16 (digits.filter (· != '_'))).bind fun n =>
    if n.isValidChar then some (Char.ofNat n) else none

/-- The character that an escape denotes, after its backslash. -/
def escape? : List Char → Cut Char
  | 'x' :: a :: b :: rest => (codePoint? [a, b]).map (·, rest)
  | 'u' :: '\x7b' :: rest =>
    (codePoint? (rest.takeWhile (· != '\x7d'))).map (·, (rest.dropWhile (· != '\x7d')).drop 1)
  | e :: rest =>
    ([('n', '\n'), ('r', '\r'), ('t', '\t'), ('\\', '\\'), ('0', '\x00'), ('\'', '\''),
      ('"', '"')].lookup e).map (·, rest)
  | [] => none

/-- Whether a character is dropped after a line that ends in a backslash. -/
def isIndent (c : Char) : Bool := c = ' ' || c = '\t' || c = '\n' || c = '\r'

/-- The text of a quoted literal up to its closing quote, given a bound on its length. A line may
be continued by a backslash at its end, and every line ends in a single line feed. -/
def quotedFrom? : Nat → List Char → Cut (List Char)
  | 0, _ => none
  | _, [] => none
  | _ + 1, '"' :: rest => some ([], rest)
  | n + 1, '\\' :: '\n' :: rest | n + 1, '\\' :: '\r' :: '\n' :: rest =>
    quotedFrom? n (rest.dropWhile isIndent)
  | n + 1, '\\' :: rest =>
    (escape? rest).bind fun e => (quotedFrom? n e.2).map fun r => (e.1 :: r.1, r.2)
  | n + 1, '\r' :: '\n' :: rest => (quotedFrom? n rest).map fun r => ('\n' :: r.1, r.2)
  | n + 1, c :: rest => (quotedFrom? n rest).map fun r => (c :: r.1, r.2)

/-- The text of a quoted literal after its opening quote. -/
def quoted? (cs : List Char) : Cut String :=
  (quotedFrom? (cs.length + 1) cs).map fun r => (String.ofList r.1, r.2)

/-- The text of a raw literal, which ends at a quote with as many hashes as it began with. -/
def rawFrom? (hashes : Nat) : List Char → Cut (List Char)
  | [] => none
  | c :: rest =>
    if c = '"' ∧ (List.replicate hashes '#').isPrefixOf rest then some ([], rest.drop hashes)
    else (rawFrom? hashes rest).map fun r => (c :: r.1, r.2)

/-- The text of a raw literal after its first letters. -/
def raw? (cs : List Char) : Cut String :=
  match cs.dropWhile (· == '#') with
  | '"' :: rest =>
    (rawFrom? (cs.takeWhile (· == '#')).length rest).map fun r => (String.ofList r.1, r.2)
  | _ => none

/-- A character or byte after its opening quote. -/
def character? (cs : List Char) : Cut Unit :=
  let body? : Cut Char := match cs with
    | '\\' :: rest => escape? rest
    | c :: rest => some (c, rest)
    | [] => none
  match body? with
  | some (_, '\'' :: rest) => some ((), rest)
  | _ => none

/-! ## Numbers -/

/-- The exponent of a number, after its letter. -/
def exponent? (cs : List Char) : Cut (List Char) :=
  let gaps := cs.takeWhile (· == '_')
  let (sign, rest) := match cs.dropWhile (· == '_') with
    | '+' :: rest => (['+'], rest)
    | '-' :: rest => (['-'], rest)
    | rest => ([], rest)
  let digits := rest.takeWhile isDigitOrGap
  if digits.any Char.isDigit then some (gaps ++ sign ++ digits, rest.dropWhile isDigitOrGap)
  else none

/-- The exponent of a number with its letter. -/
def letterAndExponent? : List Char → Cut (List Char)
  | c :: rest =>
    if c = 'e' ∨ c = 'E' then (exponent? rest).map fun r => (c :: r.1, r.2) else none
  | [] => none

/-- A number that is no integer: digits with a point, an exponent or both. A point that begins the
marks of a range, or that precedes the name of a member, is none of the number's. -/
def float? (cs : List Char) : Cut (List Char) :=
  let digits := cs.takeWhile isDigitOrGap
  match cs.dropWhile isDigitOrGap with
  | '.' :: rest =>
    if rest.head?.any (fun c => c = '.' || beginsWord c) then none
    else
      let fraction := rest.takeWhile isDigitOrGap
      let later := rest.dropWhile isDigitOrGap
      let (exponent, later) := (letterAndExponent? later).getD ([], later)
      some (digits ++ '.' :: fraction ++ exponent, later)
  | rest => (letterAndExponent? rest).map fun r => (digits ++ r.1, r.2)

/-- The digits of an integer in the given base. -/
def digits? (base : Nat) (cs : List Char) : Cut Nat :=
  let inNumber (c : Char) : Bool := c = '_' || Numeral.isDigitIn base c
  (Numeral.ofDigits? base ((cs.takeWhile inNumber).filter (· != '_'))).map
    (·, cs.dropWhile inNumber)

/-- An integer in the base that its first characters name. -/
def integer? : List Char → Cut Nat
  | '0' :: 'x' :: rest => digits? 16 rest
  | '0' :: 'o' :: rest => digits? 8 rest
  | '0' :: 'b' :: rest => digits? 2 rest
  | cs => digits? 10 cs

/-- A number with the letters that follow it. -/
def number? (cs : List Char) : Cut Literal :=
  match float? cs with
  | some (spelling, rest) =>
    let (letters, rest) := suffix rest
    some (.float (String.ofList spelling ++ letters), rest)
  | none => (integer? cs).map fun r => (.integer r.1 (suffix r.2).1, (suffix r.2).2)

/-! ## Literals -/

/-- A literal apart from numbers, without the letters that may follow it. -/
def quotation? : List Char → Cut Literal
  | '"' :: rest => (quoted? rest).map fun r => (.text r.1, r.2)
  | '\'' :: rest => (character? rest).map fun r => (.other, r.2)
  | 'r' :: rest => (raw? rest).map fun r => (.text r.1, r.2)
  | 'b' :: '"' :: rest | 'c' :: '"' :: rest => (quoted? rest).map fun r => (.other, r.2)
  | 'b' :: '\'' :: rest => (character? rest).map fun r => (.other, r.2)
  | 'b' :: 'r' :: rest | 'c' :: 'r' :: rest => (raw? rest).map fun r => (.other, r.2)
  | _ => none

/-- A literal. -/
def literal? (cs : List Char) : Cut Literal :=
  if cs.head?.any Char.isDigit then number? cs
  else (quotation? cs).map fun r => (r.1, (suffix r.2).2)

/-! ## Comments -/

/-- The text of a comment up to its end, which is the end of the line. -/
def lineComment (cs : List Char) : String × List Char :=
  (String.ofList (cs.takeWhile (· != '\n')), cs.dropWhile (· != '\n'))

/-- The text of a comment up to its end, when so many comments inside it are still open. -/
def blockComment? : Nat → List Char → Cut (List Char)
  | depth, '/' :: '*' :: rest =>
    (blockComment? (depth + 1) rest).map fun r => ('/' :: '*' :: r.1, r.2)
  | 0, '*' :: '/' :: rest => some ([], rest)
  | depth + 1, '*' :: '/' :: rest =>
    (blockComment? depth rest).map fun r => ('*' :: '/' :: r.1, r.2)
  | depth, c :: rest => (blockComment? depth rest).map fun r => (c :: r.1, r.2)
  | _, [] => none

/-- The attribute that a doc comment stands for. One inside what it describes has an exclamation
mark. -/
def docAttribute (inner : Bool) (text : String) : List Lexeme :=
  let hash : List TokenTree := .mark '#' false :: if inner then [.mark '!' false] else []
  let content : List TokenTree := [.word "doc", .mark '=' false, .literal (.text text)]
  (hash ++ [TokenTree.group .brackets content]).map .leaf

/-- A comment, with what stands in its place. -/
def comment? : List Char → Cut (List Lexeme)
  | '/' :: '/' :: rest =>
    let (text, later) := lineComment rest
    match text.toList with
    | '!' :: doc => some (docAttribute true (String.ofList doc), later)
    | '/' :: '/' :: _ => some ([], later)
    | '/' :: doc => some (docAttribute false (String.ofList doc), later)
    | _ => some ([], later)
  | '/' :: '*' :: rest => match blockComment? 0 rest with
    | some ('!' :: doc, later) => some (docAttribute true (String.ofList doc), later)
    | some (['*'], later) | some ('*' :: '*' :: _, later) => some ([], later)
    | some ('*' :: doc, later) => some (docAttribute false (String.ofList doc), later)
    | some (_, later) => some ([], later)
    | none => none
  | _ => none

/-! ## Marks and labels -/

/-- Whether a mark is joint with what follows it: another mark or a label, but no comment. -/
def isJoint : List Char → Bool
  | '/' :: '/' :: _ | '/' :: '*' :: _ => false
  | c :: _ => markChars.contains c || c = '\''
  | [] => false

/-- A label after its quote. -/
def label? : List Char → Cut String
  | 'r' :: '#' :: rest => (word? rest).map fun r => ("r#" ++ r.1, r.2)
  | cs => word? cs

/-- A token that is neither bracket nor comment. -/
def leaf? (cs : List Char) : Cut TokenTree :=
  match literal? cs with
  | some (l, rest) => some (.literal l, rest)
  | none => match cs with
    | '\'' :: rest => (label? rest).map fun r => (.label r.1, r.2)
    | 'r' :: '#' :: rest => (word? rest).map fun r => (.word ("r#" ++ r.1), r.2)
    | c :: rest =>
      if markChars.contains c then some (.mark c (isJoint rest), rest)
      else (word? cs).map fun r => (.word r.1, r.2)
    | [] => none

/-! ## Whole texts -/

/-- What stands at the start of a text that is not empty, and the rest. -/
def next? : List Char → Cut (List Lexeme)
  | [] => none
  | c :: rest =>
    if isBlank c then some ([], rest)
    else match comment? (c :: rest), bracket? c with
      | some r, _ => some r
      | none, some b => some ([b], rest)
      | none, none => (leaf? (c :: rest)).map fun r => ([.leaf r.1], r.2)

/-- The lexemes of a text; none if some part of it is no lexeme. -/
def lexemes? (cs : List Char) : Option (List Lexeme) :=
  if cs = [] then some []
  else match next? cs with
    | some (found, rest) =>
      if rest.length < cs.length then (lexemes? rest).map (found ++ ·) else none
    | none => none
termination_by cs.length

/-- Match brackets. The trees of the level that is open are collected from the last to the first,
and so are those of every level around it. -/
def nest? : List (Delimiter × List TokenTree) → List TokenTree → List Lexeme →
    Option (List TokenTree)
  | [], level, [] => some level.reverse
  | _ :: _, _, [] => none
  | around, level, .leaf t :: rest => nest? around (t :: level) rest
  | around, level, .opening d :: rest => nest? ((d, level) :: around) [] rest
  | (d, outer) :: around, level, .closing d' :: rest =>
    if d = d' then nest? around (.group d level.reverse :: outer) rest else none
  | [], _, .closing _ :: _ => none

end Lexer

/-- The token trees of a text, which may begin with a byte order mark. -/
def TokenTree.scan? (source : String) : Option (List TokenTree) :=
  let cs := match source.toList with
    | '\ufeff' :: rest => rest
    | cs => cs
  (Lexer.lexemes? cs).bind (Lexer.nest? [] [])

end ApiAtlas.Derive
