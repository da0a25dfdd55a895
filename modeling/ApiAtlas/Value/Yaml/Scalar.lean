import ApiAtlas.Value.Yaml.Resolution

/-!
# YAML scalars

How one text is written in block context: plain, in single or double quotes, or as a literal block.
`Style.of` chooses the least intrusive style that the characters of the text allow; `scalar` writes
the text in it.
-/

namespace ApiAtlas.Yaml

/-- The four ways to write a text. -/
inductive Style where
  | plain
  | singleQuoted
  | doubleQuoted
  | literal
deriving DecidableEq

/-! ## Characters -/

/-- The characters that end a line. -/
def isBreak (c : Char) : Bool :=
  c == '\n' || c == '\r' || c == '\u0085' || c == '\u2028' || c == '\u2029'

/-- The characters that may stand in the output as they are. -/
def isPrintable (c : Char) : Bool :=
  let n := c.toNat
  n == 0x0A || (0x20 ≤ n && n ≤ 0x7E)
    || (0xA0 ≤ n && n != 0xFEFF && n != 0xFFFE && n != 0xFFFF)

/-- The characters that separate words. -/
def isSeparator (c : Char) : Bool :=
  c == ' ' || c == '\t' || c == '\x00' || isBreak c

/-- Whether a separator or the end follows. -/
def endsWord : List Char → Bool
  | [] => true
  | c :: _ => isSeparator c

/-! ## Texts that would be misread -/

/-- Whether a character of the first class stands directly before one of the second. -/
def hasPair (p q : Char → Bool) : List Char → Bool
  | a :: b :: rest => (p a && q b) || hasPair p q (b :: rest)
  | _ => false

/-- Whether a colon stands before a separator or at the end. -/
def hasMappingMark : List Char → Bool
  | [] => false
  | c :: rest => (c == ':' && endsWord rest) || hasMappingMark rest

/-- Whether the text opens with a mark that begins something other than a plain text. -/
def opensWithIndicator : List Char → Bool
  | [] => false
  | c :: rest =>
    "#,[]\x7b\x7d&*!|>'\"%@`".toList.contains c
      || ("?:-".toList.contains c && endsWord rest)
      || ['-', '-', '-'].isPrefixOf (c :: rest) || ['.', '.', '.'].isPrefixOf (c :: rest)

/-- Whether the text has marks that begin a comment, a mapping or another structure. -/
def hasIndicator (cs : List Char) : Bool :=
  opensWithIndicator cs || hasMappingMark cs || hasPair isSeparator (· == '#') cs

/-- Whether a text may stand without quotes, on one line. -/
def allowsPlain (cs : List Char) : Bool :=
  cs.all (fun c => isPrintable c && !isBreak c) && !hasIndicator cs
    && cs.head? != some ' ' && cs.getLast? != some ' '

/-- Whether a text may stand in single quotes: a space beside a line break would be lost. -/
def allowsSingleQuotes (cs : List Char) : Bool :=
  cs.all isPrintable && !hasPair (· == ' ') isBreak cs && !hasPair isBreak (· == ' ') cs

/-- Whether a text may stand in a literal block: no space before the end of a line. -/
def allowsLiteral (cs : List Char) : Bool :=
  cs.all isPrintable && !hasPair (· == ' ') isBreak cs && cs.getLast? != some ' '

/-- The style of a text: a text of several lines is a literal block if it can be one, and a text of
one line is plain if that reads back as the same text. -/
def Style.of (s : String) : Style :=
  let cs := s.toList
  if cs.contains '\n' then
    if allowsLiteral cs then .literal else .doubleQuoted
  else if !resolvesElsewhere s && allowsPlain cs then .plain
  else if allowsSingleQuotes cs then .singleQuoted
  else .doubleQuoted

/-! ## Writing -/

/-- The blanks at the start of a line. -/
def indentation (n : Nat) : String := String.ofList (.replicate n ' ')

/-- A number in upper-case hexadecimal digits, filled up with zeros. -/
def hex (width : Nat) (n : Nat) : String :=
  let digits := (Nat.toDigits 16 n).map Char.toUpper
  String.ofList (.replicate (width - digits.length) '0' ++ digits)

/-- The short escapes. -/
def shortEscapes : List (Char × Char) :=
  [('\x00', '0'), ('\x07', 'a'), ('\x08', 'b'), ('\t', 't'), ('\n', 'n'), ('\x0b', 'v'),
    ('\x0c', 'f'), ('\r', 'r'), ('\x1b', 'e'), ('"', '"'), ('\\', '\\'), ('\u0085', 'N'),
    ('\u2028', 'L'), ('\u2029', 'P')]

/-- One character in double quotes. -/
def escapeChar (c : Char) : String :=
  if isPrintable c && !isBreak c && c != '"' && c != '\\' then c.toString
  else match shortEscapes.lookup c with
    | some e => "\\" ++ e.toString
    | none =>
      if c.toNat ≤ 0xFF then "\\x" ++ hex 2 c.toNat
      else if c.toNat ≤ 0xFFFF then "\\u" ++ hex 4 c.toNat
      else "\\U" ++ hex 8 c.toNat

/-- The lines of a text, each that is not empty after `indent` blanks. The flag says that a line has
just begun; the second component of the result, that one begins at the end. -/
def indentLines (indent : Nat) (quote : Char → String) : Bool → List Char → String × Bool
  | fresh, [] => ("", fresh)
  | fresh, c :: rest =>
    if isBreak c then
      let (text, last) := indentLines indent quote true rest
      (c.toString ++ text, last)
    else
      let (text, last) := indentLines indent quote false rest
      ((if fresh then indentation indent else "") ++ quote c ++ text, last)

/-- The body of a single-quoted text; a quote is written twice. -/
def singleQuoted (indent : Nat) (cs : List Char) : String :=
  let (text, fresh) := indentLines indent (fun c => if c = '\'' then "''" else c.toString) false cs
  "'" ++ text ++ (if fresh then indentation indent else "") ++ "'"

/-- The head of a literal block: a width where the text begins with a blank or an empty line, and
what becomes of the line breaks at its end. -/
def literalHead (cs : List Char) : String :=
  let width := match cs with
    | c :: _ => if c = ' ' || isBreak c then "2" else ""
    | [] => ""
  let chomping := match cs.reverse with
    | [] => "-"
    | c :: rest =>
      if !isBreak c then "-"
      else match rest with
        | [] => "+"
        | d :: _ => if isBreak d then "+" else ""
  "|" ++ width ++ chomping

/-- A text as a scalar whose further lines are indented by `indent` blanks. -/
def scalar (indent : Nat) (s : String) : String :=
  let cs := s.toList
  match Style.of s with
  | .plain => s
  | .singleQuoted => singleQuoted indent cs
  | .doubleQuoted => "\"" ++ String.join (cs.map escapeChar) ++ "\""
  | .literal =>
    literalHead cs ++ "\n" ++ (indentLines indent (fun c => c.toString) true cs).1

end ApiAtlas.Yaml
