/-!
# Naming styles

The eight ways to write the snake-case name of a field. They know only ASCII letters and the
underscore; all other characters are copied.
-/

namespace ApiAtlas.Derive

/-- A way to write the name of a field. -/
inductive NamingStyle where
  | lower
  | upper
  | pascal
  | camel
  | snake
  | screamingSnake
  | kebab
  | screamingKebab
deriving DecidableEq, Repr

namespace NamingStyle

/-- All styles. -/
def all : List NamingStyle :=
  [.lower, .upper, .pascal, .camel, .snake, .screamingSnake, .kebab, .screamingKebab]

/-- The name of a style, written in that style. -/
def name : NamingStyle → String
  | .lower => "lowercase"
  | .upper => "UPPERCASE"
  | .pascal => "PascalCase"
  | .camel => "camelCase"
  | .snake => "snake_case"
  | .screamingSnake => "SCREAMING_SNAKE_CASE"
  | .kebab => "kebab-case"
  | .screamingKebab => "SCREAMING-KEBAB-CASE"

/-- The style of a name. -/
def ofName? (name : String) : Option NamingStyle := all.find? (·.name = name)

/-- Drop the underscores and write the first letter of every word in upper case. The flag says
whether a word begins. -/
def pascalFrom : Bool → List Char → List Char
  | _, [] => []
  | fresh, c :: rest =>
    if c = '_' then pascalFrom true rest
    else (if fresh then c.toUpper else c) :: pascalFrom false rest

/-- Write the first letter in lower case. -/
def lowerFirst : List Char → List Char
  | [] => []
  | c :: rest => c.toLower :: rest

/-- Write hyphens for underscores. -/
def hyphenate (cs : List Char) : List Char := cs.map fun c => if c = '_' then '-' else c

/-- The characters of a field's name as the style writes them. -/
def applyChars (s : NamingStyle) (cs : List Char) : List Char :=
  match s with
  | .lower | .snake => cs
  | .upper | .screamingSnake => cs.map Char.toUpper
  | .pascal => pascalFrom true cs
  | .camel => lowerFirst (pascalFrom true cs)
  | .kebab => hyphenate cs
  | .screamingKebab => hyphenate (cs.map Char.toUpper)

/-- The name of a field as the style writes it. -/
def apply (s : NamingStyle) (field : String) : String := String.ofList (s.applyChars field.toList)

end NamingStyle

/-- An identifier without the mark that lets it be a keyword. -/
def plainIdentifier (ident : String) : String :=
  match ident.toList with
  | 'r' :: '#' :: rest => String.ofList rest
  | _ => ident

end ApiAtlas.Derive
