import ApiAtlas.OpenApi
import ApiAtlas.Operation
import ApiAtlas.Registry

/-!
# Documents

A document as it is declared: metadata, rules, and operations in any order. `Document.assemble`,
in `ApiAtlas.Document.Assembly`, makes the finished document of it.
-/

namespace ApiAtlas

open OpenApi (Contact License Server Tag SecurityScheme)

/-- A text, unless it is empty. -/
def unlessEmpty (s : String) : Option String := if s = "" then none else some s

/-- A declared document. -/
structure Document where
  title : String
  description : String
  version : String
  /-- The content type of all bodies but plain texts. -/
  contentType : String
  termsOfService : String
  contact : Contact
  license : License
  servers : List Server
  tags : List Tag
  securities : Keyed String SecurityScheme
  operations : List Operation
  rules : Registry

namespace Document

/-- A document with the built-in rules and nothing to document yet. -/
def blank (title description version : String) : Document where
  title := title
  description := description
  version := version
  contentType := "application/json"
  termsOfService := ""
  contact := ⟨none, none, none⟩
  license := ⟨none, none⟩
  servers := []
  tags := []
  securities := []
  operations := []
  rules := Registry.builtin

variable (doc : Document)

/-- Add an operation; the order of operations does not matter. -/
def withOperation (op : Operation) : Document := { doc with operations := doc.operations ++ [op] }

/-- Add a server. -/
def withServer (url description : String) : Document :=
  { doc with servers := doc.servers ++ [⟨url, unlessEmpty description⟩] }

/-- Set the terms of service. -/
def withTerms (url : String) : Document := { doc with termsOfService := url }

/-- Set the contact. -/
def withContact (name url email : String) : Document :=
  { doc with contact := ⟨unlessEmpty name, unlessEmpty url, unlessEmpty email⟩ }

/-- Set the license. -/
def withLicense (name url : String) : Document :=
  { doc with license := ⟨unlessEmpty name, unlessEmpty url⟩ }

/-- Add a tag. -/
def withTag (name description : String) : Document :=
  { doc with tags := doc.tags ++ [⟨name, unlessEmpty description⟩] }

/-- Set the content type of all bodies but plain texts. -/
def withMediaType (contentType : String) : Document := { doc with contentType := contentType }

/-- Register a security scheme; a second one of the same name replaces the first. -/
def withSecurity (id : String) (scheme : SecurityScheme) : Document :=
  { doc with securities := Keyed.put id scheme doc.securities }

/-- User name and password. -/
def withBasicAuth : Document := doc.withSecurity "basicAuth" (.http "basic")

/-- Bearer tokens. -/
def withBearerAuth : Document :=
  doc.withSecurity "bearerAuth" ((SecurityScheme.http "bearer").withTokenFormat "JWT")

/-- A key in a header, the query or a cookie. -/
def withApiKey (location name : String) : Document :=
  doc.withSecurity "apiKeyAuth" (.apiKey location name)

/-- Render a type through a rule wherever it occurs. -/
def withTypeRule (d : Descriptor) (r : Rule) : Document :=
  { doc with rules := doc.rules.withTypeRule d r }

/-- Give a rule to all types of a kind that have none of their own. -/
def withKindRule (k : Kind) (r : Rule) : Document :=
  { doc with rules := doc.rules.withKindRule k r }

/-- Add rules to every built-in type, after its own. -/
def extendBuiltins (extra : List Rule) : Document :=
  Registry.builtinDescriptors.foldl
    (fun doc d => doc.withTypeRule d (Rule.builtin (d.id?.getD .empty) extra)) doc

/-- The same document with the operations that a function gives, in the same order. -/
def filterMap (select : Operation → Option Operation) : Document :=
  { doc with operations := doc.operations.filterMap select }

end Document

end ApiAtlas
