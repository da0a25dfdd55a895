import ApiAtlas.OpenApi.PathItem
import ApiAtlas.OpenApi.Security
import ApiAtlas.Value.Json
import ApiAtlas.Value.Yaml

/-!
# The finished document

An OpenAPI document of version 3.0.0 as a value: metadata, paths in ascending order, components and
security. What is empty is left out when the document is written, except for the paths.
-/

namespace ApiAtlas.OpenApi

open Value

/-- Whom to ask about the interface. -/
structure Contact where
  name : Option String
  url : Option String
  email : Option String
deriving DecidableEq, Repr

/-- The terms under which the interface may be used. -/
structure License where
  name : Option String
  url : Option String
deriving DecidableEq, Repr

/-- A server that offers the interface. -/
structure Server where
  url : String
  description : Option String
deriving DecidableEq, Repr

/-- A tag that groups operations. -/
structure Tag where
  name : String
  description : Option String
deriving DecidableEq, Repr

/-- The metadata of a document. -/
structure Info where
  title : String
  description : Option String
  termsOfService : Option String
  contact : Option Contact
  license : Option License
  version : String
deriving DecidableEq, Repr

/-- A finished document. Security schemes are keyed by the names that `security` lists. -/
structure Document where
  info : Info
  tags : List Tag
  servers : List Server
  paths : SortedMap PathItem
  schemas : Keyed String Schema
  securitySchemes : Keyed String SecurityScheme
  security : List String

/-! ## As document values -/

/-- A contact as a mapping. -/
def Contact.toValue (c : Contact) : Value :=
  .map (optionally "name" (c.name.map .str) ++ optionally "url" (c.url.map .str)
    ++ optionally "email" (c.email.map .str))

/-- A license as a mapping. -/
def License.toValue (l : License) : Value :=
  .map (optionally "name" (l.name.map .str) ++ optionally "url" (l.url.map .str))

/-- A server as a mapping. -/
def Server.toValue (s : Server) : Value :=
  .map (("url", .str s.url) :: optionally "description" (s.description.map .str))

/-- A tag as a mapping. -/
def Tag.toValue (t : Tag) : Value :=
  .map (("name", .str t.name) :: optionally "description" (t.description.map .str))

/-- The metadata as a mapping. -/
def Info.toValue (i : Info) : Value :=
  .map (("title", .str i.title)
    :: optionally "description" (i.description.map .str)
    ++ optionally "termsOfService" (i.termsOfService.map .str)
    ++ optionally "contact" (i.contact.map Contact.toValue)
    ++ optionally "license" (i.license.map License.toValue)
    ++ [("version", .str i.version)])

namespace Document

variable (d : Document)

/-- The components as the entries of a mapping, without those that are empty. -/
def componentEntries : List (String × Value) :=
  let block {α : Type} (key : String) (f : α → Value) (l : Keyed String α) :=
    optionally key (if l.isEmpty then none else some (.map (l.map fun e => (e.1, f e.2))))
  block "schemas" Schema.toValue d.schemas
    ++ block "securitySchemes" SecurityScheme.toValue d.securitySchemes

/-- The document as a mapping. -/
def toValue : Value :=
  let components := d.componentEntries
  .map (("openapi", .str "3.0.0") :: ("info", d.info.toValue)
    :: listEntry "tags" Tag.toValue d.tags
    ++ listEntry "servers" Server.toValue d.servers
    ++ ("paths", .map (d.paths.toList.map fun e => (e.1, e.2.toValue)))
    :: optionally "components" (if components.isEmpty then none else some (.map components))
    ++ listEntry "security" (fun id => .map [(id, .seq [])]) d.security)

/-- The YAML text of the document. -/
def yaml : String := d.toValue.yaml

/-- The JSON text of the document, one entry a line. -/
def json : String := d.toValue.prettyJson

end Document

end ApiAtlas.OpenApi
