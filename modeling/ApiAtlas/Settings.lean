import ApiAtlas.Document

/-!
# Settings

The settings from which a document starts. A setting that is not made explicitly may fall back to an
environment variable; an explicit one always wins.
-/

namespace ApiAtlas

/-- The settings of a document, and where it is to be written. -/
structure Settings where
  title : Option String
  description : Option String
  version : Option String
  serverUrl : Option String
  serverDescription : Option String
  contentType : Option String
  output : Option String
deriving DecidableEq, Repr

namespace Settings

/-- No setting is made. -/
def unset : Settings := ⟨none, none, none, none, none, none, none⟩

/-- Set the server. -/
def withServerAt (s : Settings) (url description : String) : Settings :=
  { s with serverUrl := some url, serverDescription := some description }

/-- A server address must name one of the two schemes of the web. -/
def isWebAddress (url : String) : Bool :=
  "http://".toList.isPrefixOf url.toList || "https://".toList.isPrefixOf url.toList

/-- Fill in what is not set from variables. A server description alone is of no use, so it is only
looked up once there is an address. -/
def fillFrom (s : Settings) (lookup : String → Option String) : Settings :=
  let serverUrl := s.serverUrl.or ((lookup "TAILOR_SERVER_URL").filter isWebAddress)
  { title := s.title.or (lookup "TAILOR_TITLE")
    description := s.description.or (lookup "TAILOR_DESCRIPTION")
    version := (s.version.or (lookup "TAILOR_VERSION")).or (lookup "CARGO_PKG_VERSION")
    serverUrl := serverUrl
    serverDescription := s.serverDescription.or
      (serverUrl.bind fun _ => lookup "TAILOR_SERVER_DESCRIPTION")
    contentType := s.contentType.or (lookup "TAILOR_CONTENT_TYPE")
    output := s.output.or (lookup "TAILOR_OPENAPI") }

end Settings

/-- The document that settings start, with one server if an address is set. -/
def Document.ofSettings (s : Settings) : Document :=
  let doc := Document.blank (s.title.getD "API") (s.description.getD "") (s.version.getD "0.1.0")
  let doc := match s.contentType.bind unlessEmpty with
    | some contentType => doc.withMediaType contentType
    | none => doc
  match s.serverUrl with
  | some url => doc.withServer url (s.serverDescription.getD "")
  | none => doc

end ApiAtlas
