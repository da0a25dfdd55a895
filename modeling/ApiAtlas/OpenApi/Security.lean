import ApiAtlas.Value

/-!
# Security schemes

How a client proves who it is: through the authorization header of HTTP, or with a key that a
request carries.
-/

namespace ApiAtlas.OpenApi

open Value

/-- The mechanism of a security scheme. -/
inductive SecurityMechanism where
  | http (scheme : String)
  | apiKey (location name : String)
deriving DecidableEq, Repr

/-- A security scheme, with the format of its bearer tokens if one is known. -/
structure SecurityScheme where
  mechanism : SecurityMechanism
  bearerFormat : Option String
deriving DecidableEq, Repr

namespace SecurityScheme

/-- An authorization scheme of HTTP. -/
def http (scheme : String) : SecurityScheme := ⟨.http scheme, none⟩

/-- A key in a header, the query or a cookie. -/
def apiKey (location name : String) : SecurityScheme := ⟨.apiKey location name, none⟩

/-- The scheme with bearer tokens of this format. -/
def withTokenFormat (s : SecurityScheme) (format : String) : SecurityScheme :=
  { s with bearerFormat := some format }

/-- A security scheme as a mapping: its type first, the rest by key. -/
def toValue (s : SecurityScheme) : Value :=
  let format := optionally "bearerFormat" (s.bearerFormat.map .str)
  match s.mechanism with
  | .http scheme => .map (("type", .str "http") :: format ++ [("scheme", .str scheme)])
  | .apiKey location name =>
    .map (("type", .str "apiKey") :: format ++ [("in", .str location), ("name", .str name)])

end SecurityScheme

end ApiAtlas.OpenApi
