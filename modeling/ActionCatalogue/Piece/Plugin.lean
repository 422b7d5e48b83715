import ActionCatalogue.App.Connection
import ActionCatalogue.Piece.Property

/-!
Pieces: plugins with an authorization, and actions that take properties and run. A piece sees the
access token of a connection under a name of its own, before the other connection options.
-/

namespace ActionCatalogue.Piece

open Json

structure OAuth2 where
  url : String
  authUrl : String
  tokenUrl : String
  scope : List String := []
  extra : Object := []
  pingMethod : Option Method := none
  pingPath : Option String := none
  tokenUsesBasicAuth : Bool := false

namespace OAuth2

def fieldNames : List String :=
  ["url", "auth_url", "token_url", "scope", "extra", "ping_method", "ping_path",
    "token_use_basic_auth"]

def ofNode (n : Node) : Reading OAuth2 :=
  n.asRecord fieldNames fun r =>
    OAuth2.mk <$> r.required "url" Node.asText <*> r.required "auth_url" Node.asText
      <*> r.required "token_url" Node.asText <*> r.texts "scope"
      <*> r.orDefault "extra" [] Node.asObject <*> r.optional "ping_method" Method.ofNode
      <*> r.optional "ping_path" Node.asText <*> r.flag "token_use_basic_auth"

end OAuth2

inductive Auth where
  | none
  | oauth2 (auth : OAuth2)
  | secretText (displayName : String)
  | basicAuth (displayName : String)
  | customAuth (displayName : String)

namespace Auth

def kind : Auth → String
  | none => "none"
  | oauth2 _ => "oauth2"
  | secretText _ => "secret_text"
  | basicAuth _ => "basic_auth"
  | customAuth _ => "custom_auth"

/-- Whether the catalogue has no way to connect with it. -/
def isUnsupported : Auth → Bool
  | none | oauth2 _ => false
  | secretText _ | basicAuth _ | customAuth _ => true

end Auth

/-- The connection options as a piece sees them: the token as `access_token`, then the others. -/
def authObject (c : ActionContext) : Object :=
  Entries.putAll [("access_token", (Entries.lookup "token" c.connectionOptions).getD .null)]
    (c.connectionOptions.filter fun entry => entry.1 != "token")

def FetchContext.ofAction (c : ActionContext) : FetchContext :=
  ⟨authObject c, c.options⟩

structure RunContext where
  propsValue : Object
  auth : Object
  options : Object
  connection : String

namespace RunContext

def ofAction (input options : Object) (c : ActionContext) : RunContext :=
  ⟨input, authObject c, options, c.connection⟩

def toJson (c : RunContext) : Value :=
  .object [("props_value", .object c.propsValue), ("auth", .object c.auth),
    ("options", .object c.options), ("conn_name", .text c.connection)]

end RunContext

structure PieceAction where
  displayName : String
  description : String
  props : Entries Property := []
  responseType : Option TypeDescription := none
  run : RunContext → Inquiry String Value

structure Plugin where
  displayName : String
  description : String
  logo : Option String := none
  auth : Auth := .none
  actions : Entries PieceAction := []

end ActionCatalogue.Piece
