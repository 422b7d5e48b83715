import ActionCatalogue.App.Method
import ActionCatalogue.App.UrlTemplate
import ActionCatalogue.Typing.Vocabulary

/-!
How the host connects to an app: the template of its REST connection, the options that a user fills
in, and what enriches them once authentication succeeded.
-/

namespace ActionCatalogue

open Json

structure RestConfig where
  /-- The base address, with placeholders for connection options. -/
  url : String
  data : String := "auto"
  grantType : Option String := none
  clientId : Option String := none
  clientSecret : Option String := none
  authUrl : Option String := none
  tokenUrl : Option String := none
  scopes : List String := []
  authArguments : Object := []
  tokenUsesBasicAuth : Bool := false
  pingMethod : Option Method := none
  pingPath : Option String := none

namespace RestConfig

def authorizationCode : String := "authorization_code"

def isOAuth2 (c : RestConfig) : Bool := c.grantType.isSome

def placeholders (c : RestConfig) : List String := UrlTemplate.placeholders c.url

def renderUrl (c : RestConfig) (options : Object) : Except DataError String :=
  UrlTemplate.render c.url options

def fieldNames : List String :=
  ["url", "data", "oauth2_grant_type", "oauth2_client_id", "oauth2_client_secret",
    "oauth2_auth_url", "oauth2_token_url", "oauth2_scopes", "oauth2_auth_args",
    "oauth2_token_use_basic_auth", "ping_method", "ping_path"]

def ofNode (n : Node) : Reading RestConfig :=
  n.asRecord fieldNames fun r =>
    RestConfig.mk <$> r.required "url" Node.asText <*> r.orDefault "data" "auto" Node.asText
      <*> r.optional "oauth2_grant_type" Node.asText
      <*> r.optional "oauth2_client_id" Node.asText
      <*> r.optional "oauth2_client_secret" Node.asText
      <*> r.optional "oauth2_auth_url" Node.asText
      <*> r.optional "oauth2_token_url" Node.asText
      <*> r.texts "oauth2_scopes" <*> r.orDefault "oauth2_auth_args" [] Node.asObject
      <*> r.flag "oauth2_token_use_basic_auth"
      <*> r.optional "ping_method" Method.ofNode <*> r.optional "ping_path" Node.asText

def toJson (c : RestConfig) : Value :=
  .object (
    [("url", .text c.url), ("data", .text c.data)] ++
    Value.entry? "oauth2_grant_type" (c.grantType.map .text) ++
    Value.entry? "oauth2_client_id" (c.clientId.map .text) ++
    Value.entry? "oauth2_client_secret" (c.clientSecret.map .text) ++
    Value.entry? "oauth2_auth_url" (c.authUrl.map .text) ++
    Value.entry? "oauth2_token_url" (c.tokenUrl.map .text) ++
    (if c.scopes.isEmpty then [] else [("oauth2_scopes", Value.texts c.scopes)]) ++
    (if c.authArguments.isEmpty then [] else [("oauth2_auth_args", .object c.authArguments)]) ++
    [("oauth2_token_use_basic_auth", .bool c.tokenUsesBasicAuth)] ++
    Value.entry? "ping_method" (c.pingMethod.map Method.toJson) ++
    Value.entry? "ping_path" (c.pingPath.map .text))

end RestConfig

/-- A connection option that the user supplies, such as a subdomain. -/
structure ConnectionOption where
  displayName : String := ""
  shortDescription : String := ""
  description : String := ""
  type : PrimitiveType := ⟨.string, false, false⟩
  defaultValue : Option Value := none

namespace ConnectionOption

def fieldNames : List String := ["display_name", "short_desc", "desc", "type", "default_value"]

def ofNode (n : Node) : Reading ConnectionOption :=
  n.asRecord fieldNames fun r =>
    ConnectionOption.mk <$> r.text "display_name" <*> r.text "short_desc" <*> r.text "desc"
      <*> r.orDefault "type" ⟨.string, false, false⟩ PrimitiveType.ofNode
      <*> r.optional "default_value" Node.asValue

def toJson (o : ConnectionOption) : Value :=
  .object (
    [("display_name", .text o.displayName), ("short_desc", .text o.shortDescription),
      ("desc", .text o.description), ("type", o.type.toJson)] ++
    Value.entry? "default_value" o.defaultValue)

end ConnectionOption

structure RestModifiers where
  options : Entries ConnectionOption := []
  requiredOptions : List String := []
  urlTemplateOptions : List String := []
  /-- Options that are known once authentication succeeded. -/
  postAuth : Option (Deferred Object) := none

namespace RestModifiers

def fieldNames : List String := ["options", "required_options", "url_template_options"]

def ofNode (n : Node) : Reading RestModifiers :=
  n.asRecord fieldNames fun r =>
    (fun options requiredOptions urlTemplateOptions =>
      { options, requiredOptions, urlTemplateOptions : RestModifiers })
      <$> r.orDefault "options" [] (Node.asMapOf ConnectionOption.ofNode)
      <*> r.texts "required_options" <*> r.texts "url_template_options"

def toJson (m : RestModifiers) : Value :=
  .object (
    (if m.options.isEmpty then []
      else [("options", .object (Entries.mapValues ConnectionOption.toJson m.options))]) ++
    (if m.requiredOptions.isEmpty then []
      else [("required_options", Value.texts m.requiredOptions)]) ++
    (if m.urlTemplateOptions.isEmpty then []
      else [("url_template_options", Value.texts m.urlTemplateOptions)]))

end RestModifiers

end ActionCatalogue
