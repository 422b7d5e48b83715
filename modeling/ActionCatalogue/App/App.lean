import ActionCatalogue.App.Connection

/-!
Apps: their names and texts, their logo, how they are connected to, and where the swagger document
lies whose operations they offer.
-/

namespace ActionCatalogue

open Json

/-- Where the swagger document of an app lies, and which of its paths are offered. -/
structure SwaggerReference where
  file : String
  /-- Empty where every path is offered. -/
  allowedPaths : List String := []

namespace SwaggerReference

def fieldNames : List String := ["file", "allowed_paths"]

def ofNode (n : Node) : Reading SwaggerReference :=
  n.asRecord fieldNames fun r =>
    SwaggerReference.mk <$> r.required "file" Node.asText <*> r.texts "allowed_paths"

def toJson (s : SwaggerReference) : Value :=
  .object (
    [("file", .text s.file)] ++
    (if s.allowedPaths.isEmpty then [] else [("allowed_paths", Value.texts s.allowedPaths)]))

end SwaggerReference

structure App where
  name : String
  displayName : String := ""
  shortDescription : String := ""
  description : String := ""
  logo : String := ""
  logoFileName : String := ""
  logoMimeType : String := ""
  rest : Option RestConfig := none
  restModifiers : Option RestModifiers := none
  swagger : Option SwaggerReference := none

namespace App

/-- A rounded square, as a picture in base 64. -/
def defaultLogo : String :=
  "PHN2ZyB4bWxucz0iaHR0cDovL3d3dy53My5vcmcvMjAwMC9zdmciIHZpZXdCb3g9IjAgMCAyNCAyNCI+" ++
  "PHJlY3Qgd2lkdGg9IjI0IiBoZWlnaHQ9IjI0IiByeD0iNCIgZmlsbD0iIzVjNmJjMCIvPjwvc3ZnPg=="

def defaultLogoMimeType : String := "image/svg+xml"

def logoFileNameOf (name : String) : String := name ++ ".svg"

/-- An app with the default logo, all of whose texts are its display name. -/
def named (name displayName : String) : App where
  name := name
  displayName := displayName
  shortDescription := displayName
  description := displayName
  logo := defaultLogo
  logoFileName := logoFileNameOf name
  logoMimeType := defaultLogoMimeType

def fieldNames : List String :=
  ["name", "display_name", "short_desc", "desc", "logo", "logo_file_name", "logo_mime_type",
    "rest", "rest_modifiers", "swagger"]

def fieldsOf {n : Node} (r : Record n) : Fields App :=
  App.mk <$> r.required "name" Node.asText <*> r.text "display_name" <*> r.text "short_desc"
    <*> r.text "desc" <*> r.text "logo" <*> r.text "logo_file_name" <*> r.text "logo_mime_type"
    <*> r.optional "rest" RestConfig.ofNode
    <*> r.optional "rest_modifiers" RestModifiers.ofNode
    <*> r.optional "swagger" SwaggerReference.ofNode

def ofNode (n : Node) : Reading App := n.asRecord fieldNames fieldsOf

def members (a : App) : Object :=
  [("name", .text a.name), ("display_name", .text a.displayName),
    ("short_desc", .text a.shortDescription), ("desc", .text a.description),
    ("logo", .text a.logo), ("logo_file_name", .text a.logoFileName),
    ("logo_mime_type", .text a.logoMimeType)] ++
  Value.entry? "rest" (a.rest.map RestConfig.toJson) ++
  Value.entry? "rest_modifiers" (a.restModifiers.map RestModifiers.toJson) ++
  Value.entry? "swagger" (a.swagger.map SwaggerReference.toJson)

def toJson (a : App) : Value := .object a.members

end App

end ActionCatalogue
