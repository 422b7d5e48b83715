import ActionCatalogue.Data.Variant
import ActionCatalogue.Swagger.Document

/-!
Reading swagger documents from nodes, be they written in JSON or in YAML. Parameters and responses
that may be pointers are decided first and then tried as a pointer, then as what they stand for.
Response keys may be numbers in YAML; a number and a text that look the same are two keys until all
are read, and then become one.
-/

namespace ActionCatalogue.Swagger

open Json

def Schema.fieldNames : List String :=
  ["$ref", "type", "format", "title", "description", "properties", "required", "items", "allOf",
    "additionalProperties", "enum", "default", "example", "x-nullable"]

def Schema.ofNode (n : Node) : Reading Schema :=
  n.asRecord fieldNames fun r =>
    Schema.mk <$> r.optional "$ref" Node.asText <*> r.optional "type" Node.asText
      <*> r.optional "format" Node.asText <*> r.optional "title" Node.asText
      <*> r.optional "description" Node.asText
      <*> ((fun ps => ps.getD []) <$> r.part? "properties" fun v _ =>
        v.asMapOfParts fun w _ => Schema.ofNode w)
      <*> r.texts "required"
      <*> r.optionalPart "items" (fun v _ => Schema.ofNode v)
      <*> ((fun ps => ps.getD []) <$> r.part? "allOf" fun v _ =>
        v.asListOfParts fun w _ => Schema.ofNode w)
      <*> r.optional "additionalProperties" Node.asValue
      <*> r.values "enum" <*> r.optional "default" Node.asValue
      <*> r.optional "example" Node.asValue <*> r.flag "x-nullable"
termination_by sizeOf n
decreasing_by all_goals omega

def Parameter.fieldNames : List String :=
  ["name", "in", "description", "required", "schema", "type", "format", "items", "enum",
    "default", "x-nullable"]

def Parameter.ofNode (n : Node) : Reading Parameter :=
  n.asRecord fieldNames fun r =>
    Parameter.mk <$> r.required "name" Node.asText
      <*> r.required "in" (Node.asVariant Location.table)
      <*> r.optional "description" Node.asText <*> r.flag "required"
      <*> r.optional "schema" Schema.ofNode <*> r.optional "type" Node.asText
      <*> r.optional "format" Node.asText <*> r.optional "items" Schema.ofNode
      <*> r.values "enum" <*> r.optional "default" Node.asValue <*> r.flag "x-nullable"

def Response.ofNode (n : Node) : Reading Response :=
  n.asRecord ["description", "schema"] fun r =>
    Response.mk <$> r.text "description" <*> r.optional "schema" Schema.ofNode

def pointerOf (n : Node) : Reading String :=
  n.asRecord ["$ref"] fun r => r.required "$ref" Node.asText

def Shared.ofNode {α : Type} (value : Node → Reading α) (n : Node) : Reading (Shared α) := do
  let settled ← n.settle
  match pointerOf settled with
  | .ok reference => .ok (.pointer reference)
  | .error _ => match value settled with
    | .ok a => .ok (.inline a)
    | .error _ => .error .misshapen

inductive StatusKey where
  | code (n : Nat)
  | text (s : String)
deriving DecidableEq

namespace StatusKey

def ofNode (n : Node) : Reading StatusKey := do
  match ← n.settle with
  | .number (.int i) => if 0 ≤ i then .ok (.code i.toNat) else .error .misshapen
  | .text s => .ok (.text s)
  | _ => .error .misshapen

def toText : StatusKey → String
  | code n => toString n
  | text s => s

end StatusKey

def readResponses (n : Node) : Reading (Entries (Shared Response)) := do
  let entries ← n.entries
  let pairs ← entries.mapM fun entry => do
    let key ← StatusKey.ofNode entry.1
    let response ← Shared.ofNode Response.ofNode entry.2
    return (key, response)
  return Entries.ofPairs ((Entries.ofPairs pairs).map fun entry => (entry.1.toText, entry.2))

def readParameters (n : Node) : Reading (List (Shared Parameter)) :=
  n.asListOf (Shared.ofNode Parameter.ofNode)

def Operation.fieldNames : List String :=
  ["operationId", "summary", "description", "tags", "parameters", "responses", "deprecated"]

def Operation.ofNode (n : Node) : Reading Operation :=
  n.asRecord fieldNames fun r =>
    Operation.mk <$> r.optional "operationId" Node.asText <*> r.optional "summary" Node.asText
      <*> r.optional "description" Node.asText <*> r.texts "tags"
      <*> r.orDefault "parameters" [] readParameters <*> r.orDefault "responses" [] readResponses
      <*> r.flag "deprecated"

def PathItem.fieldNames : List String :=
  ["get", "put", "post", "delete", "options", "head", "patch", "parameters"]

def PathItem.ofNode (n : Node) : Reading PathItem :=
  n.asRecord fieldNames fun r =>
    PathItem.mk <$> r.optional "get" Operation.ofNode <*> r.optional "put" Operation.ofNode
      <*> r.optional "post" Operation.ofNode <*> r.optional "delete" Operation.ofNode
      <*> r.optional "options" Operation.ofNode <*> r.optional "head" Operation.ofNode
      <*> r.optional "patch" Operation.ofNode <*> r.orDefault "parameters" [] readParameters

def Info.ofNode (n : Node) : Reading Info :=
  n.asRecord ["title", "version", "description"] fun r =>
    Info.mk <$> r.text "title" <*> r.text "version" <*> r.optional "description" Node.asText

def Document.fieldNames : List String :=
  ["swagger", "info", "host", "basePath", "schemes", "paths", "definitions", "parameters",
    "responses"]

def Document.ofNode (n : Node) : Reading Document :=
  n.asRecord fieldNames fun r =>
    Document.mk <$> r.text "swagger" <*> r.orDefault "info" {} Info.ofNode
      <*> r.optional "host" Node.asText <*> r.optional "basePath" Node.asText
      <*> r.texts "schemes" <*> r.orDefault "paths" [] (Node.asMapOf PathItem.ofNode)
      <*> r.orDefault "definitions" [] (Node.asMapOf Schema.ofNode)
      <*> r.orDefault "parameters" [] (Node.asMapOf Parameter.ofNode)
      <*> r.orDefault "responses" [] (Node.asMapOf Response.ofNode)

end ActionCatalogue.Swagger
