import ActionCatalogue.App.Method
import ActionCatalogue.Json.Printer

/-!
Swagger 2.0 documents: paths with an operation for each method, and the definitions, parameters and
responses that operations share by reference. Only what actions are derived from is kept.
-/

namespace ActionCatalogue.Swagger

open Json

structure Schema where
  reference : Option String := none
  type : Option String := none
  format : Option String := none
  title : Option String := none
  description : Option String := none
  properties : List (String × Schema) := []
  required : List String := []
  items : Option Schema := none
  allOf : List Schema := []
  additionalProperties : Option Value := none
  allowedValues : List Value := []
  defaultValue : Option Value := none
  exampleValue : Option Value := none
  nullable : Bool := false

inductive Location where
  | query | header | path | formData | body
deriving DecidableEq, Repr

namespace Location

def name : Location → String
  | query => "query"
  | header => "header"
  | path => "path"
  | formData => "formData"
  | body => "body"

def table : List (String × Location) :=
  [query, header, path, formData, body].map fun l => (l.name, l)

end Location

structure Parameter where
  name : String
  location : Location
  description : Option String := none
  required : Bool := false
  schema : Option Schema := none
  type : Option String := none
  format : Option String := none
  items : Option Schema := none
  allowedValues : List Value := []
  defaultValue : Option Value := none
  nullable : Bool := false

def Parameter.valueSchema (p : Parameter) : Schema :=
  match p.schema with
  | some schema => schema
  | none =>
    { type := p.type, format := p.format, items := p.items, allowedValues := p.allowedValues,
      defaultValue := p.defaultValue, nullable := p.nullable }

structure Response where
  description : String := ""
  schema : Option Schema := none

/-- Something that stands in its place, or a pointer to where it stands. -/
inductive Shared (α : Type) where
  | pointer (reference : String)
  | inline (value : α)

structure Operation where
  id : Option String := none
  summary : Option String := none
  description : Option String := none
  tags : List String := []
  parameters : List (Shared Parameter) := []
  responses : Entries (Shared Response) := []
  deprecated : Bool := false

structure PathItem where
  get : Option Operation := none
  put : Option Operation := none
  post : Option Operation := none
  delete : Option Operation := none
  options : Option Operation := none
  head : Option Operation := none
  patch : Option Operation := none
  /-- The parameters of every operation of the path. -/
  parameters : List (Shared Parameter) := []

namespace PathItem

def operation? (item : PathItem) : Method → Option Operation
  | .get => item.get
  | .put => item.put
  | .post => item.post
  | .delete => item.delete
  | .options => item.options
  | .head => item.head
  | .patch => item.patch

/-- The operations that are there, in the order of methods. -/
def operations (item : PathItem) : List (Method × Operation) :=
  Method.all.filterMap fun m => (item.operation? m).map fun op => (m, op)

end PathItem

structure Info where
  title : String := ""
  version : String := ""
  description : Option String := none

structure Document where
  version : String := ""
  info : Info := {}
  host : Option String := none
  basePath : Option String := none
  schemes : List String := []
  paths : Entries PathItem := []
  definitions : Entries Schema := []
  parameters : Entries Parameter := []
  responses : Entries Response := []

namespace Document

def operation? (d : Document) (path : String) (method : Method) : Option Operation :=
  (Entries.lookup path d.paths).bind (·.operation? method)

def operationCount (d : Document) : Nat :=
  (Entries.values d.paths).foldl (fun n item => n + item.operations.length) 0

end Document

/-! ### As JSON -/

def entryUnlessEmpty {α : Type} (key : String) (items : List α) (value : List α → Value) :
    Object :=
  if items.isEmpty then [] else [(key, value items)]

namespace Schema

mutual

def toJson : Schema → Value
  | { reference, type, format, title, description, properties, required, items, allOf,
      additionalProperties, allowedValues, defaultValue, exampleValue, nullable } =>
    .object (
      Value.entry? "$ref" (reference.map .text) ++
      Value.entry? "type" (type.map .text) ++
      Value.entry? "format" (format.map .text) ++
      Value.entry? "title" (title.map .text) ++
      Value.entry? "description" (description.map .text) ++
      entryUnlessEmpty "properties" (propertiesToJson properties) .object ++
      entryUnlessEmpty "required" required Value.texts ++
      Value.entry? "items" (itemsToJson items) ++
      entryUnlessEmpty "allOf" (partsToJson allOf) .list ++
      Value.entry? "additionalProperties" additionalProperties ++
      entryUnlessEmpty "enum" allowedValues .list ++
      Value.entry? "default" defaultValue ++
      Value.entry? "example" exampleValue ++
      [("x-nullable", .bool nullable)])

def propertiesToJson : List (String × Schema) → Object
  | [] => []
  | (name, s) :: rest => (name, s.toJson) :: propertiesToJson rest

def itemsToJson : Option Schema → Option Value
  | none => none
  | some s => some s.toJson

def partsToJson : List Schema → List Value
  | [] => []
  | s :: rest => s.toJson :: partsToJson rest

end

end Schema

def Parameter.toJson (p : Parameter) : Value :=
  .object (
    [("name", .text p.name), ("in", .text p.location.name)] ++
    Value.entry? "description" (p.description.map .text) ++
    [("required", .bool p.required)] ++
    Value.entry? "schema" (p.schema.map Schema.toJson) ++
    Value.entry? "type" (p.type.map .text) ++
    Value.entry? "format" (p.format.map .text) ++
    Value.entry? "items" (p.items.map Schema.toJson) ++
    entryUnlessEmpty "enum" p.allowedValues .list ++
    Value.entry? "default" p.defaultValue ++
    [("x-nullable", .bool p.nullable)])

def Response.toJson (r : Response) : Value :=
  .object (
    [("description", .text r.description)] ++
    Value.entry? "schema" (r.schema.map Schema.toJson))

def Shared.toJson {α : Type} (value : α → Value) : Shared α → Value
  | .pointer reference => .object [("$ref", .text reference)]
  | .inline a => value a

def Operation.toJson (o : Operation) : Value :=
  .object (
    Value.entry? "operationId" (o.id.map .text) ++
    Value.entry? "summary" (o.summary.map .text) ++
    Value.entry? "description" (o.description.map .text) ++
    entryUnlessEmpty "tags" o.tags Value.texts ++
    entryUnlessEmpty "parameters" (o.parameters.map (Shared.toJson Parameter.toJson)) .list ++
    [("responses", .object (Entries.mapValues (Shared.toJson Response.toJson) o.responses)),
      ("deprecated", .bool o.deprecated)])

def PathItem.toJson (item : PathItem) : Value :=
  .object (
    Value.entry? "get" (item.get.map Operation.toJson) ++
    Value.entry? "put" (item.put.map Operation.toJson) ++
    Value.entry? "post" (item.post.map Operation.toJson) ++
    Value.entry? "delete" (item.delete.map Operation.toJson) ++
    Value.entry? "options" (item.options.map Operation.toJson) ++
    Value.entry? "head" (item.head.map Operation.toJson) ++
    Value.entry? "patch" (item.patch.map Operation.toJson) ++
    entryUnlessEmpty "parameters" (item.parameters.map (Shared.toJson Parameter.toJson)) .list)

def Info.toJson (i : Info) : Value :=
  .object (
    [("title", .text i.title), ("version", .text i.version)] ++
    Value.entry? "description" (i.description.map .text))

def Document.toJson (d : Document) : Value :=
  .object (
    [("swagger", .text d.version), ("info", d.info.toJson)] ++
    Value.entry? "host" (d.host.map .text) ++
    Value.entry? "basePath" (d.basePath.map .text) ++
    entryUnlessEmpty "schemes" d.schemes Value.texts ++
    [("paths", .object (Entries.mapValues PathItem.toJson d.paths))] ++
    entryUnlessEmpty "definitions" (Entries.mapValues Schema.toJson d.definitions) .object ++
    entryUnlessEmpty "parameters" (Entries.mapValues Parameter.toJson d.parameters) .object ++
    entryUnlessEmpty "responses" (Entries.mapValues Response.toJson d.responses) .object)

end ActionCatalogue.Swagger
