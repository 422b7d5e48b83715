import ActionCatalogue.Build.Provider
import ActionCatalogue.Swagger.Conversion

/-!
Actions derived from the operations of a document. Parameters and body fields become the options of
an action, its lowest success response the response type; headers are left to the connection. A
lenient build leaves out what cannot be derived and says so; a strict one stops at the first
obstacle.
-/

namespace ActionCatalogue.Swagger

open Json

def diagnosticSource : String := "swagger"

structure Endpoint where
  path : String
  item : PathItem
  method : Method
  operation : Operation

structure Descriptor where
  name : String
  path : String
  method : Method
  operationId : Option String := none
  summary : Option String := none
  description : Option String := none
  deprecated : Bool := false
  options : Entries ActionOption := []
  responseType : Option OptionType := none
  /-- The body fields left out because a parameter has their name. -/
  shadowed : List String := []

namespace Descriptor

def swaggerPath (a : Descriptor) : SwaggerPath := ⟨a.path, a.method⟩

def toAction (a : Descriptor) (app : String) : Action :=
  { (Action.ofKind app a.name (.swagger a.swaggerPath)).withLabels a.summary a.summary
      a.description with
    options := a.options
    responseType := a.responseType }

def diagnostics (a : Descriptor) (app : String) : Diagnostics :=
  a.shadowed.map fun field =>
    { severity := .warning, source := diagnosticSource, app := some app, action := some a.name
      message := s!"body field '{field}' shadowed by a parameter of the same name" }

def toJson (a : Descriptor) : Value :=
  .object (
    [("name", .text a.name), ("path", .text a.path), ("method", a.method.toJson)] ++
    Value.entry? "operation_id" (a.operationId.map .text) ++
    Value.entry? "summary" (a.summary.map .text) ++
    Value.entry? "description" (a.description.map .text) ++
    [("deprecated", .bool a.deprecated),
      ("options", .object (Entries.mapValues ActionOption.toJson a.options))] ++
    Value.entry? "response_type" (a.responseType.map OptionType.toJson) ++
    entryUnlessEmpty "shadowed_body_fields" a.shadowed Value.texts)

end Descriptor

/-! ### One operation -/

/-- The name of an operation's action: its identifier, else its method and path. -/
def actionName (path : String) (method : Method) (op : Operation) : String :=
  let name := (op.id.map Naming.key).getD ""
  if name.isEmpty then Naming.key (method.name ++ " " ++ path) else name

/-- The status code that a key of the responses writes: a number of 16 bits, a plus before it or
not. -/
def statusCode? (key : String) : Option Nat :=
  let digits := match key.toList with
    | '+' :: rest => rest
    | cs => cs
  (Ascii.digits? 10 digits).filter (· < Nat.pow 2 16)

def successes (responses : Entries (Shared Response)) : List (Nat × Shared Response) :=
  (responses.filterMap fun (key, r) => (statusCode? key).map fun code => (code, r)).filter
    fun (code, _) => 200 ≤ code && code < 300

/-- The first of the entries with the lowest code. -/
def lowest? {α : Type} : List (Nat × α) → Option (Nat × α)
  | [] => none
  | entry :: rest =>
    match lowest? rest with
    | some other => if other.1 < entry.1 then some other else some entry
    | none => some entry

/-- The response that says what an action answers: the lowest success, else the default. -/
def successResponse? (op : Operation) : Option (Shared Response) :=
  match lowest? (successes op.responses) with
  | some (_, r) => some r
  | none => Entries.lookup "default" op.responses

/-- The parameters of an endpoint. One of the operation takes the place of one of the path with the
same name and location. -/
def parametersOf (d : Document) (e : Endpoint) : Except SwaggerError (List Parameter) := do
  let parameters ← (e.item.parameters ++ e.operation.parameters).mapM d.parameter
  return Entries.values (Entries.ofPairs (parameters.map fun p => ((p.name, p.location), p)))

/-- The field of a parameter. Its own description stands in for one that its shape lacks. -/
def parameterField (d : Document) (p : Parameter) (required : Bool) :
    Except SwaggerError FieldDescription := do
  let field ← d.fieldOf p.valueSchema required
  return { field with description := field.description.orElse fun _ => p.description }

structure Inputs where
  fields : Entries FieldDescription := []
  body : Entries FieldDescription := []

namespace Inputs

/-- Adds a parameter: one in the path is required, a body gives its fields or is one field. -/
def add (d : Document) (inputs : Inputs) (p : Parameter) : Except SwaggerError Inputs :=
  match p.location with
  | .header => .ok inputs
  | .body => do
    match ← d.objectFields p.valueSchema with
    | some fields => return { inputs with body := Entries.putAll inputs.body fields }
    | none =>
      let field ← parameterField d p p.required
      return { inputs with body := Entries.put p.name field inputs.body }
  | .path => do
    return { inputs with fields := Entries.put p.name (← parameterField d p true) inputs.fields }
  | .query | .formData => do
    return { inputs with
      fields := Entries.put p.name (← parameterField d p p.required) inputs.fields }

def shadowed (inputs : Inputs) : List String :=
  (Entries.keys inputs.body).filter (Entries.has · inputs.fields)

/-- All fields: those of parameters, then the body fields that none of them shadows. -/
def all (inputs : Inputs) : Entries FieldDescription :=
  inputs.fields ++ inputs.body.filter fun entry => !Entries.has entry.1 inputs.fields

end Inputs

def ofData {α : Type} : Except DataError α → Except SwaggerError α
  | .ok a => .ok a
  | .error e => .error (.data e)

def responseType (d : Document) (n : Normalizer) (op : Operation) :
    Except SwaggerError (Option OptionType) :=
  match successResponse? op with
  | none => .ok none
  | some shared => do
    match (← d.response shared).schema with
    | none => return none
    | some schema => return some (← ofData (n.normalizeType (← d.typeOf schema)))

def describe (d : Document) (normalizer : Normalizer) (e : Endpoint) :
    Except SwaggerError Descriptor := do
  let name := actionName e.path e.method e.operation
  let n := normalizer.within name
  let inputs ← (← parametersOf d e).foldlM (Inputs.add d) {}
  let options ← ofData (n.normalizeFields inputs.all)
  return {
    name
    path := e.path
    method := e.method
    operationId := e.operation.id
    summary := e.operation.summary
    description := e.operation.description
    deprecated := e.operation.deprecated
    options
    responseType := ← responseType d n e.operation
    shadowed := inputs.shadowed }

/-! ### Whole documents -/

structure Settings where
  /-- The paths that are offered; every path where there are none. -/
  allowedPaths : List String := []
  policy : CollisionPolicy := .overwrite
  normalizer : Normalizer := {}

namespace Settings

def allows (s : Settings) (path : String) : Bool :=
  s.allowedPaths.isEmpty || s.allowedPaths.contains path

end Settings

/-- The endpoints of a document in visiting order: path by path, and by method. -/
def Document.endpoints (d : Document) : List Endpoint :=
  d.paths.flatMap fun (path, item) =>
    item.operations.map fun (method, operation) => { path, item, method, operation }

def offered (d : Document) (s : Settings) : List Endpoint :=
  d.endpoints.filter fun e => s.allows e.path

structure Skipped where
  path : String
  method : Method
  name : String
  reason : String
deriving DecidableEq, Repr

/-- What is said of an operation whose name an earlier one has taken. -/
def Skipped.duplicateReason (name : String) : String := s!"duplicate action '{name}'"

def Skipped.toJson (s : Skipped) : Value :=
  .object [("path", .text s.path), ("method", s.method.toJson), ("name", .text s.name),
    ("reason", .text s.reason)]

structure Outcome where
  built : Entries Descriptor := []
  skipped : List Skipped := []
  /-- The offered paths that the document does not have. -/
  missingPaths : List String := []
  /-- The names that an operation found taken. -/
  collisions : List String := []

namespace Outcome

def actions (o : Outcome) : List Descriptor := Entries.values o.built

def skip (o : Outcome) (e : Endpoint) (name reason : String) : Outcome :=
  { o with skipped := o.skipped ++ [⟨e.path, e.method, name, reason⟩] }

def add (policy : CollisionPolicy) (o : Outcome) (e : Endpoint) :
    Except SwaggerError Descriptor → Outcome
  | .error error => o.skip e (actionName e.path e.method e.operation) error.message
  | .ok a =>
    if Entries.has a.name o.built then
      let o := { o with collisions := o.collisions ++ [a.name] }
      match policy with
      | .overwrite => { o with built := Entries.put a.name a o.built }
      | .reject => o.skip e a.name (Skipped.duplicateReason a.name)
    else { o with built := Entries.put a.name a o.built }

def diagnostics (o : Outcome) (app : String) : Diagnostics :=
  (o.actions.flatMap fun a => a.diagnostics app) ++
  (o.missingPaths.map fun path =>
    { severity := .warning, source := diagnosticSource, app := some app
      message := s!"allowed path '{path}' not found in document" }) ++
  (o.collisions.map fun name =>
    { severity := .warning, source := diagnosticSource, app := some app, action := some name
      message := "action name defined by more than one operation" }) ++
  o.skipped.map fun s =>
    { severity := .error, source := diagnosticSource, app := some app, action := some s.name
      message := s!"{s.method.name} {s.path} skipped: {s.reason}" }

def toActions (o : Outcome) (app : String) : List Action :=
  o.actions.map fun a => a.toAction app

end Outcome

/-- The actions of all offered operations. What cannot be derived is left out. -/
def build (d : Document) (s : Settings) : Outcome :=
  (offered d s).foldl (fun o e => o.add s.policy e (describe d s.normalizer e))
    { missingPaths := s.allowedPaths.filter fun path => !Entries.has path d.paths }

/-- Adds an action of a strict build, which a taken name stops under the policy `reject`. -/
def addStrict (policy : CollisionPolicy) (built : Entries Descriptor) (a : Descriptor) :
    Except SwaggerError (Entries Descriptor) :=
  if Entries.has a.name built && policy = .reject then .error (.duplicateAction a.name)
  else .ok (Entries.put a.name a built)

/-- The actions of all offered operations, or the first obstacle. -/
def buildStrict (d : Document) (s : Settings) : Except SwaggerError (List Descriptor) := do
  let built ← (offered d s).foldlM
    (fun built e => do addStrict s.policy built (← describe d s.normalizer e)) []
  return Entries.values built

/-- The action of one operation, whether its path is offered or not. -/
def buildOperation (d : Document) (normalizer : Normalizer) (path : String) (method : Method) :
    Except SwaggerError Descriptor :=
  match Entries.lookup path d.paths with
  | none => .error (.operationNotFound path method)
  | some item =>
    match item.operation? method with
    | none => .error (.operationNotFound path method)
    | some operation => describe d normalizer { path, item, method, operation }

def appOf (context : BuildContext) (app : App) (d : Document) (allowedPaths : List String) :
    AppWithActions × Diagnostics :=
  let outcome := build d {
    allowedPaths
    policy := context.policy
    normalizer := context.normalizer.within app.name }
  ({ app, actions := outcome.toActions app.name }, outcome.diagnostics app.name)

end ActionCatalogue.Swagger
