import ActionCatalogue.Catalogue.Registration
import ActionCatalogue.CommandLine.Arguments
import ActionCatalogue.Manifest.Provider

/-!
The commands. Each gives the texts that it prints on either output and how it ends; what it may read
is the files and the environment.
-/

namespace ActionCatalogue.CommandLine

open Json

inductive CommandError where
  | manifest (error : ManifestError)
  | registry (error : RegistryError)
  | swagger (error : SwaggerError)
  | fileNotFound (path : String)
  | buildFailed (errors : Nat)
deriving DecidableEq, Repr

def CommandError.message : CommandError → String
  | manifest error => "Configuration error: " ++ error.message
  | registry error => "Registry error: " ++ error.message
  | swagger error => "Swagger error: " ++ error.message
  | fileNotFound path => s!"File not found: {path}"
  | buildFailed errors => s!"Catalogue build reported {errors} error(s)"

structure Report where
  /-- The texts on standard output, each on lines of its own. -/
  out : List String := []
  err : List String := []
  result : Except CommandError Unit := .ok ()

namespace Report

def failed (error : CommandError) : Report := { result := .error error }

def exitCode (r : Report) : Nat :=
  match r.result with
  | .ok () => 0
  | .error _ => 1

/-- The texts on standard error, with the failure of the command at the end. -/
def errors (r : Report) (colored : Bool) : List String :=
  match r.result with
  | .ok () => r.err
  | .error e => r.err ++ [paint colored .error "Error:" ++ " " ++ e.message]

end Report

structure Surroundings where
  files : Files
  env : Environment
  colored : Bool

def loadCatalogue (s : Surroundings) (manifest : String) : Except CommandError Catalogue := do
  if !s.files.exist manifest then throw (.fileNotFound manifest)
  let m ← (Manifest.ofFile s.files s.env manifest).mapError .manifest
  return Catalogue.build m.buildContext [m.provider s.files (FilePath.parent manifest)]

def diagnosticLine (colored : Bool) (d : Diagnostic) : String :=
  let role := match d.severity with
    | .error => Role.error
    | .warning => .warning
  paint colored role d.severity.name ++ " " ++ paint colored .dim ("[" ++ d.source ++ "]") ++
    d.location ++ ": " ++ d.message

/-! ### Building -/

def registeredLine (summary : RegistrationSummary) (warnings errors : Nat) : String :=
  let apps := summary.apps
  let actions := summary.actions
  s!"Registered {apps} app(s) and {actions} action(s) ({warnings} warning(s), {errors} error(s))"

/-- Registers the catalogue with a recording host and reports. -/
def build (s : Surroundings) (c : Catalogue) (dump : Bool) : Report :=
  match c.registerApps Recording.host {} with
  | (.error e, _) => .failed (.registry e)
  | (.ok summary, recording) =>
    let errors := c.diagnostics.errors.length
    let line := registeredLine summary c.diagnostics.warnings.length errors
    let dumped := Value.object [("apps", .list (recording.apps.map App.toJson)),
      ("actions", .list (recording.actions.map Action.toJson))]
    let role := if errors = 0 then Role.success else .warning
    { out := if dump then [dumped.pretty] else []
      err := c.diagnostics.map (diagnosticLine s.colored) ++ [paint s.colored role line]
      result := if errors = 0 then .ok () else .error (.buildFailed errors) }

/-! ### Listing -/

def authLabel (app : App) : String :=
  match app.rest with
  | some rest => if rest.isOAuth2 then "oauth2" else "rest"
  | none => "-"

def targetLabel (action : Action) : String :=
  match action.swaggerPath? with
  | some path => path.text
  | none => "function"

def appItem (entry : CatalogueEntry) : Value :=
  .object [("name", .text entry.app.name), ("display_name", .text entry.app.displayName),
    ("auth", .text (authLabel entry.app)), ("actions", .ofNat entry.actions.length)]

def appsTable (colored : Bool) (entries : List CatalogueEntry) : List String :=
  if entries.isEmpty then [paint colored .info "No apps found"]
  else
    let count := entries.length
    [paint colored .success s!"Found {count} app(s):", "",
      headRow colored [(24, "Name"), (30, "Display Name"), (10, "Auth"), (8, "Actions")],
      rule 75] ++
    entries.map fun entry => row [(24, truncate entry.app.name 24),
      (30, truncate entry.app.displayName 30), (10, authLabel entry.app),
      (8, toString entry.actions.length)]

def listApps (s : Surroundings) (c : Catalogue) (format : OutputFormat) : Report :=
  let entries := Entries.values c.entries
  match format with
  | .table => { out := appsTable s.colored entries }
  | _ => { out := [format.render (.list (entries.map appItem))] }

def actionItem (action : Action) : Value :=
  .object [("app", .text action.app), ("action", .text action.name),
    ("display_name", .text action.displayName), ("target", .text (targetLabel action)),
    ("options", Value.texts (Entries.keys action.options))]

def actionsTable (colored : Bool) (actions : List Action) : List String :=
  if actions.isEmpty then [paint colored .info "No actions found"]
  else
    let count := actions.length
    [paint colored .success s!"Found {count} action(s):", "",
      headRow colored [(20, "App"), (32, "Action"), (36, "Target"), (8, "Options")],
      rule 100] ++
    actions.map fun action => row [(20, truncate action.app 20),
      (32, truncate action.name 32), (36, truncate (targetLabel action) 36),
      (8, toString action.options.length)]

def listActions (s : Surroundings) (c : Catalogue) (app : Option String)
    (format : OutputFormat) : Except CommandError Report := do
  let actions ← match app with
    | some name => (c.actions name).mapError .registry
    | none => .ok c.allActions
  match format with
  | .table => return { out := actionsTable s.colored actions }
  | _ => return { out := [format.render (.list (actions.map actionItem))] }

/-! ### Showing -/

def shown (c : Catalogue) (app : String) (action : Option String) :
    Except CommandError Value := do
  match action with
  | some name => return (← (c.action app name).mapError .registry).toJson
  | none =>
    let entry ← (c.entry app).mapError .registry
    return .object [("app", entry.app.toJson),
      ("actions", .list ((Entries.values entry.actions).map Action.toJson))]

/-! ### Previewing a document -/

def outcomeItem (o : Swagger.Outcome) : Value :=
  .object [("actions", .list (o.actions.map Swagger.Descriptor.toJson)),
    ("skipped", .list (o.skipped.map Swagger.Skipped.toJson)),
    ("missing_paths", Value.texts o.missingPaths), ("collisions", Value.texts o.collisions)]

/-- The name of a derived action in a table, dimmed if the action is deprecated. -/
def derivedName (colored : Bool) (a : Swagger.Descriptor) : String :=
  let name := truncate a.name 32
  if a.deprecated then paint colored .dim name else name

def derivedTable (colored : Bool) (actions : List Swagger.Descriptor) : List String :=
  if actions.isEmpty then [paint colored .info "No operations matched"]
  else
    let count := actions.length
    [paint colored .success s!"Derived {count} action(s):", "",
      headRow colored [(32, "Action"), (8, "Method"), (36, "Path"), (8, "Options"),
        (12, "Response")],
      rule 100] ++
    actions.map fun a => row [(32, derivedName colored a), (8, a.method.name),
      (36, truncate a.path 36), (8, toString a.options.length),
      (12, truncate ((a.responseType.map OptionType.text).getD "-") 12)]

/-- The label of a document: its title, else the name of its file. -/
def documentLabel (d : Swagger.Document) (path : String) : String :=
  if d.info.title.isEmpty then (FilePath.stem? path).getD "swagger" else d.info.title

def preview (s : Surroundings) (path : String) (allowedPaths : List String)
    (format : OutputFormat) : Except CommandError Report := do
  if !s.files.exist path then throw (.fileNotFound path)
  let document ← (Swagger.Document.ofFile s.files path).mapError .swagger
  let outcome := Swagger.build document { allowedPaths }
  let diagnostics := outcome.diagnostics (documentLabel document path)
  return {
    out := match format with
      | .table => derivedTable s.colored outcome.actions
      | _ => [format.render (outcomeItem outcome)]
    err := diagnostics.map (diagnosticLine s.colored) }

/-! ### All commands -/

def execute (s : Surroundings) (manifest : String) (command : Command) :
    Except CommandError Report := do
  match command with
  | .swagger file allowedPaths format => preview s file allowedPaths format
  | .build dump => return build s (← loadCatalogue s manifest) dump
  | .listApps format => return listApps s (← loadCatalogue s manifest) format
  | .listActions app format => listActions s (← loadCatalogue s manifest) app format
  | .show app action format =>
    return { out := [format.render (← shown (← loadCatalogue s manifest) app action)] }

def Invocation.run (s : Surroundings) (invocation : Invocation) : Report :=
  let s := { s with colored := s.colored && !invocation.colorless }
  match execute s invocation.manifest invocation.command with
  | .ok report => report
  | .error e => .failed e

end ActionCatalogue.CommandLine
