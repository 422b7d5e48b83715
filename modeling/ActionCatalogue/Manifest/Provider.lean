import ActionCatalogue.Manifest.Loading
import ActionCatalogue.Swagger.Derivation
import ActionCatalogue.Swagger.Source

/-!
The provider of declared apps. An app whose document cannot be had is left out, and so is an action
whose operation cannot be derived; both are reported. An app without a document has no actions, and
one without declared actions has those of its document's offered paths.
-/

namespace ActionCatalogue

namespace Manifest

def diagnosticSource : String := "manifest"

def orIfBlank (text other : String) : String := (Text.nonBlank? text).getD other

/-- The app with texts and a logo where it has none. The logo of an app without one is a picture of
its own kind, whatever kind the app says. -/
def withDefaults (app : App) : App :=
  let display := orIfBlank app.displayName app.name
  let short := orIfBlank app.shortDescription display
  let mimeType :=
    if app.logo.isEmpty || app.logoMimeType.isEmpty then App.defaultLogoMimeType
    else app.logoMimeType
  { app with
    displayName := display
    shortDescription := short
    description := orIfBlank app.description short
    logo := if app.logo.isEmpty then App.defaultLogo else app.logo
    logoFileName :=
      if app.logoFileName.isEmpty then App.logoFileNameOf app.name else app.logoFileName
    logoMimeType := mimeType }

def warning (app : App) (message : String) : Diagnostic :=
  { severity := .warning, source := diagnosticSource, app := some app.name, message }

/-- The reports of a connection: address options that the address does not use, and required
options that are not declared. -/
def connectionDiagnostics (app : App) : Diagnostics :=
  match app.restModifiers with
  | none => []
  | some modifiers =>
    let placeholders := (app.rest.map RestConfig.placeholders).getD []
    ((modifiers.urlTemplateOptions.filter fun name => !placeholders.contains name).map fun name =>
      warning app s!"url template option '{name}' is not used in rest.url") ++
    ((modifiers.requiredOptions.filter fun name => !Entries.has name modifiers.options).map
      fun name => warning app s!"required option '{name}' is not declared")

def declaredAction (app : String) (declared : ActionDeclaration) (a : Swagger.Descriptor) :
    Action :=
  { (Action.ofKind app declared.name (.swagger a.swaggerPath)).withLabels
      (declared.displayName.orElse fun _ => a.summary)
      (declared.shortDescription.orElse fun _ => a.summary)
      (declared.description.orElse fun _ => a.description) with
    options := a.options
    responseType := a.responseType
    timeout := declared.timeout }

def declaredActions (d : Swagger.Document) (n : Normalizer) (app : String) :
    List ActionDeclaration → List Action × Diagnostics
  | [] => ([], [])
  | declared :: rest =>
    let (actions, diagnostics) := declaredActions d n app rest
    match Swagger.buildOperation d n declared.swaggerPath.path declared.swaggerPath.method with
    | .ok a => (declaredAction app declared a :: actions, a.diagnostics app ++ diagnostics)
    | .error e =>
      (actions,
        { severity := .error, source := diagnosticSource, app := some app
          action := some declared.name, message := e.message } :: diagnostics)

/-- The app of a declaration, unless its document cannot be had, and the reports. Files are looked
for from a directory. -/
def provideApp (files : Files) (directory : String) (context : BuildContext)
    (d : AppDeclaration) : Option AppWithActions × Diagnostics :=
  let app := withDefaults d.app
  let reports := connectionDiagnostics app
  match app.swagger with
  | none => (some { app }, reports)
  | some reference =>
    let path := FilePath.join directory reference.file
    match Swagger.Document.ofFile files path with
    | .error e =>
      (none, reports ++ [{
        severity := .error, source := diagnosticSource, app := some app.name
        message := s!"cannot load {path}: {e.message}" }])
    | .ok document =>
      if d.actions.isEmpty then
        let (source, diagnostics) := Swagger.appOf context app document reference.allowedPaths
        (some source, reports ++ diagnostics)
      else
        let (actions, diagnostics) :=
          declaredActions document (context.normalizer.within app.name) app.name d.actions
        (some { app, actions }, reports ++ diagnostics)

def buildContext (m : Manifest) : BuildContext where
  normalizer := { locale := m.locale }
  policy := m.policy

def provider (m : Manifest) (files : Files) (directory : String) : Provider where
  name := diagnosticSource
  provide context :=
    let provided := m.apps.map (provideApp files directory context)
    { apps := provided.filterMap Prod.fst, diagnostics := provided.flatMap Prod.snd }

end Manifest

end ActionCatalogue
