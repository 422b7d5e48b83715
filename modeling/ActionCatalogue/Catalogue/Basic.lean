import ActionCatalogue.Build.Provider

/-!
The catalogue: one entry for each app name, in order of first supply, with the app's actions under
their names. Where a name is supplied again the policy decides, and the collision is reported.
-/

namespace ActionCatalogue

structure CatalogueEntry where
  app : App
  actions : Entries Action

structure Catalogue where
  entries : Entries CatalogueEntry := []
  diagnostics : Diagnostics := []
  policy : CollisionPolicy := .overwrite

namespace Catalogue

def diagnosticSource : String := "registry"

def redefined (policy : CollisionPolicy) (provider app : String) : Diagnostic :=
  let severity := match policy with
    | .overwrite => Severity.warning
    | .reject => .error
  let outcome := match policy with
    | .overwrite => "later definition wins"
    | .reject => "definition dropped"
  { severity, source := diagnosticSource, app := some app
    message := s!"app redefined by provider '{provider}', {outcome}" }

def movedAction (app : String) (action : Action) : Diagnostic :=
  let declared := action.app
  { severity := .warning, source := diagnosticSource, app := some app, action := some action.name
    message := s!"action declared for app '{declared}', moved to its owning app" }

def duplicateAction (policy : CollisionPolicy) (app action : String) : Diagnostic :=
  match policy with
  | .overwrite =>
    { severity := .warning, source := diagnosticSource, app := some app, action := some action
      message := "duplicate action, later definition wins" }
  | .reject =>
    { severity := .error, source := diagnosticSource, app := some app, action := some action
      message := "duplicate action, definition dropped" }

def addAction (policy : CollisionPolicy) (app : String) (actions : Entries Action)
    (action : Action) : Entries Action :=
  if Entries.has action.name actions && policy = .reject then actions
  else Entries.put action.name { action with app } actions

def actionDiagnostics (policy : CollisionPolicy) (app : String) (actions : Entries Action)
    (action : Action) : Diagnostics :=
  (if action.app = app then [] else [movedAction app action]) ++
  (if Entries.has action.name actions then [duplicateAction policy app action.name] else [])

def addActions (policy : CollisionPolicy) (app : String) (actions : Entries Action) :
    List Action → Entries Action × Diagnostics
  | [] => (actions, [])
  | action :: rest =>
    let (added, diagnostics) := addActions policy app (addAction policy app actions action) rest
    (added, actionDiagnostics policy app actions action ++ diagnostics)

def insert (c : Catalogue) (provider : String) (source : AppWithActions) : Catalogue :=
  let name := source.app.name
  let known := Entries.has name c.entries
  let collision := if known then [redefined c.policy provider name] else []
  if known && c.policy = .reject then
    { c with diagnostics := c.diagnostics ++ collision }
  else
    let (actions, diagnostics) := addActions c.policy name [] source.actions
    { c with
      entries := Entries.put name ⟨source.app, actions⟩ c.entries
      diagnostics := c.diagnostics ++ collision ++ diagnostics }

def addProvider (context : BuildContext) (c : Catalogue) (p : Provider) : Catalogue :=
  let supply := p.provide context
  supply.apps.foldl (fun c source => c.insert p.name source)
    { c with diagnostics := c.diagnostics ++ supply.diagnostics }

def build (context : BuildContext) (providers : List Provider) : Catalogue :=
  providers.foldl (addProvider context) { policy := context.policy }

def apps (c : Catalogue) : List App := (Entries.values c.entries).map (·.app)

def allActions (c : Catalogue) : List Action :=
  (Entries.values c.entries).flatMap fun entry => Entries.values entry.actions

def size (c : Catalogue) : Nat := c.entries.length

def actionCount (c : Catalogue) : Nat :=
  (Entries.values c.entries).foldl (fun n entry => n + entry.actions.length) 0

end Catalogue

end ActionCatalogue
