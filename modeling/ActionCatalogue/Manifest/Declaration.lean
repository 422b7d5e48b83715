import ActionCatalogue.App.App
import ActionCatalogue.App.SwaggerPath
import ActionCatalogue.Build.Policy
import ActionCatalogue.Text.Blank

/-!
Manifests: apps that are declared by hand, each with the swagger operations that it offers. A
manifest is valid if its apps have distinct names that are not blank, if no app declares actions
without a document that holds them, and if the actions of an app have distinct names that are not
blank.
-/

namespace ActionCatalogue

open Json

/-- An action that stands for one operation. What is not declared comes from the operation. -/
structure ActionDeclaration where
  name : String
  swaggerPath : SwaggerPath
  displayName : Option String := none
  shortDescription : Option String := none
  description : Option String := none
  /-- A hint for the host, in seconds. -/
  timeout : Option Nat := none

namespace ActionDeclaration

def fieldNames : List String :=
  ["action", "swagger_path", "display_name", "short_desc", "desc", "io_timeout_secs"]

def ofNode (n : Node) : Reading ActionDeclaration :=
  n.asRecord fieldNames fun r =>
    ActionDeclaration.mk <$> r.required "action" Node.asText
      <*> r.required "swagger_path" SwaggerPath.ofNode
      <*> r.optional "display_name" Node.asText <*> r.optional "short_desc" Node.asText
      <*> r.optional "desc" Node.asText <*> r.optional "io_timeout_secs" Node.asNat

def toJson (a : ActionDeclaration) : Value :=
  .object (
    [("action", .text a.name), ("swagger_path", a.swaggerPath.toJson)] ++
    Value.entry? "display_name" (a.displayName.map .text) ++
    Value.entry? "short_desc" (a.shortDescription.map .text) ++
    Value.entry? "desc" (a.description.map .text) ++
    Value.entry? "io_timeout_secs" (a.timeout.map Value.ofNat))

end ActionDeclaration

/-- An app and the actions declared for it. Without any, the document says what it offers. -/
structure AppDeclaration where
  app : App
  actions : List ActionDeclaration := []

namespace AppDeclaration

/-- Reads the actions first, then the app from the other entries of the same map. -/
def ofNode (n : Node) : Reading AppDeclaration :=
  match n with
  | .map _ _ => do
    let actions ← n.asRecord ["actions"] fun r =>
      r.orDefault "actions" [] (Node.asListOf ActionDeclaration.ofNode)
    return ⟨← App.ofNode n, actions⟩
  | _ => .error .misshapen

def toJson (d : AppDeclaration) : Value :=
  .object (
    d.app.members ++
    (if d.actions.isEmpty then []
      else [("actions", .list (d.actions.map ActionDeclaration.toJson))]))

end AppDeclaration

inductive ManifestFault where
  | blankAppName
  | repeatedApp (name : String)
  | noDocument (app : String)
  | blankActionName (app : String)
  | repeatedAction (action app : String)
deriving DecidableEq, Repr

def ManifestFault.message : ManifestFault → String
  | blankAppName => "app name must not be empty"
  | repeatedApp name => s!"app '{name}' is declared more than once"
  | noDocument app => s!"app '{app}' declares actions but has no swagger document"
  | blankActionName app => s!"app '{app}' has an action without a name"
  | repeatedAction action app => s!"action '{action}' is declared more than once in app '{app}'"

structure Manifest where
  locale : String := "en"
  policy : CollisionPolicy := .overwrite
  apps : List AppDeclaration := []

namespace Manifest

/-- Checks the names of an app's actions; `seen` are those of the actions before them. -/
def checkActions (app : String) (seen : List String) :
    List ActionDeclaration → Except ManifestFault Unit
  | [] => .ok ()
  | a :: rest =>
    if Text.isBlank a.name then .error (.blankActionName app)
    else if seen.contains a.name then .error (.repeatedAction a.name app)
    else checkActions app (a.name :: seen) rest

/-- Checks declarations; `seen` are the names of the apps before them. Blanks around the name of an
app do not count. -/
def checkApps (seen : List String) : List AppDeclaration → Except ManifestFault Unit
  | [] => .ok ()
  | d :: rest => do
    let name := Text.trim d.app.name
    if name.isEmpty then throw .blankAppName
    if seen.contains name then throw (.repeatedApp name)
    if !d.actions.isEmpty && d.app.swagger.isNone then throw (.noDocument name)
    checkActions name [] d.actions
    checkApps (name :: seen) rest

def validate (m : Manifest) : Except ManifestFault Unit := checkApps [] m.apps

def fieldNames : List String := ["locale", "collision_policy", "apps"]

def ofNode (n : Node) : Reading Manifest :=
  n.asRecord fieldNames fun r =>
    Manifest.mk <$> r.orDefault "locale" "en" Node.asText
      <*> r.orDefault "collision_policy" .overwrite CollisionPolicy.ofNode
      <*> r.orDefault "apps" [] (Node.asListOf AppDeclaration.ofNode)

def toJson (m : Manifest) : Value :=
  .object [("locale", .text m.locale), ("collision_policy", m.policy.toJson),
    ("apps", .list (m.apps.map AppDeclaration.toJson))]

end Manifest

end ActionCatalogue
