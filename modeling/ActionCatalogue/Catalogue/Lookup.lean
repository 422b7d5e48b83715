import ActionCatalogue.Catalogue.Basic

/-!
Looking up apps, actions and options of a catalogue, and calling the functions behind them. What
such a function fails with is passed on as it is.
-/

namespace ActionCatalogue

open Json

inductive RegistryError where
  | appNotFound (app : String)
  | actionNotFound (app action : String)
  | optionNotFound (app action option : String)
  | notInvocable (action : String)
  | host (item cause : String)
  | resolver (cause : String)
deriving DecidableEq, Repr

namespace RegistryError

def message : RegistryError → String
  | appNotFound app => s!"App not found: {app}"
  | actionNotFound app action => s!"Action not found: {app}.{action}"
  | optionNotFound app action option => s!"Option '{option}' not found on {app}.{action}"
  | notInvocable action =>
    s!"Action {action} is dispatched by the host's REST executor and cannot be invoked here"
  | host item cause => s!"Host rejected registration of {item}: {cause}"
  | resolver cause => cause

def toDataError (e : RegistryError) : DataError :=
  match e with
  | appNotFound _ | actionNotFound _ _ | optionNotFound _ _ _ => .notFound e.message
  | notInvocable _ | host _ _ | resolver _ => .invalid e.message

end RegistryError

namespace Catalogue

def entry (c : Catalogue) (app : String) : Except RegistryError CatalogueEntry :=
  match Entries.lookup app c.entries with
  | some e => .ok e
  | none => .error (.appNotFound app)

def app (c : Catalogue) (name : String) : Except RegistryError App := do
  return (← c.entry name).app

def actions (c : Catalogue) (app : String) : Except RegistryError (List Action) := do
  return Entries.values (← c.entry app).actions

def action (c : Catalogue) (app name : String) : Except RegistryError Action := do
  match Entries.lookup name (← c.entry app).actions with
  | some a => .ok a
  | none => .error (.actionNotFound app name)

def option (c : Catalogue) (app action name : String) : Except RegistryError ActionOption := do
  match Entries.lookup name (← c.action app action).options with
  | some o => .ok o
  | none => .error (.optionNotFound app action name)

/-- The allowed values of an option, static and fetched. -/
def allowedValues (c : Catalogue) (app action option : String) (context : ActionContext) :
    Inquiry RegistryError (List AllowedValue) := do
  ((← c.option app action option).allowedValuesFor context).mapError .resolver

def dependentOptions (c : Catalogue) (app action option : String) (context : ActionContext) :
    Inquiry RegistryError (Entries ActionOption) := do
  ((← c.option app action option).dependentOptionsFor context).mapError .resolver

def postAuthOptions (c : Catalogue) (app : String) (context : ActionContext) :
    Inquiry RegistryError Object := do
  match (← c.app app).restModifiers.bind (·.postAuth) with
  | some resolve => (resolve context).mapError .resolver
  | none => return []

def invoke (c : Catalogue) (app action : String) (input options : Object)
    (context : ActionContext) : Inquiry RegistryError Value := do
  let found ← c.action app action
  match found.function? with
  | some run => (run input options context).mapError .resolver
  | none => .done (.error (.notInvocable found.qualifiedName))

structure Stats where
  apps : Nat
  actions : Nat
  swaggerActions : Nat
  functionActions : Nat
  errors : Nat
  warnings : Nat

def stats (c : Catalogue) : Stats where
  apps := c.size
  actions := c.actionCount
  swaggerActions := c.allActions.countP Action.isSwagger
  functionActions := c.actionCount - c.allActions.countP Action.isSwagger
  errors := c.diagnostics.errors.length
  warnings := c.diagnostics.warnings.length

def Stats.toJson (s : Stats) : Value :=
  .object [("apps", .ofNat s.apps), ("actions", .ofNat s.actions),
    ("swagger_actions", .ofNat s.swaggerActions),
    ("function_actions", .ofNat s.functionActions), ("errors", .ofNat s.errors),
    ("warnings", .ofNat s.warnings)]

end Catalogue

end ActionCatalogue
