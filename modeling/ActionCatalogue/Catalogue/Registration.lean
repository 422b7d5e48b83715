import ActionCatalogue.Catalogue.Lookup

/-!
Registration with a host. Each app is registered before its own actions, in the order of the
catalogue, and the first refusal ends the walk. A host has a state of its own, which every call may
change, also one that it refuses.
-/

namespace ActionCatalogue

open Json

structure Host (σ : Type) where
  registerApp : App → σ → Except String Unit × σ
  registerAction : Action → σ → Except String Unit × σ

structure RegistrationSummary where
  apps : Nat := 0
  actions : Nat := 0
deriving DecidableEq, Repr

namespace RegistrationSummary

def countApp (s : RegistrationSummary) : RegistrationSummary := { s with apps := s.apps + 1 }

def countAction (s : RegistrationSummary) : RegistrationSummary :=
  { s with actions := s.actions + 1 }

def toJson (s : RegistrationSummary) : Value :=
  .object [("apps", .ofNat s.apps), ("actions", .ofNat s.actions)]

end RegistrationSummary

namespace Catalogue

variable {σ : Type}

/-- Registers actions until the host refuses one. -/
def registerActions (host : Host σ) (summary : RegistrationSummary) :
    List Action → σ → Except RegistryError RegistrationSummary × σ
  | [], s => (.ok summary, s)
  | action :: rest, s =>
    match host.registerAction action s with
    | (.ok (), s) => registerActions host summary.countAction rest s
    | (.error cause, s) => (.error (.host action.qualifiedName cause), s)

/-- Registers apps, each followed by its actions, until the host refuses one of them. -/
def registerEntries (host : Host σ) (summary : RegistrationSummary) :
    List CatalogueEntry → σ → Except RegistryError RegistrationSummary × σ
  | [], s => (.ok summary, s)
  | entry :: rest, s =>
    match host.registerApp entry.app s with
    | (.error cause, s) => (.error (.host entry.app.name cause), s)
    | (.ok (), s) =>
      match registerActions host summary.countApp (Entries.values entry.actions) s with
      | (.error refused, s) => (.error refused, s)
      | (.ok summary, s) => registerEntries host summary rest s

def registerApps (c : Catalogue) (host : Host σ) (s : σ) :
    Except RegistryError RegistrationSummary × σ :=
  registerEntries host {} (Entries.values c.entries) s

end Catalogue

inductive HostCall where
  | app (app : App)
  | action (action : Action)

def HostCall.text : HostCall → String
  | .app a => "app:" ++ a.name
  | .action a => "action:" ++ a.qualifiedName

structure Recording where
  apps : List App := []
  actions : List Action := []
  calls : List String := []

namespace Recording

def noteApp (r : Recording) (a : App) : Recording :=
  { r with apps := r.apps ++ [a], calls := r.calls ++ [(HostCall.app a).text] }

def noteAction (r : Recording) (a : Action) : Recording :=
  { r with actions := r.actions ++ [a], calls := r.calls ++ [(HostCall.action a).text] }

/-- A host that accepts everything and keeps it. -/
def host : Host Recording where
  registerApp a r := (.ok (), r.noteApp a)
  registerAction a r := (.ok (), r.noteAction a)

end Recording

end ActionCatalogue
