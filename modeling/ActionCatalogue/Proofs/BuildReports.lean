import ActionCatalogue.Proofs.ProvidedApp

/-!
What the reports on a declared app say: of which app they are, how severe, and from where. What is
reported of a connection, of shadowed fields, of missing paths and of collisions are warnings; an
error is reported of each operation that a lenient build skips, of each declared action that is
refused, and of a document that cannot be had.
-/

namespace ActionCatalogue

namespace Diagnostics

@[simp] theorem errors_append (first second : Diagnostics) :
    errors (first ++ second) = errors first ++ errors second :=
  List.filter_append first second

@[simp] theorem warnings_append (first second : Diagnostics) :
    warnings (first ++ second) = warnings first ++ warnings second :=
  List.filter_append first second

theorem errors_flatMap {α : Type} (f : α → Diagnostics) (xs : List α) :
    errors (xs.flatMap f) = xs.flatMap fun x => errors (f x) :=
  List.filter_flatMap

/-- All reports are warnings of one source about one app. -/
def Warn (source app : String) (ds : Diagnostics) : Prop :=
  ∀ r ∈ ds, r.severity = .warning ∧ r.source = source ∧ r.app = some app

namespace Warn

variable {source app : String} {ds first second : Diagnostics}

theorem append (one : Warn source app first) (two : Warn source app second) :
    Warn source app (first ++ second) := by
  intro r member
  exact (List.mem_append.mp member).elim (one r) (two r)

theorem map {α : Type} {xs : List α} {f : α → Diagnostic}
    (each : ∀ x, (f x).severity = .warning ∧ (f x).source = source ∧ (f x).app = some app) :
    Warn source app (xs.map f) := by
  intro r member
  obtain ⟨x, -, rfl⟩ := List.mem_map.mp member
  exact each x

theorem flatMap {α : Type} {xs : List α} {f : α → Diagnostics}
    (each : ∀ x, Warn source app (f x)) : Warn source app (xs.flatMap f) := by
  intro r member
  obtain ⟨x, -, inside⟩ := List.mem_flatMap.mp member
  exact each x r inside

theorem errors_eq (warn : Warn source app ds) : errors ds = [] := by
  apply List.filter_eq_nil_iff.mpr
  intro r member
  simp [Diagnostic.isError, (warn r member).1]

theorem from_source (warn : Warn source app ds) :
    (warnings ds).filter (·.source = source) = ds := by
  have kept : warnings ds = ds := by
    apply List.filter_eq_self.mpr
    intro r member
    simp [(warn r member).1]
  rw [kept]
  apply List.filter_eq_self.mpr
  intro r member
  simp [(warn r member).2.1]

theorem from_other {other : String} (warn : Warn source app ds) (different : source ≠ other) :
    (warnings ds).filter (·.source = other) = [] := by
  apply List.filter_eq_nil_iff.mpr
  intro r member
  simp [(warn r (List.mem_filter.mp member).1).2.1, different]

end Warn

end Diagnostics

open Diagnostics

namespace Swagger

/-! ### A lenient build -/

variable (app : String)

def missingReport (path : String) : Diagnostic where
  severity := .warning
  source := diagnosticSource
  app := some app
  message := s!"allowed path '{path}' not found in document"

def collisionReport (name : String) : Diagnostic where
  severity := .warning
  source := diagnosticSource
  app := some app
  action := some name
  message := "action name defined by more than one operation"

def skippedReport (k : Skipped) : Diagnostic where
  severity := .error
  source := diagnosticSource
  app := some app
  action := some k.name
  message := s!"{k.method.name} {k.path} skipped: {k.reason}"

/-- What is reported of actions that were built, of missing paths and of collisions. -/
def Outcome.gaps (o : Outcome) : Diagnostics :=
  (o.actions.flatMap fun a => a.diagnostics app) ++ o.missingPaths.map (missingReport app) ++
    o.collisions.map (collisionReport app)

theorem Outcome.diagnostics_eq (o : Outcome) :
    o.diagnostics app = o.gaps app ++ o.skipped.map (skippedReport app) := rfl

theorem warn_descriptor (a : Descriptor) : Warn diagnosticSource app (a.diagnostics app) :=
  .map fun _ => ⟨rfl, rfl, rfl⟩

theorem Outcome.warn_gaps (o : Outcome) : Warn diagnosticSource app (o.gaps app) :=
  ((Warn.flatMap fun a => warn_descriptor app a).append (.map fun _ => ⟨rfl, rfl, rfl⟩)).append
    (.map fun _ => ⟨rfl, rfl, rfl⟩)

theorem Outcome.errors_diagnostics (o : Outcome) :
    errors (o.diagnostics app) = o.skipped.map (skippedReport app) := by
  rw [diagnostics_eq, errors_append, (o.warn_gaps app).errors_eq, List.nil_append]
  apply List.filter_eq_self.mpr
  intro r member
  obtain ⟨k, -, rfl⟩ := List.mem_map.mp member
  rfl

theorem Outcome.warnings_diagnostics (o : Outcome) :
    (warnings (o.diagnostics app)).filter (·.source = diagnosticSource) = o.gaps app := by
  have severe : warnings (o.skipped.map (skippedReport app)) = [] := by
    apply List.filter_eq_nil_iff.mpr
    intro r member
    obtain ⟨k, -, rfl⟩ := List.mem_map.mp member
    simp [skippedReport]
  rw [diagnostics_eq, warnings_append, severe, List.append_nil, (o.warn_gaps app).from_source]

theorem Outcome.place_of_mem_diagnostics {o : Outcome} {r : Diagnostic}
    (member : r ∈ o.diagnostics app) : r.source = diagnosticSource ∧ r.app = some app := by
  rw [diagnostics_eq] at member
  rcases List.mem_append.mp member with gap | skipped
  · exact (o.warn_gaps app r gap).2
  · obtain ⟨k, -, rfl⟩ := List.mem_map.mp skipped
    exact ⟨rfl, rfl⟩

end Swagger

namespace Manifest

/-! ### A declared app -/

variable {document : Swagger.Document} {n : Normalizer} {app : String}
  {declared : ActionDeclaration}

theorem warn_connection (app : App) :
    Warn diagnosticSource app.name (connectionDiagnostics app) := by
  unfold connectionDiagnostics
  split
  · intro r member
    cases member
  · exact .append (.map fun _ => ⟨rfl, rfl, rfl⟩) (.map fun _ => ⟨rfl, rfl, rfl⟩)

/-- A declared action is reported as an error where its operation cannot be derived. -/
theorem errors_derivationReports : errors (derivationReports document n app declared) =
    match derivation document n declared with
    | .ok _ => []
    | .error error => [refusedAction app declared error] := by
  unfold derivationReports
  cases derivation document n declared with
  | ok a => exact (Swagger.warn_descriptor app a).errors_eq
  | error error => rfl

theorem action_of_mem_errors {r : Diagnostic}
    (member : r ∈ errors (derivationReports document n app declared)) :
    r.action = some declared.name := by
  rw [errors_derivationReports] at member
  split at member
  · cases member
  · exact List.mem_singleton.mp member ▸ rfl

/-- A report on a declared app: it comes from the manifest or from the document of the app. -/
structure Belongs (app : String) (r : Diagnostic) : Prop where
  app : r.app = some app
  source : r.source = diagnosticSource ∨ r.source = Swagger.diagnosticSource

theorem belongs_of_mem_connection {app : App} {r : Diagnostic}
    (member : r ∈ connectionDiagnostics app) : Belongs app.name r where
  app := (warn_connection app r member).2.2
  source := .inl (warn_connection app r member).2.1

theorem belongs_of_mem_outcome {o : Swagger.Outcome} {r : Diagnostic}
    (member : r ∈ o.diagnostics app) : Belongs app r where
  app := (Swagger.Outcome.place_of_mem_diagnostics app member).2
  source := .inr (Swagger.Outcome.place_of_mem_diagnostics app member).1

theorem belongs_of_mem_derivation {r : Diagnostic}
    (member : r ∈ derivationReports document n app declared) : Belongs app r := by
  unfold derivationReports at member
  split at member
  next a _ =>
    have place := (Swagger.warn_descriptor app a r member).2
    exact ⟨place.2, .inr place.1⟩
  next =>
    obtain rfl := List.mem_singleton.mp member
    exact ⟨rfl, .inl rfl⟩

end Manifest

end ActionCatalogue
