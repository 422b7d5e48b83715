import ActionCatalogue.Proofs.BuildReports
import ActionCatalogue.Proofs.ManifestValidity
import ActionCatalogue.Proofs.OperationRoutes

/-!
What becomes of the declarations of a valid manifest. An app is provided once, or it is left out and
reported once; a declared action is there, or it is reported; and what is reported of an app that
offers its document is what a lenient build left out or could not place. All that is made of a
declaration carries its name, so it is found again among what the whole manifest supplies.
-/

namespace ActionCatalogue

/-! ### Lists made member by member -/

section Tagged

variable {α β κ : Type} {key : α → κ} {tag : β → κ} {xs : List α}

/-- What is made of some members stands in the order of the members. -/
theorem map_filterMap_sublist {f : α → Option β}
    (tagged : ∀ x ∈ xs, ∀ y, f x = some y → tag y = key x) :
    ((xs.filterMap f).map tag).Sublist (xs.map key) := by
  induction xs with
  | nil => exact .slnil
  | cons first rest ih =>
    have later := ih fun x member => tagged x (List.mem_cons_of_mem first member)
    cases made : f first with
    | none =>
      rw [List.filterMap_cons_none made]
      exact later.cons (key first)
    | some y =>
      rw [List.filterMap_cons_some made, List.map_cons, List.map_cons,
        tagged first List.mem_cons_self y made]
      exact later.cons_cons (key first)

theorem nodup_map_some (distinct : (xs.map key).Nodup) :
    (xs.map fun x => some (key x)).Nodup := by
  have apart := distinct.map fun _ _ same => Option.some.inj same
  rwa [List.map_map] at apart

variable [DecidableEq κ]

/-- What is made of one member is found again by its tag. -/
theorem filter_flatMap_of_nodup {f : α → List β} (distinct : (xs.map key).Nodup)
    (tagged : ∀ x ∈ xs, ∀ y ∈ f x, tag y = key x) {x : α} (member : x ∈ xs) :
    (xs.flatMap f).filter (tag · = key x) = f x := by
  induction xs with
  | nil => cases member
  | cons first rest ih =>
    obtain ⟨fresh, distinct⟩ := List.nodup_cons.mp distinct
    have later := fun x member => tagged x (List.mem_cons_of_mem first member)
    rw [List.flatMap_cons, List.filter_append]
    rcases List.mem_cons.mp member with rfl | among
    · -- the tags of what the others make are their keys, and these are different
      have own : (f x).filter (tag · = key x) = f x := by
        apply List.filter_eq_self.mpr
        intro y made
        exact decide_eq_true (tagged x List.mem_cons_self y made)
      have others : (rest.flatMap f).filter (tag · = key x) = [] := by
        apply List.filter_eq_nil_iff.mpr
        intro y made same
        obtain ⟨z, among, made⟩ := List.mem_flatMap.mp made
        have shared : key z = key x := (later z among y made).symm.trans (of_decide_eq_true same)
        exact fresh (shared ▸ List.mem_map_of_mem among)
      rw [own, others, List.append_nil]
    · have none : (f first).filter (tag · = key x) = [] := by
        apply List.filter_eq_nil_iff.mpr
        intro y made same
        have shared : key first = key x :=
          (tagged first List.mem_cons_self y made).symm.trans (of_decide_eq_true same)
        exact fresh (shared ▸ List.mem_map_of_mem among)
      rw [none, List.nil_append, ih distinct later among]

theorem filter_filterMap_of_nodup {f : α → Option β} (distinct : (xs.map key).Nodup)
    (tagged : ∀ x ∈ xs, ∀ y, f x = some y → tag y = key x) {x : α} (member : x ∈ xs) :
    (xs.filterMap f).filter (tag · = key x) = (f x).toList := by
  rw [List.filterMap_eq_flatMap_toList]
  refine filter_flatMap_of_nodup distinct (fun x member y made => ?_) member
  exact tagged x member y (Option.mem_toList.mp made)

end Tagged

namespace Manifest

open Diagnostics
open Swagger (Document Descriptor)

/-! ### One declaration -/

section Declaration

variable (files : Files) (directory : String) (context : BuildContext) (d : AppDeclaration)

/-- What is provided of a declared app, and what is reported of it. -/
structure Provides (source : AppWithActions) (reports : Diagnostics) : Prop where
  app : source.app = withDefaults d.app
  about : ∀ r ∈ reports, Belongs d.app.name r
  available : ∀ reference, d.app.swagger = some reference →
    ∃ document, documentOf files directory reference = .ok document
  distinct : (source.actions.map (·.name)).Nodup
  undocumented : d.app.swagger = none → source.actions = [] ∧ reports.errors = []
  /-- An action stands for an operation of the document of the app. -/
  real : ∀ a ∈ source.actions, a.app = d.app.name ∧ ∃ reference document path,
    d.app.swagger = some reference ∧ documentOf files directory reference = .ok document ∧
      a.kind = .swagger path ∧ (document.operation? path.path path.method).isSome
  /-- A declared action is there, with its own path and method, or it is reported why its operation
  cannot be derived. -/
  declared : ∀ declared ∈ d.actions,
    let actions := source.actions.filter (·.name = declared.name)
    let errors := reports.errors.filter (·.action = some declared.name)
    (∃ a, actions = [a] ∧ a.kind = .swagger declared.swaggerPath ∧ errors = []) ∨
      (actions = [] ∧ ∃ reference document error, d.app.swagger = some reference ∧
        documentOf files directory reference = .ok document ∧
        derivation document (context.normalizer.within d.app.name) declared = .error error ∧
        errors = [refusedAction d.app.name declared error])
  /-- Where no action is declared, what a lenient build says of the document is reported. -/
  offered : d.actions = [] → ∀ reference document, d.app.swagger = some reference →
    documentOf files directory reference = .ok document →
      let outcome := Swagger.build document (offerFor context d.app reference)
      source.actions = outcome.toActions d.app.name ∧
        reports.errors = outcome.skipped.map (Swagger.skippedReport d.app.name) ∧
        reports.warnings.filter (·.source = Swagger.diagnosticSource) = outcome.gaps d.app.name

/-- What is reported of a declared app whose document cannot be had. -/
structure Misses (reports : Diagnostics) : Prop where
  about : ∀ r ∈ reports, Belongs d.app.name r
  errors : ∃ reference error, d.app.swagger = some reference ∧
    documentOf files directory reference = .error error ∧
      reports.errors = [unreadable directory d.app reference error]

/-- A declared app is provided, or it is left out because its document cannot be had. -/
def Answers (answer : Option AppWithActions × Diagnostics) : Prop :=
  match answer with
  | (some source, reports) => Provides files directory context d source reports
  | (none, reports) => Misses files directory d reports

end Declaration

variable {files : Files} {directory : String} {context : BuildContext} {d : AppDeclaration}
  {reference : SwaggerReference} {document : Document}

theorem available_of_read (refers : d.app.swagger = some reference)
    (read : documentOf files directory reference = .ok document) :
    ∀ reference, d.app.swagger = some reference →
      ∃ document, documentOf files directory reference = .ok document := by
  intro other refers'
  obtain rfl : reference = other := Option.some.inj (refers.symm.trans refers')
  exact ⟨document, read⟩

/-- What describes an endpoint of the document of an app stands for an operation of it. -/
theorem real_of_described (refers : d.app.swagger = some reference)
    (read : documentOf files directory reference = .ok document) {n : Normalizer}
    {e : Swagger.Endpoint} {a : Descriptor} (member : e ∈ document.endpoints)
    (described : Swagger.describe document n e = .ok a) : ∃ reference document path,
      d.app.swagger = some reference ∧ documentOf files directory reference = .ok document ∧
        ActionKind.swagger a.swaggerPath = .swagger path ∧
        (document.operation? path.path path.method).isSome := by
  refine ⟨reference, document, a.swaggerPath, refers, read, rfl, ?_⟩
  obtain ⟨path, method⟩ := Swagger.describe_place described
  have found := Swagger.operation?_of_mem (Document.nodup_paths_of_ofFile read) member
  rw [Descriptor.swaggerPath, path, method, found]
  rfl

theorem names_toActions (o : Swagger.Outcome) (app : String) :
    (o.toActions app).map (·.name) = o.actions.map (·.name) := by
  rw [Swagger.Outcome.toActions, List.map_map]
  rfl

/-- An action that was derived has the path and the method that were declared for it. -/
theorem swaggerPath_of_derivation {n : Normalizer} {declared : ActionDeclaration} {a : Descriptor}
    (derived : derivation document n declared = .ok a) :
    a.swaggerPath = declared.swaggerPath := by
  obtain ⟨e, -, path, method, described⟩ := Swagger.exists_of_buildOperation derived
  obtain ⟨samePath, sameMethod⟩ := Swagger.describe_place described
  rw [Descriptor.swaggerPath, samePath, sameMethod, path, method]

section DeclaredActions

variable (document : Document) (n : Normalizer) (app : String) {declared : ActionDeclaration}
  {declarations : List ActionDeclaration} (distinct : (declarations.map (·.name)).Nodup)
  (member : declared ∈ declarations)

include distinct

theorem nodup_derivedActions :
    ((declarations.filterMap (derivedAction? document n app)).map (·.name)).Nodup :=
  distinct.sublist (map_filterMap_sublist fun _ _ _ made => name_of_derivedAction? made)

include member

theorem filter_derivedActions :
    (declarations.filterMap (derivedAction? document n app)).filter (·.name = declared.name) =
      (derivedAction? document n app declared).toList :=
  filter_filterMap_of_nodup distinct (fun _ _ _ made => name_of_derivedAction? made) member

theorem filter_derivationErrors :
    (errors (declarations.flatMap (derivationReports document n app))).filter
        (·.action = some declared.name) =
      errors (derivationReports document n app declared) := by
  rw [errors_flatMap]
  exact filter_flatMap_of_nodup (nodup_map_some distinct)
    (fun _ _ _ reported => action_of_mem_errors reported) member

/-- A declared action is there once, or its operation cannot be derived and is reported once. -/
theorem declared_or_reported :
    let actions := (declarations.filterMap (derivedAction? document n app)).filter
      (·.name = declared.name)
    let errors := (errors (declarations.flatMap (derivationReports document n app))).filter
      (·.action = some declared.name)
    (∃ a, actions = [a] ∧ a.kind = .swagger declared.swaggerPath ∧ errors = []) ∨
      (actions = [] ∧ ∃ error, derivation document n declared = .error error ∧
        errors = [refusedAction app declared error]) := by
  rw [filter_derivedActions document n app distinct member,
    filter_derivationErrors document n app distinct member, errors_derivationReports]
  cases derived : derivation document n declared with
  | ok a =>
    rw [derivedAction?_ok derived]
    exact .inl ⟨_, rfl, congrArg ActionKind.swagger (swaggerPath_of_derivation derived), rfl⟩
  | error error =>
    rw [derivedAction?_error derived]
    exact .inr ⟨rfl, error, rfl, rfl⟩

end DeclaredActions

theorem errors_connection_append (app : App) (reports : Diagnostics) :
    (connectionDiagnostics app ++ reports).errors = reports.errors := by
  rw [errors_append, (warn_connection app).errors_eq, List.nil_append]

theorem answers_undocumented (admissible : Admissible d) (plain : d.app.swagger = none) :
    Answers files directory context d (provideApp files directory context d) := by
  rw [provideApp_undocumented plain]
  constructor
  case app => rfl
  case about => exact fun r => belongs_of_mem_connection
  case available =>
    intro reference refers
    simp [plain] at refers
  case distinct => exact List.nodup_nil
  case undocumented => exact fun _ => ⟨rfl, (warn_connection _).errors_eq⟩
  case real =>
    intro a member
    cases member
  case declared =>
    intro declared member
    have documented := admissible.documented (List.ne_nil_of_mem member)
    simp [plain] at documented
  case offered =>
    intro _ reference document refers
    simp [plain] at refers

theorem answers_unreadable {error : SwaggerError} (refers : d.app.swagger = some reference)
    (failed : documentOf files directory reference = .error error) :
    Answers files directory context d (provideApp files directory context d) := by
  rw [provideApp_unreadable refers failed]
  constructor
  case about =>
    intro r member
    rcases List.mem_append.mp member with connection | single
    · exact belongs_of_mem_connection connection
    · obtain rfl := List.mem_singleton.mp single
      exact ⟨rfl, .inl rfl⟩
  case errors =>
    refine ⟨reference, error, refers, failed, ?_⟩
    rw [errors_connection_append]
    rfl

theorem answers_offered (refers : d.app.swagger = some reference)
    (read : documentOf files directory reference = .ok document) (undeclared : d.actions = []) :
    Answers files directory context d (provideApp files directory context d) := by
  rw [provideApp_offered refers read undeclared]
  constructor
  case app => rfl
  case about =>
    intro r member
    rcases List.mem_append.mp member with connection | built
    · exact belongs_of_mem_connection connection
    · exact belongs_of_mem_outcome built
  case available => exact available_of_read refers read
  case distinct =>
    rw [names_toActions]
    exact (Swagger.build_accounts document (offerFor context d.app reference)).distinct
  case undocumented =>
    intro plain
    simp [plain] at refers
  case real =>
    intro a member
    obtain ⟨b, built, rfl⟩ := List.mem_map.mp member
    obtain ⟨e, among, described⟩ := Swagger.exists_of_mem_actions built
    exact ⟨rfl, real_of_described refers read (Swagger.mem_endpoints_of_visited among) described⟩
  case declared =>
    intro declared member
    simp [undeclared] at member
  case offered =>
    intro _ other document' refers' read'
    obtain rfl : reference = other := Option.some.inj (refers.symm.trans refers')
    obtain rfl : document = document' := Except.ok.inj (read.symm.trans read')
    have silent := (warn_connection (withDefaults d.app)).from_other
      (show diagnosticSource ≠ Swagger.diagnosticSource by decide)
    refine ⟨rfl, ?_, ?_⟩
    · rw [errors_connection_append, Swagger.Outcome.errors_diagnostics]
    · rw [warnings_append, List.filter_append, silent, List.nil_append,
        Swagger.Outcome.warnings_diagnostics]

theorem answers_declared (refers : d.app.swagger = some reference)
    (read : documentOf files directory reference = .ok document) (admissible : Admissible d)
    (declares : d.actions ≠ []) :
    Answers files directory context d (provideApp files directory context d) := by
  rw [provideApp_declared refers read declares]
  constructor
  case app => rfl
  case about =>
    intro r member
    rcases List.mem_append.mp member with connection | derived
    · exact belongs_of_mem_connection connection
    · obtain ⟨declared, -, reported⟩ := List.mem_flatMap.mp derived
      exact belongs_of_mem_derivation reported
  case available => exact available_of_read refers read
  case distinct => exact nodup_derivedActions document _ d.app.name admissible.actions
  case undocumented =>
    intro plain
    simp [plain] at refers
  case real =>
    intro a member
    obtain ⟨declared, -, made⟩ := List.mem_filterMap.mp member
    obtain ⟨b, derived, rfl⟩ := exists_of_derivedAction? made
    obtain ⟨e, among, -, -, described⟩ := Swagger.exists_of_buildOperation derived
    exact ⟨rfl, real_of_described refers read among described⟩
  case declared =>
    intro declared member
    rw [errors_connection_append]
    rcases declared_or_reported document (context.normalizer.within d.app.name) d.app.name
      admissible.actions member with there | ⟨absent, error, failed, reported⟩
    · exact .inl there
    · exact .inr ⟨absent, reference, document, error, refers, read, failed, reported⟩
  case offered => exact fun undeclared => absurd undeclared declares

theorem provideApp_answers (admissible : Admissible d) :
    Answers files directory context d (provideApp files directory context d) := by
  cases refers : d.app.swagger with
  | none => exact answers_undocumented admissible refers
  | some reference =>
    cases read : documentOf files directory reference with
    | error error => exact answers_unreadable refers read
    | ok document =>
      by_cases undeclared : d.actions = []
      · exact answers_offered refers read undeclared
      · exact answers_declared refers read admissible undeclared

theorem Answers.name {answer : Option AppWithActions × Diagnostics} {source : AppWithActions}
    (answers : Answers files directory context d answer) (provided : answer.1 = some source) :
    source.app.name = d.app.name := by
  obtain ⟨_, reports⟩ := answer
  obtain rfl := provided
  exact (congrArg App.name answers.app).trans (name_withDefaults d.app)

theorem Answers.about {answer : Option AppWithActions × Diagnostics}
    (answers : Answers files directory context d answer) :
    ∀ r ∈ answer.2, Belongs d.app.name r := by
  obtain ⟨source | _, reports⟩ := answer
  · exact Misses.about answers
  · exact Provides.about answers

/-! ### A whole manifest -/

section Whole

variable (files directory context) (m : Manifest)

theorem apps_provide : ((m.provider files directory).provide context).apps =
    m.apps.filterMap fun d => (provideApp files directory context d).1 :=
  List.filterMap_map

theorem diagnostics_provide : ((m.provider files directory).provide context).diagnostics =
    m.apps.flatMap fun d => (provideApp files directory context d).2 :=
  List.flatMap_map _ _ m.apps

section Valid

variable {m} (valid : m.validate = .ok ())

include valid

theorem answers_of_mem (member : d ∈ m.apps) :
    Answers files directory context d (provideApp files directory context d) :=
  provideApp_answers (admissible_of_mem valid member)

theorem name_of_provided (member : d ∈ m.apps) {source : AppWithActions}
    (provided : (provideApp files directory context d).1 = some source) :
    source.app.name = d.app.name :=
  (answers_of_mem files directory context valid member).name provided

theorem belongs_of_reported (member : d ∈ m.apps) {r : Diagnostic}
    (reported : r ∈ (provideApp files directory context d).2) : Belongs d.app.name r :=
  (answers_of_mem files directory context valid member).about r reported

theorem names_provided_sublist :
    (((m.provider files directory).provide context).apps.map (·.app.name)).Sublist
      (m.apps.map (·.app.name)) := by
  rw [apps_provide]
  exact map_filterMap_sublist fun _ member _ provided =>
    name_of_provided files directory context valid member provided

theorem belongs_of_mem_diagnostics {r : Diagnostic}
    (member : r ∈ ((m.provider files directory).provide context).diagnostics) :
    ∃ d ∈ m.apps, Belongs d.app.name r := by
  rw [diagnostics_provide] at member
  obtain ⟨d, among, reported⟩ := List.mem_flatMap.mp member
  exact ⟨d, among, belongs_of_reported files directory context valid among reported⟩

theorem filter_apps_provide (member : d ∈ m.apps) :
    ((m.provider files directory).provide context).apps.filter (·.app.name = d.app.name) =
      (provideApp files directory context d).1.toList := by
  rw [apps_provide]
  exact filter_filterMap_of_nodup (nodup_names valid)
    (fun _ among _ provided => name_of_provided files directory context valid among provided) member

theorem filter_diagnostics_provide (member : d ∈ m.apps) :
    ((m.provider files directory).provide context).diagnostics.filter
        (·.app = some d.app.name) =
      (provideApp files directory context d).2 := by
  rw [diagnostics_provide]
  refine filter_flatMap_of_nodup (nodup_map_some (nodup_names valid)) ?_ member
  intro other among r reported
  exact (belongs_of_reported files directory context valid among reported).app

end Valid

/-- What is supplied for a manifest accounts for every declaration. -/
structure Accounts (supply : Supply) : Prop where
  order : (supply.apps.map (·.app.name)).Sublist (m.apps.map (·.app.name))
  about : ∀ r ∈ supply.diagnostics, ∃ d ∈ m.apps, Belongs d.app.name r
  /-- An app is provided once, or it is not and what is missing is reported once. -/
  each : ∀ d ∈ m.apps,
    let sources := supply.apps.filter (·.app.name = d.app.name)
    let reports := supply.diagnostics.filter (·.app = some d.app.name)
    (∃ source, sources = [source] ∧ Provides files directory context d source reports) ∨
      (sources = [] ∧ Misses files directory d reports)

/-- A valid manifest loses no app and no action silently, and all that is provided is real. -/
theorem every_declaration_is_accounted_for (valid : m.validate = .ok ()) :
    Accounts files directory context m ((m.provider files directory).provide context) := by
  constructor
  case order => exact names_provided_sublist files directory context valid
  case about => exact fun r => belongs_of_mem_diagnostics files directory context valid
  case each =>
    intro d member sources reports
    have provided : sources = _ := filter_apps_provide files directory context valid member
    have reported : reports = _ := filter_diagnostics_provide files directory context valid member
    have answers := answers_of_mem files directory context valid member
    unfold Answers at answers
    rw [provided, reported]
    split at answers
    next source reports found =>
      rw [found]
      exact .inl ⟨source, rfl, answers⟩
    next reports found =>
      rw [found]
      exact .inr ⟨rfl, answers⟩

end Whole

def petsText : String :=
  "\n".intercalate ["swagger: '2.0'", "paths:", "  /pets:", "    get:",
    "      operationId: listPets", "    post:", "      parameters:",
    "        - $ref: '#/parameters/pet'"]

def petsOnly : Files := fun path =>
  if path = "docs/pets.yaml" then .ok petsText else .error .notFound

/-- An app without a document, one whose document is not there, one with an operation that cannot
be derived, and one with an action that no operation stands behind. -/
def zoo : Manifest where
  apps :=
    [{ app := { name := "Notes" } },
      { app := { name := "Birds", swagger := some { file := "birds.yaml" } } },
      { app := { name := "Pets", swagger := some { file := "pets.yaml" } } },
      {
        app := { name := "Keepers", swagger := some { file := "pets.yaml" } }
        actions := [{ name := "look", swaggerPath := ⟨"/pets", .get⟩ },
          { name := "feed", swaggerPath := ⟨"/food", .post⟩ }] }]

theorem zoo_is_accounted_for :
    let supply := (zoo.provider petsOnly "docs").provide {}
    zoo.validate = .ok () ∧
      supply.apps.map (fun source => (source.app.name, source.actions.map (·.name))) =
        [("Notes", []), ("Pets", ["list_pets"]), ("Keepers", ["look"])] ∧
      supply.diagnostics.map (fun r => (r.app, r.action)) =
        [(some "Birds", none), (some "Pets", some "post_pets"), (some "Keepers", some "feed")] ∧
      Accounts petsOnly "docs" {} zoo supply := by
  intro supply
  have valid : zoo.validate = .ok () := by decide +kernel
  have supplied : supply.apps.map (fun source => (source.app.name, source.actions.map (·.name))) =
        [("Notes", []), ("Pets", ["list_pets"]), ("Keepers", ["look"])] ∧
      supply.diagnostics.map (fun r => (r.app, r.action)) =
        [(some "Birds", none), (some "Pets", some "post_pets"), (some "Keepers", some "feed")] := by
    decide +kernel
  exact ⟨valid, supplied.1, supplied.2,
    every_declaration_is_accounted_for petsOnly "docs" {} zoo valid⟩

end Manifest

end ActionCatalogue
