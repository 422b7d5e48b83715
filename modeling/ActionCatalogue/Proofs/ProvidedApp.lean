import ActionCatalogue.Manifest.Provider

/-!
How a declared app is provided, case by case: without a document, with one that cannot be had, with
the actions that its document offers, or with the actions that are declared. Declared actions are
taken one by one, and none makes a difference to another.
-/

namespace ActionCatalogue.Manifest

open Swagger (Document)

@[simp] theorem name_withDefaults (app : App) : (withDefaults app).name = app.name := rfl

@[simp] theorem swagger_withDefaults (app : App) : (withDefaults app).swagger = app.swagger := rfl

/-! ### Declared actions -/

section DeclaredActions

variable (document : Document) (n : Normalizer) (app : String) (declared : ActionDeclaration)

def derivation : Except SwaggerError Swagger.Descriptor :=
  Swagger.buildOperation document n declared.swaggerPath.path declared.swaggerPath.method

def derivedAction? : Option Action :=
  (derivation document n declared).toOption.map (declaredAction app declared)

/-- The report of a declared action whose operation cannot be derived. -/
def refusedAction (error : SwaggerError) : Diagnostic where
  severity := .error
  source := diagnosticSource
  app := some app
  action := some declared.name
  message := error.message

def derivationReports : Diagnostics :=
  match derivation document n declared with
  | .ok a => a.diagnostics app
  | .error error => [refusedAction app declared error]

theorem declaredActions_eq (declarations : List ActionDeclaration) :
    declaredActions document n app declarations =
      (declarations.filterMap (derivedAction? document n app),
        declarations.flatMap (derivationReports document n app)) := by
  induction declarations with
  | nil => rfl
  | cons declared rest ih =>
    rw [declaredActions, ih, List.filterMap_cons, List.flatMap_cons]
    simp only [derivedAction?, derivationReports, derivation]
    cases Swagger.buildOperation document n declared.swaggerPath.path
      declared.swaggerPath.method <;> rfl

variable {document n app declared}

theorem derivedAction?_ok {a : Swagger.Descriptor}
    (derived : derivation document n declared = .ok a) :
    derivedAction? document n app declared = some (declaredAction app declared a) := by
  rw [derivedAction?, derived]
  rfl

theorem derivedAction?_error {error : SwaggerError}
    (failed : derivation document n declared = .error error) :
    derivedAction? document n app declared = none := by
  rw [derivedAction?, failed]
  rfl

theorem exists_of_derivedAction? {action : Action}
    (made : derivedAction? document n app declared = some action) :
    ∃ a, derivation document n declared = .ok a ∧ declaredAction app declared a = action := by
  cases derived : derivation document n declared with
  | ok a => exact ⟨a, rfl, Option.some.inj ((derivedAction?_ok derived).symm.trans made)⟩
  | error error => cases (derivedAction?_error derived).symm.trans made

theorem name_of_derivedAction? {action : Action}
    (made : derivedAction? document n app declared = some action) :
    action.name = declared.name := by
  obtain ⟨a, -, rfl⟩ := exists_of_derivedAction? made
  rfl

end DeclaredActions

/-! ### Declared apps -/

variable {files : Files} {directory : String} {context : BuildContext} {d : AppDeclaration}
  {reference : SwaggerReference} {document : Document}

/-- What is read of the document of an app. -/
def documentOf (files : Files) (directory : String) (reference : SwaggerReference) :
    Except SwaggerError Document :=
  Document.ofFile files (FilePath.join directory reference.file)

/-- How the actions that a document offers are built for an app. -/
def offerFor (context : BuildContext) (app : App) (reference : SwaggerReference) :
    Swagger.Settings where
  allowedPaths := reference.allowedPaths
  policy := context.policy
  normalizer := context.normalizer.within app.name

def unreadable (directory : String) (app : App) (reference : SwaggerReference)
    (error : SwaggerError) : Diagnostic where
  severity := .error
  source := diagnosticSource
  app := some app.name
  message := s!"cannot load {FilePath.join directory reference.file}: {error.message}"

theorem provideApp_undocumented (plain : d.app.swagger = none) :
    provideApp files directory context d =
      (some { app := withDefaults d.app }, connectionDiagnostics (withDefaults d.app)) := by
  simp only [provideApp, swagger_withDefaults, plain]

theorem provideApp_unreadable {error : SwaggerError} (refers : d.app.swagger = some reference)
    (failed : documentOf files directory reference = .error error) :
    provideApp files directory context d =
      (none, connectionDiagnostics (withDefaults d.app) ++
        [unreadable directory d.app reference error]) := by
  unfold documentOf at failed
  simp only [provideApp, swagger_withDefaults, refers, failed]
  rfl

theorem provideApp_offered (refers : d.app.swagger = some reference)
    (read : documentOf files directory reference = .ok document) (undeclared : d.actions = []) :
    provideApp files directory context d =
      (some {
          app := withDefaults d.app
          actions := (Swagger.build document (offerFor context d.app reference)).toActions
            d.app.name },
        connectionDiagnostics (withDefaults d.app) ++
          (Swagger.build document (offerFor context d.app reference)).diagnostics d.app.name) := by
  unfold documentOf at read
  simp only [provideApp, swagger_withDefaults, refers, read, undeclared]
  rfl

theorem provideApp_declared (refers : d.app.swagger = some reference)
    (read : documentOf files directory reference = .ok document) (declares : d.actions ≠ []) :
    provideApp files directory context d =
      (some {
          app := withDefaults d.app
          actions := d.actions.filterMap
            (derivedAction? document (context.normalizer.within d.app.name) d.app.name) },
        connectionDiagnostics (withDefaults d.app) ++ d.actions.flatMap
          (derivationReports document (context.normalizer.within d.app.name) d.app.name)) := by
  have nonempty : d.actions.isEmpty = false := by simpa using declares
  unfold documentOf at read
  simp only [provideApp, swagger_withDefaults, refers, read, nonempty, declaredActions_eq,
    name_withDefaults]
  rfl

end ActionCatalogue.Manifest
