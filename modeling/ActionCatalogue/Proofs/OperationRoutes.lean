import ActionCatalogue.Proofs.DocumentPaths
import ActionCatalogue.Proofs.OperationErrors
import ActionCatalogue.Proofs.ProvidedApp

/-!
Three routes to the action of an operation: a lenient build of everything that is offered, a build
of that operation alone, and a declaration that names it by its swagger path. In a document without
a path twice the first two describe the same endpoint, and a declaration that says nothing of its
own leaves the description as it is.
-/

namespace ActionCatalogue

namespace Swagger

/-- Whether an operation was skipped because its name was taken. -/
def Skipped.IsDuplicate (k : Skipped) : Prop := k.reason = duplicateReason k.name

namespace Descriptor

/-- The declaration of an action under the name it has anyway, with nothing else said. -/
def declaration (a : Descriptor) : ActionDeclaration where
  name := a.name
  swaggerPath := a.swaggerPath

theorem declaredAction_declaration (a : Descriptor) (app : String) :
    Manifest.declaredAction app a.declaration a = a.toAction app := rfl

end Descriptor

variable {d : Document} {s : Settings} {n : Normalizer} {e : Endpoint} {a : Descriptor}

theorem describe_place (described : describe d n e = .ok a) :
    a.path = e.path ∧ a.method = e.method := by
  obtain ⟨parameters, inputs, options, type, -, -, -, -, rfl⟩ := describe_eq_ok_iff.mp described
  exact ⟨rfl, rfl⟩

/-! ### What a lenient build has of an endpoint -/

/-- An action that was built describes one of the visited endpoints. -/
theorem exists_of_mem_actions (member : a ∈ (build d s).actions) :
    ∃ e ∈ visited d s, describe d s.normalizer e = .ok a := by
  obtain ⟨e, won, described⟩ := (build_accounts d s).kept a member
  have succeeding := List.mem_of_mem_filter (CollisionPolicy.mem_of_winner won)
  exact ⟨e, List.mem_of_mem_filter succeeding, described⟩

/-- An operation that was skipped is one of the visited endpoints, and could not be described or is
a duplicate. -/
theorem exists_of_mem_skipped {k : Skipped} (member : k ∈ (build d s).skipped) :
    ∃ e ∈ visited d s, k.path = e.path ∧ k.method = e.method ∧ k.name = e.name ∧
      ((∃ error, describe d s.normalizer e = .error error ∧ error.message = k.reason) ∨
        (∃ a, describe d s.normalizer e = .ok a) ∧ k.IsDuplicate) := by
  rw [(build_accounts d s).skipped] at member
  obtain ⟨⟨earlier, e⟩, stands, found⟩ := List.mem_filterMap.mp member
  refine ⟨e, mem_of_mem_earlierFrom stands, ?_⟩
  have left : leftOut d s earlier e = some k := found
  unfold leftOut at left
  split at left
  next error failed =>
    cases left
    exact ⟨rfl, rfl, rfl, .inl ⟨error, failed, rfl⟩⟩
  next a described =>
    split at left
    · cases left
      exact ⟨rfl, rfl, rfl, .inr ⟨⟨a, described⟩, rfl⟩⟩
    · cases left

section Single

variable (distinct : (Entries.keys d.paths).Nodup)

include distinct

theorem buildOperation_of_visited (member : e ∈ visited d s) :
    buildOperation d s.normalizer e.path e.method = describe d s.normalizer e :=
  buildOperation_of_mem distinct (mem_endpoints_of_visited member) s.normalizer

theorem buildOperation_of_mem_actions (member : a ∈ (build d s).actions) :
    buildOperation d s.normalizer a.path a.method = .ok a := by
  obtain ⟨e, among, described⟩ := exists_of_mem_actions member
  obtain ⟨path, method⟩ := describe_place described
  rw [path, method, buildOperation_of_visited distinct among, described]

theorem buildOperation_of_refused {k : Skipped} (member : k ∈ (build d s).skipped)
    (refused : ¬k.IsDuplicate) : ∃ error,
      buildOperation d s.normalizer k.path k.method = .error error ∧ error.message = k.reason := by
  obtain ⟨e, among, path, method, -, failed | ⟨-, duplicate⟩⟩ := exists_of_mem_skipped member
  · rw [path, method, buildOperation_of_visited distinct among]
    exact failed
  · exact absurd duplicate refused

theorem buildOperation_of_duplicate {k : Skipped} (member : k ∈ (build d s).skipped)
    (duplicate : k.IsDuplicate) : ∃ a,
      buildOperation d s.normalizer k.path k.method = .ok a ∧ a.name = k.name := by
  obtain ⟨e, among, path, method, name, ⟨error, failed, reason⟩ | ⟨⟨a, described⟩, -⟩⟩ :=
    exists_of_mem_skipped member
  · -- what is said of an operation that fails is never said of a duplicate
    exact absurd (reason.trans duplicate)
      ((describe_fails d s.normalizer e error failed).message_ne k.name)
  · rw [path, method, buildOperation_of_visited distinct among, described]
    exact ⟨a, rfl, (describe_name described).trans name.symm⟩

end Single

/-! ### All routes -/

open Manifest in
/-- The routes to the actions of a document lead to the same actions. -/
structure RoutesAgree (d : Document) (s : Settings) : Prop where
  built : ∀ a ∈ (build d s).actions, buildOperation d s.normalizer a.path a.method = .ok a
  refused : ∀ k ∈ (build d s).skipped, ¬k.IsDuplicate → ∃ error,
    buildOperation d s.normalizer k.path k.method = .error error ∧ error.message = k.reason
  duplicate : ∀ k ∈ (build d s).skipped, k.IsDuplicate → ∃ a,
    buildOperation d s.normalizer k.path k.method = .ok a ∧ a.name = k.name
  absent : ∀ path method, (∀ e ∈ d.endpoints, ¬(e.path = path ∧ e.method = method)) →
    buildOperation d s.normalizer path method = .error (.operationNotFound path method)
  written : ∀ a ∈ (build d s).actions, a.path.toList.head? = some '/' →
    SwaggerPath.parse a.swaggerPath.text = .ok a.swaggerPath
  /-- An app that has the document is provided with the same action where all that is offered is
  taken and where, among any declarations, one names the action's operation. -/
  declared : ∀ files directory context app reference, app.swagger = some reference →
    documentOf files directory reference = .ok d → offerFor context app reference = s →
    ∀ a ∈ (build d s).actions,
      (∃ offered, (provideApp files directory context { app }).1 =
          some { app := withDefaults app, actions := offered } ∧ a.toAction app.name ∈ offered) ∧
      ∀ before after, (provideApp files directory context
          { app, actions := before ++ a.declaration :: after }).1 =
        some {
          app := withDefaults app
          actions := (declaredActions d s.normalizer app.name before).1 ++
            a.toAction app.name :: (declaredActions d s.normalizer app.name after).1 }

/-- A lenient build, builds of single operations and declarations agree operation by operation. The
paths of a document are distinct; those of every document that was read are, as
`Document.nodup_paths_of_ofFile` says. -/
theorem routes_to_an_operation_agree (d : Document) (s : Settings)
    (distinct : (Entries.keys d.paths).Nodup) : RoutesAgree d s := by
  constructor
  case built => exact fun a member => buildOperation_of_mem_actions distinct member
  case refused => exact fun k member => buildOperation_of_refused distinct member
  case duplicate => exact fun k member => buildOperation_of_duplicate distinct member
  case absent => exact fun path method absent => buildOperation_absent absent s.normalizer
  case written => exact fun a _ rooted => SwaggerPath.parse_text rooted
  case declared =>
    rintro files directory context app reference refers read rfl a member
    constructor
    · have stored : a.toAction app.name ∈
          (build d (Manifest.offerFor context app reference)).toActions app.name :=
        List.mem_map_of_mem member
      exact ⟨_, congrArg Prod.fst (Manifest.provideApp_offered refers read rfl), stored⟩
    · intro before after
      have single : Manifest.derivation d (context.normalizer.within app.name) a.declaration =
          .ok a := buildOperation_of_mem_actions distinct member
      have one : Manifest.derivedAction? d (context.normalizer.within app.name) app.name
          a.declaration = some (a.toAction app.name) := by
        rw [Manifest.derivedAction?_ok single, Descriptor.declaredAction_declaration]
      rw [Manifest.provideApp_declared refers read (by simp), Manifest.declaredActions_eq,
        Manifest.declaredActions_eq, List.filterMap_append, List.filterMap_cons, one]
      rfl

/-- Two operations of one name, and one with a parameter that is not there. -/
def marketText : String :=
  "\n".intercalate ["swagger: '2.0'", "paths:", "  /stalls:", "    get:", "      summary: Stalls",
    "    post:", "      operationId: get_stalls", "    delete:", "      parameters:",
    "        - $ref: '#/parameters/why'"]

def marketOnly : Files := fun path =>
  if path = "docs/market.yaml" then .ok marketText else .error .notFound

def marketFile : SwaggerReference := { file := "market.yaml" }

def market : App := { name := "Market", swagger := some marketFile }

/-- The market takes what its document offers, but no action under a taken name. -/
def marketSettings : Settings := Manifest.offerFor { policy := .reject } market marketFile

theorem market_reads :
    (Manifest.documentOf marketOnly "docs" marketFile).map (fun d =>
      ((build d marketSettings).actions.map (·.name),
        (build d marketSettings).skipped.map (·.reason))) =
    .ok (["get_stalls"], ["duplicate action 'get_stalls'",
      "schema resolution failed: unresolved reference '#/parameters/why'"]) := by
  decide +kernel

open Manifest in
theorem market_routes_agree : ∃ d, documentOf marketOnly "docs" marketFile = .ok d ∧
    (Entries.keys d.paths).Nodup ∧
    (build d marketSettings).actions.map (·.name) = ["get_stalls"] ∧
    (build d marketSettings).skipped.map (·.reason) = ["duplicate action 'get_stalls'",
      "schema resolution failed: unresolved reference '#/parameters/why'"] ∧
    RoutesAgree d marketSettings ∧
    ∀ a ∈ (build d marketSettings).actions,
      (provideApp marketOnly "docs" { policy := .reject }
        { app := market, actions := [a.declaration] }).1 =
          some { app := withDefaults market, actions := [a.toAction "Market"] } := by
  have reads := market_reads
  cases read : documentOf marketOnly "docs" marketFile with
  | error error =>
    rw [read] at reads
    cases reads
  | ok d =>
    rw [read] at reads
    obtain ⟨names, reasons⟩ := Prod.mk.inj (Except.ok.inj reads)
    have distinct := Document.nodup_paths_of_ofFile read
    have agree := routes_to_an_operation_agree d marketSettings distinct
    refine ⟨d, rfl, distinct, names, reasons, agree, fun a member => ?_⟩
    exact (agree.declared _ "docs" _ market marketFile rfl read rfl a member).2 [] []

end Swagger

end ActionCatalogue
