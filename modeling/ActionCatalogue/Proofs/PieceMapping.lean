import ActionCatalogue.Proofs.DynamicProperties

/-!
What keeps an action of a piece out of the catalogue. Whatever its kind, a property becomes an
option, and a fetcher that answers has only such properties in its answer; so an action is refused
exactly for a response type that the normalizer refuses. Each action of a piece then either becomes
an action of the app or is reported once, and the order of both is that of the piece.
-/

namespace ActionCatalogue.Piece

variable {n : Normalizer} {app name : String} {action : PieceAction} {mapped : Action}
  {e : MappingError}

/-! ### Options -/

theorem exists_optionsOf (n : Normalizer) (all props : Entries Property) :
    ∃ options, optionsOf n all props = .ok options :=
  ⟨_, optionsOf_eq n all props⟩

/-- Dependent options fail only as a fetcher does, never because of what was fetched. -/
theorem fetch_of_dependentOptions_fails {fetchers : List PropertiesFetcher}
    {resolve : Deferred (Entries ActionOption)} {context : ActionContext} {σ : Type}
    {world : World σ} {s t : σ} {reason : String}
    (dependent : dependentOptions n fetchers = some resolve)
    (fails : (resolve context).run world s = (.error reason, t)) :
    ∃ fetch ∈ fetchers, ∃ u, (fetch (.ofAction context)).run world u = (.error reason, t) := by
  rw [eq_of_dependentOptions dependent] at fails
  have replays := replays_runFetchers n fetchers (.ofAction context)
  obtain ⟨earlier, fetch, later, results, u, rfl, -, failed⟩ :=
    (replays.fails world s t reason).mp fails
  exact ⟨fetch, by simp, u, failed⟩

/-! ### Response types -/

/-- The normalizer of an action, which finds translations under its app and key, refuses its
response type. -/
def RefusesResponse (n : Normalizer) (app name : String) (action : PieceAction)
    (cause : DataError) : Prop :=
  ∃ d, action.responseType = some d ∧
    ((n.within app).within (Naming.key name)).normalizeType d = .error cause

theorem responseTypeOf_eq_error_iff {description : Option TypeDescription} :
    responseTypeOf n description = .error e ↔
      ∃ cause, (∃ d, description = some d ∧ n.normalizeType d = .error cause) ∧
        e = .responseType cause := by
  cases description with
  | none => simp [responseTypeOf]
  | some d =>
    rw [responseTypeOf]
    cases outcome : n.normalizeType d <;> simp [outcome, eq_comm (a := e)]

theorem mapAction_of_refused (refused : responseTypeOf ((n.within app).within (Naming.key name))
    action.responseType = .error e) : mapAction n app name action = .error e := by
  simp only [mapAction, optionsOf_eq, refused]
  rfl

theorem exists_mapAction {type : Option OptionType} (answers : responseTypeOf
    ((n.within app).within (Naming.key name)) action.responseType = .ok type) :
    ∃ mapped, mapAction n app name action = .ok mapped := by
  simp only [mapAction, optionsOf_eq, answers]
  exact ⟨_, rfl⟩

theorem mapAction_eq_error_iff : mapAction n app name action = .error e ↔
    ∃ cause, RefusesResponse n app name action cause ∧ e = .responseType cause := by
  refine Iff.trans ⟨?_, mapAction_of_refused⟩ responseTypeOf_eq_error_iff
  intro failure
  cases answers : responseTypeOf ((n.within app).within (Naming.key name)) action.responseType with
  | error other =>
    rw [mapAction_of_refused answers] at failure
    exact congrArg Except.error (Except.error.inj failure)
  | ok type =>
    obtain ⟨mapped, success⟩ := exists_mapAction answers
    rw [success] at failure
    cases failure

/-! ### Pieces -/

/-- Whether an action of a piece becomes an action of the app. -/
def maps (n : Normalizer) (app : String) (entry : String × PieceAction) : Bool :=
  (mapAction n app entry.1 entry.2).isOk

/-- The report of an action that does not map. -/
def refusal (app name : String) (e : MappingError) : Diagnostic where
  severity := .error
  source := diagnosticSource
  app := some app
  action := some (Naming.key name)
  message := e.message

theorem maps_of_ok (success : mapAction n app name action = .ok mapped) :
    maps n app (name, action) = true := by
  rw [maps, success]
  rfl

theorem maps_of_error (failure : mapAction n app name action = .error e) :
    maps n app (name, action) = false := by
  rw [maps, failure]
  rfl

theorem mapActions_of_ok {rest : List (String × PieceAction)}
    (success : mapAction n app name action = .ok mapped) :
    mapActions n app ((name, action) :: rest) =
      (mapped :: (mapActions n app rest).1, (mapActions n app rest).2) := by
  rw [mapActions, success]

theorem mapActions_of_error {rest : List (String × PieceAction)}
    (failure : mapAction n app name action = .error e) :
    mapActions n app ((name, action) :: rest) =
      ((mapActions n app rest).1, refusal app name e :: (mapActions n app rest).2) := by
  rw [mapActions, failure]
  rfl

/-- Some actions have been mapped: each has become an action or a report, in order. -/
structure Accounted (n : Normalizer) (app : String) (given : List (String × PieceAction))
    (actions : List Action) (reports : Diagnostics) : Prop where
  kept : List.Forall₂ (fun entry mapped => mapAction n app entry.1 entry.2 = .ok mapped)
    (given.filter (maps n app)) actions
  dropped : List.Forall₂ (fun entry report => ∃ e, mapAction n app entry.1 entry.2 = .error e ∧
    report = refusal app entry.1 e) (given.filter (!maps n app ·)) reports

theorem accounted_mapActions (n : Normalizer) (app : String)
    (given : List (String × PieceAction)) :
    Accounted n app given (mapActions n app given).1 (mapActions n app given).2 := by
  induction given with
  | nil => exact ⟨.nil, .nil⟩
  | cons entry rest ih =>
    obtain ⟨name, action⟩ := entry
    cases outcome : mapAction n app name action with
    | ok mapped =>
      have kept := maps_of_ok outcome
      rw [mapActions_of_ok outcome]
      constructor
      · rw [List.filter_cons_of_pos kept]
        exact .cons outcome ih.kept
      · rw [List.filter_cons_of_neg (by simp [kept])]
        exact ih.dropped
    | error e =>
      have dropped := maps_of_error outcome
      rw [mapActions_of_error outcome]
      constructor
      · rw [List.filter_cons_of_neg (by simp [dropped])]
        exact ih.kept
      · rw [List.filter_cons_of_pos (by simp [dropped])]
        exact .cons ⟨e, outcome, rfl⟩ ih.dropped

/-- The report of a connection that the catalogue cannot make. -/
def noConnection (app kind : String) : Diagnostic where
  severity := .warning
  source := diagnosticSource
  app := some app
  message := (MappingError.unsupportedAuth kind).message

/-- The ways of connecting that the catalogue does not have. -/
inductive Unsupported : Auth → Prop
  | secretText (displayName : String) : Unsupported (.secretText displayName)
  | basicAuth (displayName : String) : Unsupported (.basicAuth displayName)
  | customAuth (displayName : String) : Unsupported (.customAuth displayName)

theorem authDiagnostics_of_unsupported {auth : Auth} (unsupported : Unsupported auth) :
    authDiagnostics app auth = [noConnection app auth.kind] := by
  cases unsupported <;> rfl

theorem authDiagnostics_of_supported {auth : Auth} (supported : ¬Unsupported auth) :
    authDiagnostics app auth = [] := by
  cases auth with
  | none | oauth2 => rfl
  | secretText displayName => exact absurd (.secretText displayName) supported
  | basicAuth displayName => exact absurd (.basicAuth displayName) supported
  | customAuth displayName => exact absurd (.customAuth displayName) supported

theorem isSome_restOf {auth : Auth} :
    (restOf auth).isSome = true ↔ ∃ oauth, auth = .oauth2 oauth := by
  cases auth <;> simp [restOf]

/-- What is made of a piece. A way of connecting that the catalogue lacks is one warning, which
comes before the reports on actions, and nothing else is reported. -/
structure MapsPiece (n : Normalizer) (app : String) (piece : Plugin) (result : AppWithActions)
    (reports : Diagnostics) : Prop where
  name : result.app.name = app
  rest : result.app.rest.isSome = true ↔ ∃ auth, piece.auth = .oauth2 auth
  unsupported : Unsupported piece.auth → ∃ refusals,
    reports = noConnection app piece.auth.kind :: refusals ∧
      Accounted n app piece.actions result.actions refusals
  supported : ¬Unsupported piece.auth → Accounted n app piece.actions result.actions reports

theorem mapsPiece_mapPiece (n : Normalizer) (name : String) (piece : Plugin) :
    MapsPiece n (Naming.appName name) piece (mapPiece n name piece).1
      (mapPiece n name piece).2 where
  name := rfl
  rest := isSome_restOf
  unsupported lacking := by
    refine ⟨_, ?_, accounted_mapActions n _ piece.actions⟩
    exact congrArg (· ++ _) (authDiagnostics_of_unsupported lacking)
  supported known := by
    have reports : (mapPiece n name piece).2 =
        (mapActions n (Naming.appName name) piece.actions).2 :=
      congrArg (· ++ _) (authDiagnostics_of_supported known)
    rw [reports]
    exact accounted_mapActions n _ piece.actions

/-- No property keeps an action out, neither one of its own nor one that is fetched: the action is
refused exactly for its response type. Of a piece every action is mapped or reported, a connection
that cannot be made is a warning, and only one by OAuth2 is described. -/
theorem only_response_types_drop_actions (n : Normalizer) (name : String) (piece : Plugin) :
    (∀ key p dependents, ∃ o, optionOf n key p dependents = .ok o) ∧
    (∀ all props, ∃ options, optionsOf n all props = .ok options) ∧
    (∀ fetchers resolve context (σ : Type) (world : World σ) s t reason,
      dependentOptions n fetchers = some resolve →
      (resolve context).run world s = (.error reason, t) →
      ∃ fetch ∈ fetchers, ∃ u, (fetch (.ofAction context)).run world u = (.error reason, t)) ∧
    (∀ app key action e, mapAction n app key action = .error e ↔
      ∃ cause, RefusesResponse n app key action cause ∧ e = .responseType cause) ∧
    MapsPiece n (Naming.appName name) piece (mapPiece n name piece).1
      (mapPiece n name piece).2 :=
  ⟨fun key p dependents => ⟨_, optionOf_eq n key p dependents⟩, exists_optionsOf n,
    fun _ _ _ _ _ _ _ _ => fetch_of_dependentOptions_fails,
    fun _ _ _ _ => mapAction_eq_error_iff,
    mapsPiece_mapPiece n name piece⟩

/-- A search with a response type that the normalizer does not know. -/
def misspeltSearch : PieceAction := { searchAction with responseType := some (.named "sting") }

def drive : Plugin where
  displayName := "Drive"
  description := "Files in folders"
  auth := .secretText "Token"
  actions := [("search", searchAction), ("search all", misspeltSearch)]

theorem misspelt_response_is_dropped : ∃ search,
    (mapPiece {} "drive" drive).1.actions = [search] ∧
    (mapPiece {} "drive" drive).2 = [noConnection "Drive" "secret_text",
      refusal "Drive" "search all" (.responseType (.unknownType "sting" ""))] := by
  obtain ⟨-, -, -, refused, mapped⟩ := only_response_types_drop_actions {} "drive" drive
  have named : Naming.appName "drive" = "Drive" := by rfl
  rw [named] at mapped
  have misspelt : mapAction {} "Drive" "search all" misspeltSearch =
      .error (.responseType (.unknownType "sting" "")) :=
    (refused ..).mpr ⟨_, ⟨_, rfl, rfl⟩, rfl⟩
  obtain ⟨refusals, reports, kept, dropped⟩ := mapped.unsupported (.secretText "Token")
  cases outcome : mapAction {} "Drive" "search" searchAction with
  | error e =>
    -- without a response type there is nothing to refuse
    obtain ⟨cause, ⟨d, given, -⟩, -⟩ := (refused ..).mp outcome
    cases given
  | ok search =>
    have first := maps_of_ok outcome
    have second := maps_of_error misspelt
    have mapping : drive.actions.filter (maps {} "Drive") = [("search", searchAction)] := by
      simp [drive, first, second]
    have failing :
        drive.actions.filter (!maps {} "Drive" ·) = [("search all", misspeltSearch)] := by
      simp [drive, first, second]
    rw [mapping] at kept
    rw [failing] at dropped
    generalize (mapPiece {} "drive" drive).1.actions = actions at kept ⊢
    obtain _ | ⟨found, ⟨⟩⟩ := kept
    obtain _ | ⟨⟨e, failed, rfl⟩, ⟨⟩⟩ := dropped
    obtain rfl := Except.error.inj (failed.symm.trans misspelt)
    exact ⟨_, rfl, reports⟩

end ActionCatalogue.Piece
