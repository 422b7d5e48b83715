import ActionCatalogue.Piece.Adapter
import ActionCatalogue.Proofs.Collision
import ActionCatalogue.Proofs.NormalFixedPoint
import ActionCatalogue.Proofs.Passes

/-!
Dynamic properties of a piece's action and the options they refresh on. An option has a function for
dependent options exactly if a dynamic property names it. In whatever world it is called, the
function calls the fetchers of these properties and nothing else, each once, in their order and on
one context, and merges what they give: a key stands where it first came and has the option that
came last. It fails as the first fetcher that does, and then no further one is called.
-/

namespace ActionCatalogue.Piece

open Json

variable {n : Normalizer} {key : String} {p : Property}

/-- The option of a property. Its type is always known to the normalizer. -/
def described (n : Normalizer) (key : String) (p : Property)
    (dependents : Option (Deferred (Entries ActionOption))) : ActionOption :=
  n.describedOption key key (fieldOf p dependents) (.primitive ⟨p.kind.baseType, false, false⟩)

theorem optionOf_eq (n : Normalizer) (key : String) (p : Property)
    (dependents : Option (Deferred (Entries ActionOption))) :
    optionOf n key p dependents = .ok (described n key p dependents) := by
  have known : PrimitiveType.ofName? (PrimitiveType.text ⟨p.kind.baseType, false, false⟩) =
      some ⟨p.kind.baseType, false, false⟩ := PrimitiveType.ofName?_text nofun
  refine Normalizer.optionAt_eq_ok_iff.mpr ⟨_, ?_, rfl⟩
  exact Normalizer.typeAt_named_eq_ok_iff.mpr ⟨Nat.zero_le _, _, known, rfl⟩

/-! ### Options that are fetched -/

def isShown (p : Property) : Bool := !(p.isDisplayOnly || p.isDynamic)

/-- The options of properties that have been fetched, as often as a key occurs. -/
def fetchedOptions (n : Normalizer) (fetched : List (String × Property)) :
    List (String × ActionOption) :=
  (fetched.filter fun entry => isShown entry.2).map fun entry =>
    (entry.1, described n entry.1 entry.2 none)

theorem fetchedOptions_hidden (hidden : isShown p = false) (rest : List (String × Property)) :
    fetchedOptions n ((key, p) :: rest) = fetchedOptions n rest := by
  simp only [fetchedOptions, List.filter_cons, hidden, Bool.false_eq_true, if_false]

theorem fetchedOptions_shown (shown : isShown p = true) (rest : List (String × Property)) :
    fetchedOptions n ((key, p) :: rest) =
      (key, described n key p none) :: fetchedOptions n rest := by
  simp only [fetchedOptions, List.filter_cons, shown, if_true, List.map_cons]

theorem fetchedOptions_append (n : Normalizer) (first second : List (String × Property)) :
    fetchedOptions n (first ++ second) = fetchedOptions n first ++ fetchedOptions n second := by
  rw [fetchedOptions, List.filter_append, List.map_append, fetchedOptions, fetchedOptions]

theorem addFetched_eq (n : Normalizer) (options : Entries ActionOption)
    (fetched : List (String × Property)) :
    addFetched n options fetched = .ok (Entries.putAll options (fetchedOptions n fetched)) := by
  induction fetched generalizing options with
  | nil => rfl
  | cons entry rest ih =>
    obtain ⟨key, p⟩ := entry
    rw [addFetched]
    cases hidden : p.isDisplayOnly || p.isDynamic with
    | true =>
      rw [if_pos rfl, fetchedOptions_hidden (by rw [isShown, hidden]; rfl)]
      exact ih options
    | false =>
      rw [if_neg Bool.false_ne_true, fetchedOptions_shown (by rw [isShown, hidden]; rfl),
        optionOf_eq]
      exact ih (Entries.put key (described n key p none) options)

theorem runFetchers_cons (n : Normalizer) (context : FetchContext) (options : Entries ActionOption)
    (fetch : PropertiesFetcher) (rest : List PropertiesFetcher) :
    runFetchers n context options (fetch :: rest) = (fetch context >>= fun fetched =>
      runFetchers n context (Entries.putAll options (fetchedOptions n fetched)) rest) := by
  rw [runFetchers]
  congr
  funext fetched
  rw [addFetched_eq]
  rfl

/-- Options of fetched properties: a key stands where it first came and has the option of the last
property under it, and no option has dependent ones. -/
structure Merged (n : Normalizer) (fetched : List (String × Property))
    (options : Entries ActionOption) : Prop where
  keys : Entries.keys options = (Entries.keys fetched).eraseDups
  last : ∀ earlier key p later, fetched = earlier ++ (key, p) :: later → key ∉ Entries.keys later →
    ∃ o, Entries.lookup key options = some o ∧ optionOf n key p none = .ok o
  standAlone : ∀ o ∈ Entries.values options, o.getDependentOptions = none

theorem merged_fetched (n : Normalizer) (fetched : List (String × Property)) :
    Merged n (fetched.filter fun entry => isShown entry.2)
      (Entries.ofPairs (fetchedOptions n fetched)) where
  keys := by
    rw [CollisionPolicy.keys_ofPairs, fetchedOptions]
    simp [Entries.keys, Function.comp_def]
  last := by
    intro earlier key p later split fresh
    refine ⟨described n key p none, ?_, optionOf_eq n key p none⟩
    rw [fetchedOptions, split, List.map_append, List.map_cons]
    have unused : (key, described n key p none).1 ∉ Entries.keys
        (later.map fun entry => (entry.1, described n entry.1 entry.2 none)) := by
      simpa [Entries.keys] using fresh
    exact Entries.lookup_ofPairs_last unused _
  standAlone := by
    intro o member
    obtain ⟨key, among⟩ := Entries.mem_values.mp member
    obtain ⟨entry, -, same⟩ := List.mem_map.mp (Entries.mem_of_mem_ofPairs among)
    cases same
    rfl

/-! ### Fetchers that are called -/

section Calls

variable {σ : Type} {world : World σ} {context : FetchContext} {fetch : PropertiesFetcher}
  {fetchers : List PropertiesFetcher} {results : List (List (String × Property))} {s t u : σ}
  {e : String}

/-- Fetchers that all answer when each is called once, one after the other and on one context, in
the state in which the one before has left the world. -/
inductive Answers (world : World σ) (context : FetchContext) :
    List PropertiesFetcher → σ → List (List (String × Property)) → σ → Prop
  | done (s : σ) : Answers world context [] s [] s
  | call {fetch : PropertiesFetcher} {rest : List PropertiesFetcher}
      {fetched : List (String × Property)} {results : List (List (String × Property))}
      {s t left : σ}
      (answers : (fetch context).run world s = (.ok fetched, t))
      (goesOn : Answers world context rest t results left) :
      Answers world context (fetch :: rest) s (fetched :: results) left

/-- One of the fetchers fails when those before it have answered; those behind it are not called. -/
def FailsAmong (world : World σ) (context : FetchContext) (fetchers : List PropertiesFetcher)
    (s : σ) (e : String) (t : σ) : Prop :=
  ∃ earlier fetch later results u, fetchers = earlier ++ fetch :: later ∧
    Answers world context earlier s results u ∧ (fetch context).run world u = (.error e, t)

theorem FailsAmong.cons {fetched : List (String × Property)}
    (answers : (fetch context).run world s = (.ok fetched, u))
    (fails : FailsAmong world context fetchers u e t) :
    FailsAmong world context (fetch :: fetchers) s e t := by
  obtain ⟨earlier, other, later, results, v, rfl, before, failure⟩ := fails
  exact ⟨fetch :: earlier, other, later, _, v, rfl, .call answers before, failure⟩

theorem answers_or_fails (world : World σ) (context : FetchContext)
    (fetchers : List PropertiesFetcher) (s : σ) :
    (∃ results t, Answers world context fetchers s results t) ∨
      ∃ e t, FailsAmong world context fetchers s e t := by
  induction fetchers generalizing s with
  | nil => exact .inl ⟨_, _, .done s⟩
  | cons fetch rest ih =>
    rcases called : (fetch context).run world s with ⟨e | fetched, u⟩
    · exact .inr ⟨e, u, [], fetch, rest, [], s, rfl, .done s, called⟩
    · rcases ih u with ⟨results, t, goesOn⟩ | ⟨e, t, fails⟩
      · exact .inl ⟨_, t, .call called goesOn⟩
      · exact .inr ⟨e, t, fails.cons called⟩

theorem run_of_answers (n : Normalizer) (answers : Answers world context fetchers s results t)
    (options : Entries ActionOption) :
    (runFetchers n context options fetchers).run world s =
      (.ok (Entries.putAll options (fetchedOptions n results.flatten)), t) := by
  induction answers generalizing options with
  | done => rfl
  | call answers _ ih =>
    rw [runFetchers_cons, Inquiry.run_bind_ok answers, ih, List.flatten_cons,
      fetchedOptions_append, Entries.putAll_append]

theorem run_of_fails (n : Normalizer) (fails : FailsAmong world context fetchers s e t)
    (options : Entries ActionOption) :
    (runFetchers n context options fetchers).run world s = (.error e, t) := by
  obtain ⟨earlier, fetch, later, results, u, rfl, before, failure⟩ := fails
  induction before generalizing options with
  | done => exact Inquiry.run_bind_error failure _
  | call answers _ ih =>
    rw [List.cons_append, runFetchers_cons, Inquiry.run_bind_ok answers]
    exact ih _ failure

/-- What comes of fetchers in any world: they are called one after the other on one context, and
nobody else is. Once all have answered, their results are merged, those left out that stand for no
option; the first that fails is the last that is called, and its error is all that is left. -/
structure Replays (n : Normalizer) (fetchers : List PropertiesFetcher) (context : FetchContext)
    (inquiry : Inquiry String (Entries ActionOption)) : Prop where
  merges : ∀ {σ : Type} (world : World σ) (s t : σ) (results : List (List (String × Property))),
    Answers world context fetchers s results t →
    ∃ options, inquiry.run world s = (.ok options, t) ∧
      Merged n (results.flatten.filter fun entry => isShown entry.2) options
  succeeds : ∀ {σ : Type} (world : World σ) (s t : σ) (options : Entries ActionOption),
    inquiry.run world s = (.ok options, t) →
    ∃ results, Answers world context fetchers s results t
  fails : ∀ {σ : Type} (world : World σ) (s t : σ) (e : String),
    inquiry.run world s = (.error e, t) ↔ FailsAmong world context fetchers s e t

theorem replays_runFetchers (n : Normalizer) (fetchers : List PropertiesFetcher)
    (context : FetchContext) :
    Replays n fetchers context (runFetchers n context [] fetchers) where
  merges _ _ _ results answers :=
    ⟨_, run_of_answers n answers [], merged_fetched n results.flatten⟩
  succeeds world s t options success := by
    rcases answers_or_fails world context fetchers s with ⟨results, u, answers⟩ | ⟨e, u, fails⟩
    · rw [run_of_answers n answers] at success
      cases success
      exact ⟨results, answers⟩
    · rw [run_of_fails n fails] at success
      cases success
  fails world s t e := by
    refine ⟨fun failure => ?_, fun fails => run_of_fails n fails []⟩
    rcases answers_or_fails world context fetchers s with ⟨results, u, answers⟩ | ⟨e, u, fails⟩
    · rw [run_of_answers n answers] at failure
      cases failure
    · rw [run_of_fails n fails] at failure
      cases failure
      exact fails

end Calls

/-! ### Refreshers -/

/-- A dynamic property that lists a key among its refreshers. -/
def refreshesOn (key : String) (p : Property) : Bool := p.isDynamic && p.refreshers.contains key

theorem dependentFetchers_kinds (key : String) (props : Entries Property) :
    List.Forall₂ (fun p fetch => p.kind = .dynamic fetch)
      ((Entries.values props).filter (refreshesOn key)) (dependentFetchers key props) := by
  unfold dependentFetchers
  induction Entries.values props with
  | nil => exact .nil
  | cons p rest ih =>
    rw [List.filter_cons, List.filter_cons, refreshesOn]
    cases named : p.refreshers.contains key with
    | false => simpa using ih
    | true =>
      cases kind : p.kind with
      | dynamic fetch => simpa [Property.isDynamic, kind, PropertyKind.fetcher?] using ih
      | _ => simpa [Property.isDynamic, kind, PropertyKind.fetcher?] using ih

theorem isSome_dependentOptions (n : Normalizer) (key : String) (props : Entries Property) :
    (dependentOptions n (dependentFetchers key props)).isSome = true ↔
      ∃ p ∈ Entries.values props, p.isDynamic = true ∧ key ∈ p.refreshers := by
  have paired := (dependentFetchers_kinds key props).length_eq
  have none_iff : dependentFetchers key props = [] ↔
      (Entries.values props).filter (refreshesOn key) = [] := by
    rw [← List.length_eq_zero_iff, ← paired, List.length_eq_zero_iff]
  unfold dependentOptions
  cases fetchers : dependentFetchers key props with
  | nil =>
    have nobody := List.filter_eq_nil_iff.mp (none_iff.mp fetchers)
    simpa [refreshesOn] using nobody
  | cons fetch rest =>
    have somebody : (Entries.values props).filter (refreshesOn key) ≠ [] :=
      fun empty => List.cons_ne_nil fetch rest (fetchers ▸ none_iff.mpr empty)
    obtain ⟨p, member⟩ := List.exists_mem_of_ne_nil _ somebody
    have refreshes := List.mem_filter.mp member
    simp only [refreshesOn, Bool.and_eq_true, List.contains_iff_mem] at refreshes
    exact iff_of_true rfl ⟨p, refreshes⟩

theorem eq_of_dependentOptions {fetchers : List PropertiesFetcher}
    {resolve : Deferred (Entries ActionOption)}
    (found : dependentOptions n fetchers = some resolve) :
    resolve = fun context => runFetchers n (.ofAction context) [] fetchers := by
  unfold dependentOptions at found
  split at found
  · cases found
  · exact (Option.some.inj found).symm

theorem optionsOf_eq (n : Normalizer) (all : Entries Property) (props : List (String × Property)) :
    optionsOf n all props =
      .ok ((props.filter fun entry => isOption entry.1 entry.2).map fun entry =>
        (entry.1, described n entry.1 entry.2
          (dependentOptions n (dependentFetchers entry.1 all)))) := by
  induction props with
  | nil => rfl
  | cons entry rest ih =>
    obtain ⟨key, p⟩ := entry
    rw [optionsOf, ih, List.filter_cons]
    cases option : isOption key p with
    | true =>
      simp only [if_true, optionOf_eq]
      rfl
    | false => rfl

theorem isOption_eq (key : String) (p : Property) :
    isOption key p = decide (key ≠ "info" ∧ ¬p.isDisplayOnly = true ∧ ¬p.isDynamic = true) := by
  rw [Bool.eq_iff_iff]
  simp [isOption, infoKey, and_assoc]

theorem options_of_mapAction {app name : String} {action : PieceAction} {mapped : Action}
    (maps : mapAction n app name action = .ok mapped) :
    optionsOf ((n.within app).within (Naming.key name)) action.props action.props =
      .ok mapped.options := by
  obtain ⟨options, found, rest⟩ := exists_of_bind_eq_ok maps
  obtain ⟨responseType, -, same⟩ := exists_of_bind_eq_ok rest
  cases same
  exact found

/-- The options of an action are its properties that are none of the info block, for display only
and dynamic. An option has dependent ones exactly if some dynamic property refreshes on it; asking
for them runs the fetchers of those properties, in order and on one context, and merges their
results or fails as the first of them that does. -/
theorem dynamic_properties_reach_their_refreshers (n : Normalizer) (app name : String)
    (action : PieceAction) (mapped : Action) (maps : mapAction n app name action = .ok mapped) :
    Entries.keys mapped.options = Entries.keys (action.props.filter fun entry =>
      entry.1 ≠ "info" ∧ ¬entry.2.isDisplayOnly ∧ ¬entry.2.isDynamic) ∧
    ∀ key o, (key, o) ∈ mapped.options →
      (o.getDependentOptions.isSome = true ↔
        ∃ p ∈ Entries.values action.props, p.isDynamic = true ∧ key ∈ p.refreshers) ∧
      ∀ resolve, o.getDependentOptions = some resolve →
        ∃ fetchers, List.Forall₂ (fun p fetch => p.kind = .dynamic fetch)
            ((Entries.values action.props).filter (refreshesOn key)) fetchers ∧
          ∀ context, Replays ((n.within app).within (Naming.key name)) fetchers
            (.ofAction context) (resolve context) := by
  have options := options_of_mapAction maps
  rw [optionsOf_eq, Except.ok.injEq] at options
  constructor
  · rw [← options]
    simp [Entries.keys, isOption_eq, Function.comp_def]
  · intro name o member
    rw [← options] at member
    obtain ⟨⟨key, p⟩, -, ⟨⟩⟩ := List.mem_map.mp member
    refine ⟨isSome_dependentOptions _ key action.props, fun resolve found => ?_⟩
    refine ⟨dependentFetchers key action.props, ?_, fun context => ?_⟩
    · exact dependentFetchers_kinds key action.props
    · rw [eq_of_dependentOptions found]
      exact replays_runFetchers _ _ _

def textProperty (displayName : String) : Property := { displayName, kind := .shortText }

def fetchedFilters : List (String × Property) :=
  [("extension", textProperty "Extension"),
    ("limit", { displayName := "Filter limit", kind := .number })]

def fetchedSorting : List (String × Property) :=
  [("limit", textProperty "Sort limit"), ("direction", textProperty "Direction")]

def request (name : String) (context : FetchContext) : Value :=
  .list [.text name, context.toJson]

/-- A fetcher that has properties to give once its request is granted. -/
def onRequest (name : String) (fetched : List (String × Property)) : PropertiesFetcher :=
  fun context => .ask (request name context) fun reply => match reply with
    | .bool true => return fetched
    | _ => .done (.error (name ++ " cannot be fetched"))

/-- Grants as many requests as are left and notes them all. -/
def quota : World (Nat × List Value) := fun asked s => match s with
  | (0, noted) => (.bool false, 0, noted ++ [asked])
  | (left + 1, noted) => (.bool true, left, noted ++ [asked])

theorem run_onRequest_granted (name : String) (fetched : List (String × Property))
    (context : FetchContext) (left : Nat) (noted : List Value) :
    (onRequest name fetched context).run quota (left + 1, noted) =
      (.ok fetched, left, noted ++ [request name context]) := rfl

theorem run_onRequest_refused (name : String) (fetched : List (String × Property))
    (context : FetchContext) (noted : List Value) :
    (onRequest name fetched context).run quota (0, noted) =
      (.error (name ++ " cannot be fetched"), 0, noted ++ [request name context]) := rfl

def filtersProperty : Property where
  displayName := "Filters"
  refreshers := ["order", "folder"]
  kind := .dynamic (onRequest "filters" fetchedFilters)

def sortingProperty : Property where
  displayName := "Sorting"
  refreshers := ["folder"]
  kind := .dynamic (onRequest "sorting" fetchedSorting)

/-- The filters refresh on both other properties and the sorting on one; both have a limit. -/
def searchAction : PieceAction where
  displayName := "Search"
  description := "Search files"
  props :=
    [("order", { displayName := "Order", kind := .staticDropdown [⟨"Newest", .text "desc"⟩] }),
      ("folder", textProperty "Folder"), ("filters", filtersProperty),
      ("sorting", sortingProperty)]
  run _ := return .null

theorem mapAction_search : ∃ mapped, mapAction {} "search" "search" searchAction = .ok mapped := by
  simp only [mapAction, optionsOf_eq, responseTypeOf]
  exact ⟨_, rfl⟩

theorem refreshing_search : (Entries.values searchAction.props).filter (refreshesOn "folder") =
    [filtersProperty, sortingProperty] := by
  rfl

/-- The requests of both fetchers are made in turn; the one that is refused is the last. -/
theorem search_options_refresh : ∃ mapped,
    mapAction {} "search" "search" searchAction = .ok mapped ∧
    Entries.keys mapped.options = ["order", "folder"] ∧
    ∀ o, ("folder", o) ∈ mapped.options → ∃ resolve, o.getDependentOptions = some resolve ∧
      ∀ context,
        let filters := request "filters" (.ofAction context)
        let sorting := request "sorting" (.ofAction context)
        (∃ options, (resolve context).run quota (2, []) = (.ok options, 0, [filters, sorting]) ∧
          Entries.keys options = ["extension", "limit", "direction"]) ∧
        (resolve context).run quota (1, []) =
          (.error "sorting cannot be fetched", 0, [filters, sorting]) ∧
        (resolve context).run quota (0, []) =
          (.error "filters cannot be fetched", 0, [filters]) := by
  obtain ⟨mapped, maps⟩ := mapAction_search
  obtain ⟨keys, each⟩ :=
    dynamic_properties_reach_their_refreshers {} "search" "search" searchAction mapped maps
  refine ⟨mapped, maps, keys.trans (by decide), fun o member => ?_⟩
  obtain ⟨refreshed, resolves⟩ := each "folder" o member
  have filters : filtersProperty ∈ Entries.values searchAction.props := by
    simp [Entries.values, searchAction]
  obtain ⟨resolve, found⟩ := Option.isSome_iff_exists.mp
    (refreshed.mpr ⟨filtersProperty, filters, rfl, by decide⟩)
  obtain ⟨fetchers, paired, replays⟩ := resolves resolve found
  rw [refreshing_search] at paired
  obtain _ | ⟨kindFirst, _ | ⟨kindSecond, ⟨⟩⟩⟩ := paired
  cases kindFirst
  cases kindSecond
  refine ⟨resolve, found, fun context => ⟨?_, ?_, ?_⟩⟩
  · obtain ⟨options, success, merged⟩ := (replays context).merges quota (2, []) _
      [fetchedFilters, fetchedSorting] (.call (run_onRequest_granted ..)
        (.call (run_onRequest_granted ..) (.done _)))
    exact ⟨options, success, merged.keys.trans (by decide)⟩
  · refine ((replays context).fails quota (1, []) _ _).mpr ?_
    exact ⟨[_], _, [], [fetchedFilters], _, rfl, .call (run_onRequest_granted ..) (.done _),
      run_onRequest_refused ..⟩
  · refine ((replays context).fails quota (0, []) _ _).mpr ?_
    exact ⟨[], _, [_], [], _, rfl, .done _, run_onRequest_refused ..⟩

end ActionCatalogue.Piece
