import Mathlib.Data.List.Nodup
import ActionCatalogue.Catalogue.Registration
import ActionCatalogue.Proofs.Aggregation

/-!
Registration as a walk over calls. What the nested loops of a registration ask of a host is one
sequence of calls, and a walk over it stops at the first call that the host refuses. The calls that
are made are seen by tracing the host, whatever it does with them. In a catalogue that was built the
actions of the sequence are the ones that can be looked up.
-/

namespace ActionCatalogue

variable {σ : Type}

namespace HostCall

def makeOn (host : Host σ) : HostCall → σ → Except String Unit × σ
  | .app a => host.registerApp a
  | .action a => host.registerAction a

/-- The item that a call is about, as an error names it. -/
def item : HostCall → String
  | .app a => a.name
  | .action a => a.qualifiedName

def count (summary : RegistrationSummary) : HostCall → RegistrationSummary
  | .app _ => summary.countApp
  | .action _ => summary.countAction

/-- The app and the name under which a call registers an action. -/
def pair? : HostCall → Option (String × String)
  | .app _ => none
  | .action a => some (a.app, a.name)

end HostCall

namespace Host

/-- The same host, which also lists the calls that are made of it. -/
def traced (host : Host σ) : Host (σ × List HostCall) where
  registerApp a s := ((host.registerApp a s.1).1, (host.registerApp a s.1).2, s.2 ++ [.app a])
  registerAction a s :=
    ((host.registerAction a s.1).1, (host.registerAction a s.1).2, s.2 ++ [.action a])

theorem traced_registerApp (host : Host σ) (a : App) (s : σ) (before : List HostCall) :
    host.traced.registerApp a (s, before) =
      ((host.registerApp a s).1, (host.registerApp a s).2, before ++ [.app a]) := rfl

theorem traced_registerAction (host : Host σ) (a : Action) (s : σ) (before : List HostCall) :
    host.traced.registerAction a (s, before) =
      ((host.registerAction a s).1, (host.registerAction a s).2, before ++ [.action a]) := rfl

/-- What calls that are made one after the other leave of a host. -/
def after (host : Host σ) (calls : List HostCall) (s : σ) : σ :=
  calls.foldl (fun s call => (call.makeOn host s).2) s

/-- The host accepts all of some calls that are made one after the other. -/
def Accepts (host : Host σ) : List HostCall → σ → Prop
  | [], _ => True
  | call :: rest, s => (call.makeOn host s).1 = .ok () ∧ Accepts host rest (call.makeOn host s).2

theorem accepts_append (host : Host σ) (first second : List HostCall) (s : σ) :
    host.Accepts (first ++ second) s ↔
      host.Accepts first s ∧ host.Accepts second (host.after first s) := by
  induction first generalizing s with
  | nil => simp [Accepts, after]
  | cons call rest ih =>
    have step : host.after (call :: rest) s = host.after rest (call.makeOn host s).2 := rfl
    simp only [List.cons_append, Accepts, ih, step, and_assoc]

end Host

namespace Catalogue

def entryCalls (entry : CatalogueEntry) : List HostCall :=
  .app entry.app :: (Entries.values entry.actions).map .action

/-- Each app, followed by its actions, in the order of the catalogue. -/
def registrationCalls (c : Catalogue) : List HostCall :=
  (Entries.values c.entries).flatMap entryCalls

/-- The calls that a registration makes of a host. -/
def callsMade (c : Catalogue) (host : Host σ) (s : σ) : List HostCall :=
  (c.registerApps host.traced (s, [])).2.2

/-! ### Walks -/

/-- A walk over calls makes them one by one: `Walks host summary calls s made outcome left` says
which it has made when it ends, with what outcome, and what is left of the host. -/
inductive Walks (host : Host σ) : RegistrationSummary → List HostCall → σ → List HostCall →
    Except RegistryError RegistrationSummary → σ → Prop
  | done (summary : RegistrationSummary) (s : σ) : Walks host summary [] s [] (.ok summary) s
  | accepted {summary : RegistrationSummary} {call : HostCall} {rest made : List HostCall}
      {s t left : σ} {outcome : Except RegistryError RegistrationSummary}
      (accepts : call.makeOn host s = (.ok (), t))
      (goesOn : Walks host (call.count summary) rest t made outcome left) :
      Walks host summary (call :: rest) s (call :: made) outcome left
  | refused {summary : RegistrationSummary} {call : HostCall} {s t : σ} {cause : String}
      (refuses : call.makeOn host s = (.error cause, t)) (rest : List HostCall) :
      Walks host summary (call :: rest) s [call] (.error (.host call.item cause)) t

namespace Walks

variable {host : Host σ} {summary total : RegistrationSummary}
  {calls more made next : List HostCall} {s left : σ}
  {outcome : Except RegistryError RegistrationSummary} {error : RegistryError}

theorem append_error (walk : Walks host summary calls s made (.error error) left)
    (more : List HostCall) : Walks host summary (calls ++ more) s made (.error error) left := by
  generalize stopped : Except.error error = outcome at walk
  induction walk with
  | done => cases stopped
  | accepted accepts _ ih => exact .accepted accepts (ih stopped)
  | refused refuses => exact .refused refuses _

theorem append_ok {middle : σ} (walk : Walks host summary calls s made (.ok total) middle)
    (second : Walks host total more middle next outcome left) :
    Walks host summary (calls ++ more) s (made ++ next) outcome left := by
  generalize finished : Except.ok total = first at walk
  induction walk with
  | done => cases finished; exact second
  | accepted accepts _ ih => exact .accepted accepts (ih second finished)
  | refused => cases finished

theorem made_isPrefix (walk : Walks host summary calls s made outcome left) : made <+: calls := by
  induction walk with
  | done => exact List.prefix_refl _
  | accepted _ _ ih => exact (List.prefix_cons_inj _).mpr ih
  | refused _ rest => exact ⟨rest, rfl⟩

theorem left_eq (walk : Walks host summary calls s made outcome left) :
    left = host.after made s := by
  induction walk with
  | done => rfl
  | accepted accepts _ ih => simp [ih, Host.after, accepts]
  | refused refuses => simp [Host.after, refuses]

theorem finished (walk : Walks host summary calls s made (.ok total) left) :
    made = calls ∧ host.Accepts calls s ∧ total = calls.foldl HostCall.count summary := by
  generalize ended : Except.ok total = outcome at walk
  induction walk with
  | done => cases ended; exact ⟨rfl, trivial, rfl⟩
  | accepted accepts _ ih =>
    obtain ⟨rfl, accepted, counted⟩ := ih ended
    exact ⟨rfl, by simpa [Host.Accepts, accepts] using accepted, counted⟩
  | refused => cases ended

/-- A walk that fails has stopped at the first call that the host refuses. -/
theorem stopped (walk : Walks host summary calls s made (.error error) left) :
    ∃ before call rest cause, calls = before ++ call :: rest ∧ made = before ++ [call] ∧
      host.Accepts before s ∧ (call.makeOn host (host.after before s)).1 = .error cause ∧
      error = .host call.item cause := by
  generalize ended : Except.error error = outcome at walk
  induction walk with
  | done => cases ended
  | @accepted _ first _ _ _ _ _ _ accepts _ ih =>
    obtain ⟨before, call, rest, cause, rfl, rfl, accepted, refuses, named⟩ := ih ended
    refine ⟨first :: before, call, rest, cause, rfl, rfl, ?_, ?_, named⟩
    · simpa [Host.Accepts, accepts] using accepted
    · simpa [Host.after, accepts] using refuses
  | @refused _ call s _ cause refuses rest =>
    cases ended
    have stops : (call.makeOn host s).1 = .error cause := congrArg Prod.fst refuses
    exact ⟨[], call, rest, cause, rfl, rfl, trivial, stops, rfl⟩

theorem not_accepts (walk : Walks host summary calls s made (.error error) left) :
    ¬host.Accepts calls s := by
  intro accepted
  obtain ⟨before, call, rest, cause, rfl, -, -, refuses, -⟩ := walk.stopped
  have accepts := ((host.accepts_append _ _ _).mp accepted).2.1
  simp [refuses] at accepts

end Walks

/-- A run on a host is a walk over calls, and the traced host lists the calls that it makes. -/
def RunsAlong (host : Host σ) (summary : RegistrationSummary) (calls : List HostCall) (s : σ)
    (run : Except RegistryError RegistrationSummary × σ)
    (traced : List HostCall → Except RegistryError RegistrationSummary × σ × List HostCall) :
    Prop :=
  ∃ made, Walks host summary calls s made run.1 run.2 ∧
    ∀ before, traced before = (run.1, run.2, before ++ made)

theorem registerActions_runs (host : Host σ) (summary : RegistrationSummary)
    (actions : List Action) (s : σ) :
    RunsAlong host summary (actions.map .action) s (registerActions host summary actions s)
      fun before => registerActions host.traced summary actions (s, before) := by
  induction actions generalizing summary s with
  | nil => exact ⟨[], .done summary s, fun before => by simp [registerActions]⟩
  | cons action rest ih =>
    rcases answered : host.registerAction action s with ⟨(cause | _), t⟩
    · have refuses : (HostCall.action action).makeOn host s = (.error cause, t) := answered
      refine ⟨[.action action], ?_, fun before => ?_⟩
      · rw [registerActions, answered]
        exact .refused refuses _
      · simp only [registerActions, Host.traced, answered]
    · have accepts : (HostCall.action action).makeOn host s = (.ok (), t) := answered
      obtain ⟨made, walk, traced⟩ := ih summary.countAction t
      refine ⟨.action action :: made, ?_, fun before => ?_⟩
      · rw [registerActions, answered]
        exact .accepted accepts walk
      · simp only [registerActions, host.traced_registerAction, answered, traced,
          List.append_assoc, List.singleton_append]

theorem registerEntries_runs (host : Host σ) (summary : RegistrationSummary)
    (entries : List CatalogueEntry) (s : σ) :
    RunsAlong host summary (entries.flatMap entryCalls) s (registerEntries host summary entries s)
      fun before => registerEntries host.traced summary entries (s, before) := by
  induction entries generalizing summary s with
  | nil => exact ⟨[], .done summary s, fun before => by simp [registerEntries]⟩
  | cons entry rest ih =>
    rw [List.flatMap_cons, entryCalls, List.cons_append]
    rcases answered : host.registerApp entry.app s with ⟨(cause | _), t⟩
    · have refuses : (HostCall.app entry.app).makeOn host s = (.error cause, t) := answered
      refine ⟨[.app entry.app], ?_, fun before => ?_⟩
      · rw [registerEntries, answered]
        exact .refused refuses _
      · simp only [registerEntries, host.traced_registerApp, answered]
    have accepts : (HostCall.app entry.app).makeOn host s = (.ok (), t) := answered
    obtain ⟨made, walk, traced⟩ :=
      registerActions_runs host summary.countApp (Entries.values entry.actions) t
    -- the inner loop ends the outer one where the host refuses an action
    rcases ended : registerActions host summary.countApp (Entries.values entry.actions) t with
      ⟨(refused | total), u⟩
    · rw [ended] at walk traced
      refine ⟨.app entry.app :: made, ?_, fun before => ?_⟩
      · simp only [registerEntries, answered, ended]
        exact .accepted accepts (walk.append_error _)
      · simp only [registerEntries, host.traced_registerApp, answered, ended, traced,
          List.append_assoc, List.singleton_append]
    · rw [ended] at walk traced
      obtain ⟨next, second, goesOn⟩ := ih total u
      refine ⟨.app entry.app :: (made ++ next), ?_, fun before => ?_⟩
      · simp only [registerEntries, answered, ended]
        exact .accepted accepts (walk.append_ok second)
      · simp only [registerEntries, host.traced_registerApp, answered, ended, traced, goesOn,
          List.append_assoc, List.cons_append, List.nil_append]

/-- The nested loops of a registration are one walk, and the calls made are those of the walk. -/
theorem registerApps_walks (c : Catalogue) (host : Host σ) (s : σ) :
    Walks host {} c.registrationCalls s (c.callsMade host s) (c.registerApps host s).1
        (c.registerApps host s).2 ∧
      c.registerApps host.traced (s, []) =
        ((c.registerApps host s).1, (c.registerApps host s).2, c.callsMade host s) := by
  obtain ⟨made, walk, traced⟩ := registerEntries_runs host {} (Entries.values c.entries) s
  have run : c.registerApps host.traced (s, []) =
      ((c.registerApps host s).1, (c.registerApps host s).2, made) := traced []
  have calls : c.callsMade host s = made := by rw [callsMade, run]
  rw [calls]
  exact ⟨walk, run⟩

/-! ### What is counted -/

theorem foldl_count_actions (summary : RegistrationSummary) (actions : List Action) :
    (actions.map HostCall.action).foldl HostCall.count summary =
      { summary with actions := summary.actions + actions.length } := by
  induction actions generalizing summary with
  | nil => rfl
  | cons action rest ih =>
    rw [List.map_cons, List.foldl_cons, ih]
    simp only [HostCall.count, RegistrationSummary.countAction, List.length_cons]
    congr 1
    omega

theorem foldl_count_entries (summary : RegistrationSummary) (entries : List CatalogueEntry) :
    (entries.flatMap entryCalls).foldl HostCall.count summary =
      ⟨summary.apps + entries.length,
        entries.foldl (fun n entry => n + entry.actions.length) summary.actions⟩ := by
  induction entries generalizing summary with
  | nil => rfl
  | cons entry rest ih =>
    rw [List.flatMap_cons, List.foldl_append, entryCalls, List.foldl_cons, foldl_count_actions, ih]
    simp only [HostCall.count, RegistrationSummary.countApp, Entries.values, List.length_map,
      List.length_cons, List.foldl_cons]
    congr 1
    omega

/-- The whole sequence counts every app and every action once. -/
theorem foldl_count_registrationCalls (c : Catalogue) :
    c.registrationCalls.foldl HostCall.count {} = ⟨c.size, c.actionCount⟩ := by
  rw [registrationCalls, foldl_count_entries]
  simp [size, actionCount, Entries.values]

theorem foldl_length_actions (entries : List CatalogueEntry) (n : Nat) :
    entries.foldl (fun n entry => n + entry.actions.length) n =
      n + (entries.flatMap fun entry => Entries.values entry.actions).length := by
  induction entries generalizing n with
  | nil => simp
  | cons entry rest ih =>
    rw [List.foldl_cons, ih, List.flatMap_cons, List.length_append, Entries.values,
      List.length_map, Nat.add_assoc]

theorem length_allActions (c : Catalogue) : c.allActions.length = c.actionCount := by
  rw [actionCount, foldl_length_actions, Nat.zero_add, allActions]

/-! ### What can be looked up -/

/-- Apps and actions stand under their own names, no name comes twice, and every action belongs to
the app that it stands under. -/
structure Keyed (c : Catalogue) : Prop where
  distinct : (Entries.keys c.entries).Nodup
  app : ∀ name entry, (name, entry) ∈ c.entries → entry.app.name = name
  actions : ∀ name entry, (name, entry) ∈ c.entries → (Entries.keys entry.actions).Nodup
  action : ∀ name entry, (name, entry) ∈ c.entries → ∀ key action,
    (key, action) ∈ entry.actions → action.app = name ∧ action.name = key

theorem keyed_build (context : BuildContext) (providers : List Provider) :
    Keyed (build context providers) := by
  rw [build_eq]
  refine ⟨CollisionPolicy.nodup_keys_collect context.policy _, ?_, ?_, ?_⟩
  all_goals
    intro name entry member
    obtain ⟨source, -, rfl, named⟩ := CollisionPolicy.exists_of_mem_collect_defining member
    have owns := owns_entryOf context.policy source
  case refine_1 => exact named
  case refine_2 => exact owns.distinct
  case refine_3 =>
    intro key action stored
    obtain ⟨declared, -, rfl, key⟩ := owns.kept key action stored
    exact ⟨named, key⟩

/-- The apps and names of the actions that a registration registers, in its order. -/
def registeredPairs (c : Catalogue) : List (String × String) :=
  c.registrationCalls.filterMap HostCall.pair?

theorem mem_entryCalls {entry : CatalogueEntry} {call : HostCall} : call ∈ entryCalls entry ↔
    call = .app entry.app ∨
      ∃ key action, (key, action) ∈ entry.actions ∧ .action action = call := by
  simp only [entryCalls, List.mem_cons, List.mem_map, Entries.mem_values]
  constructor
  · rintro (app | ⟨action, ⟨key, stored⟩, same⟩)
    · exact .inl app
    · exact .inr ⟨key, action, stored, same⟩
  · rintro (app | ⟨key, action, stored, same⟩)
    · exact .inl app
    · exact .inr ⟨action, ⟨key, stored⟩, same⟩

theorem mem_registrationCalls {c : Catalogue} {call : HostCall} :
    call ∈ c.registrationCalls ↔
      ∃ name entry, (name, entry) ∈ c.entries ∧ call ∈ entryCalls entry := by
  rw [registrationCalls, List.mem_flatMap]
  constructor
  · rintro ⟨entry, stands, made⟩
    obtain ⟨name, stands⟩ := Entries.mem_values.mp stands
    exact ⟨name, entry, stands, made⟩
  · rintro ⟨name, entry, stands, made⟩
    exact ⟨entry, Entries.mem_values.mpr ⟨name, stands⟩, made⟩

theorem mem_registeredPairs {c : Catalogue} {app name : String} :
    (app, name) ∈ c.registeredPairs ↔ ∃ action, .action action ∈ c.registrationCalls ∧
      action.app = app ∧ action.name = name := by
  rw [registeredPairs, List.mem_filterMap]
  constructor
  · rintro ⟨_ | action, member, pair⟩
    · cases pair
    · simp only [HostCall.pair?, Option.some.injEq, Prod.mk.injEq] at pair
      exact ⟨action, member, pair⟩
  · rintro ⟨action, member, rfl, rfl⟩
    exact ⟨.action action, member, rfl⟩

theorem action_eq_ok_iff {c : Catalogue} {app name : String} {action : Action} :
    c.action app name = .ok action ↔ ∃ entry, Entries.lookup app c.entries = some entry ∧
      Entries.lookup name entry.actions = some action := by
  unfold Catalogue.action entry
  cases Entries.lookup app c.entries with
  | none => simp [bind, Except.bind]
  | some entry =>
    cases found : Entries.lookup name entry.actions <;> simp [bind, Except.bind, found]

namespace Keyed

variable {c : Catalogue}

/-- An action can be looked up under its app and name exactly where it is registered. -/
theorem action_eq_ok (keyed : Keyed c) {app name : String} {action : Action} :
    c.action app name = .ok action ↔
      .action action ∈ c.registrationCalls ∧ action.app = app ∧ action.name = name := by
  rw [action_eq_ok_iff, mem_registrationCalls]
  constructor
  · rintro ⟨entry, foundApp, found⟩
    have stands := Entries.mem_of_lookup foundApp
    have stored := Entries.mem_of_lookup found
    have called := mem_entryCalls.mpr (.inr ⟨name, action, stored, rfl⟩)
    exact ⟨⟨app, entry, stands, called⟩, keyed.action app entry stands name action stored⟩
  · rintro ⟨⟨key, entry, stands, called⟩, rfl, rfl⟩
    obtain app | ⟨own, _, stored, same⟩ := mem_entryCalls.mp called
    · cases app
    cases same
    obtain ⟨rfl, rfl⟩ := keyed.action key entry stands own action stored
    exact ⟨entry, Entries.lookup_of_mem keyed.distinct stands,
      Entries.lookup_of_mem (keyed.actions _ entry stands) stored⟩

theorem registeredPairs_eq (keyed : Keyed c) : c.registeredPairs =
    c.entries.flatMap fun (name, entry) => (Entries.keys entry.actions).map (name, ·) := by
  rw [registeredPairs, registrationCalls, Entries.values, List.filterMap_flatMap,
    List.flatMap_map]
  apply List.flatMap_congr
  rintro ⟨name, entry⟩ stands
  simp only [entryCalls, Entries.values, Entries.keys, HostCall.pair?, List.filterMap_cons,
    List.filterMap_map, List.map_map]
  rw [← List.filterMap_eq_map]
  apply List.filterMap_congr
  rintro ⟨key, action⟩ stored
  obtain ⟨own, named⟩ := keyed.action name entry stands key action stored
  simp [HostCall.pair?, own, named]

theorem nodup_registeredPairs (keyed : Keyed c) : c.registeredPairs.Nodup := by
  rw [keyed.registeredPairs_eq, List.nodup_flatMap]
  constructor
  · rintro ⟨name, entry⟩ stands
    exact (keyed.actions name entry stands).map fun _ _ same => (Prod.mk.inj same).2
  · have distinct := List.pairwise_map.mp keyed.distinct
    refine distinct.imp fun {first second} different pair left right => ?_
    obtain ⟨key, -, rfl⟩ := List.mem_map.mp left
    obtain ⟨other, -, same⟩ := List.mem_map.mp right
    exact different (congrArg Prod.fst same).symm

/-- A call of the sequence is named by the app, or by the app and the action, that it stands for. -/
theorem item_eq (keyed : Keyed c) {call : HostCall} (member : call ∈ c.registrationCalls) :
    (∃ name entry, (name, entry) ∈ c.entries ∧ call = .app entry.app ∧ call.item = name) ∨
      ∃ name entry key action, (name, entry) ∈ c.entries ∧ (key, action) ∈ entry.actions ∧
        call = .action action ∧ call.item = name ++ "." ++ key := by
  obtain ⟨name, entry, stands, called⟩ := mem_registrationCalls.mp member
  obtain rfl | ⟨key, action, stored, rfl⟩ := mem_entryCalls.mp called
  · exact .inl ⟨name, entry, stands, rfl, keyed.app name entry stands⟩
  · obtain ⟨rfl, rfl⟩ := keyed.action name entry stands key action stored
    exact .inr ⟨_, entry, _, action, stands, stored, rfl, rfl⟩

end Keyed

/-- How the registration of a catalogue with a host goes. -/
structure Registers (c : Catalogue) (host : Host σ) (s : σ) : Prop where
  /-- Tracing the host changes neither the outcome nor what is left of it. -/
  observed : c.registerApps host.traced (s, []) =
    ((c.registerApps host s).1, (c.registerApps host s).2, c.callsMade host s)
  left : (c.registerApps host s).2 = host.after (c.callsMade host s) s
  inOrder : c.callsMade host s <+: c.registrationCalls
  /-- Where no call fails the whole sequence is made and counted. -/
  succeeds : host.Accepts c.registrationCalls s →
    (c.registerApps host s).1 = .ok ⟨c.size, c.actionCount⟩ ∧
      c.callsMade host s = c.registrationCalls
  /-- Where a call fails, it is the last one, and the error names what it is about. -/
  fails : ¬host.Accepts c.registrationCalls s →
    ∃ before call rest cause, c.registrationCalls = before ++ call :: rest ∧
      c.callsMade host s = before ++ [call] ∧ host.Accepts before s ∧
      (call.makeOn host (host.after before s)).1 = .error cause ∧
      (c.registerApps host s).1 = .error (.host call.item cause)
  items : ∀ call ∈ c.registrationCalls,
    (∃ name entry, (name, entry) ∈ c.entries ∧ call = .app entry.app ∧ call.item = name) ∨
      ∃ name entry key action, (name, entry) ∈ c.entries ∧ (key, action) ∈ entry.actions ∧
        call = .action action ∧ call.item = name ++ "." ++ key
  distinct : c.registeredPairs.Nodup
  /-- What can be looked up is what is registered. -/
  found : ∀ app name action, c.action app name = .ok action ↔
    .action action ∈ c.registrationCalls ∧ action.app = app ∧ action.name = name
  pairs : ∀ app name, (app, name) ∈ c.registeredPairs ↔ ∃ action, c.action app name = .ok action
  /-- The statistics count the same apps and actions, and every action as one of the two kinds. -/
  counts : c.stats.apps = c.size ∧ c.stats.actions = c.actionCount ∧
    c.allActions.countP Action.isSwagger ≤ c.actionCount ∧
    c.stats.functionActions = c.allActions.countP (fun action => !action.isSwagger) ∧
    c.stats.swaggerActions + c.stats.functionActions = c.stats.actions

theorem actionCount_eq_add (c : Catalogue) : c.actionCount =
    c.allActions.countP Action.isSwagger + c.allActions.countP fun action => !action.isSwagger := by
  rw [← length_allActions, List.length_eq_countP_add_countP Action.isSwagger]
  simp

/-- Registering a built catalogue makes the calls of its entries in their order and stops at the
first refusal; what it registers is what the catalogue finds. -/
theorem registration_stops_at_first_refusal (context : BuildContext) (providers : List Provider)
    (host : Host σ) (s : σ) : Registers (build context providers) host s := by
  have keyed := keyed_build context providers
  generalize build context providers = c at keyed ⊢
  obtain ⟨walk, observed⟩ := registerApps_walks c host s
  constructor
  case observed => exact observed
  case left => exact walk.left_eq
  case inOrder => exact walk.made_isPrefix
  case succeeds =>
    intro accepted
    cases outcome : (c.registerApps host s).1 with
    | error error =>
      rw [outcome] at walk
      exact absurd accepted walk.not_accepts
    | ok total =>
      rw [outcome] at walk
      obtain ⟨made, -, rfl⟩ := walk.finished
      exact ⟨congrArg Except.ok c.foldl_count_registrationCalls, made⟩
  case fails =>
    intro refused
    cases outcome : (c.registerApps host s).1 with
    | error error =>
      rw [outcome] at walk
      obtain ⟨before, call, rest, cause, calls, made, accepted, refuses, rfl⟩ := walk.stopped
      exact ⟨before, call, rest, cause, calls, made, accepted, refuses, rfl⟩
    | ok total =>
      rw [outcome] at walk
      exact absurd walk.finished.2.1 refused
  case items =>
    intro call member
    exact keyed.item_eq member
  case distinct => exact keyed.nodup_registeredPairs
  case found =>
    intro app name action
    exact keyed.action_eq_ok
  case pairs =>
    intro app name
    simp only [mem_registeredPairs, keyed.action_eq_ok]
  case counts =>
    have split := c.actionCount_eq_add
    refine ⟨rfl, rfl, by omega, ?_, ?_⟩
    all_goals simp only [stats]; omega

end Catalogue

end ActionCatalogue
