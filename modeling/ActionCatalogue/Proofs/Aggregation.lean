import ActionCatalogue.Catalogue.Basic
import ActionCatalogue.Proofs.Collision

/-!
What a catalogue makes of the apps that providers supply. One fold puts apps in and another the
actions of each app; the collision policy settles both. Each fold is followed with what it has taken
in before, which says what is left under every name and which reports have been made.
-/

namespace ActionCatalogue

def AppWithActions.name (source : AppWithActions) : String := source.app.name

namespace Catalogue

open CollisionPolicy

variable (policy : CollisionPolicy) (context : BuildContext)

def collisionSeverity : CollisionPolicy → Severity
  | .overwrite => .warning
  | .reject => .error

def owned (app : String) (action : Action) : Action := { action with app }

/-- What is left of actions that an app owns. -/
def ownActions (app : String) (actions : List Action) : Entries Action :=
  policy.collect (defining Action.name (owned app) actions)

def entryOf (source : AppWithActions) : CatalogueEntry where
  app := source.app
  actions := ownActions policy source.name source.actions

def entriesOf (sources : List AppWithActions) : Entries CatalogueEntry :=
  policy.collect (defining AppWithActions.name (entryOf policy) sources)

/-- What is reported of an action in an app where some actions stand before it. -/
def actionReports (app : String) (before : List Action) (action : Action) : Diagnostics :=
  (if action.app = app then [] else [movedAction app action]) ++
  (if action.name ∈ before.map Action.name then [duplicateAction policy app action.name] else [])

/-- What is reported of an app that a provider supplies after others. -/
def appReports (provider : String) (before : List AppWithActions) (source : AppWithActions) :
    Diagnostics :=
  let known := source.name ∈ before.map AppWithActions.name
  (if known then [redefined policy provider source.name] else []) ++
  (if known ∧ policy = .reject then []
    else (withEarlier source.actions).flatMap fun (before, action) =>
      actionReports policy source.name before action)

/-- The apps that providers supply, in their order. -/
def supplied (providers : List Provider) : List AppWithActions :=
  providers.flatMap fun p => (p.provide context).apps

/-- What is reported of a provider after others: what it says itself, then what there is to say of
its apps. -/
def providerReports (earlier : List Provider) (p : Provider) : Diagnostics :=
  (p.provide context).diagnostics ++
  (earlierFrom (supplied context earlier) (p.provide context).apps).flatMap fun (before, source) =>
    appReports context.policy p.name before source

/-! ### The actions of one app -/

theorem addAction_ownActions (app : String) (before : List Action) (action : Action) :
    addAction policy app (ownActions policy app before) action =
      ownActions policy app (before ++ [action]) := by
  rw [ownActions, ownActions, collect_defining_concat]
  rfl

theorem actionDiagnostics_ownActions (app : String) (before : List Action) (action : Action) :
    actionDiagnostics policy app (ownActions policy app before) action =
      actionReports policy app before action := by
  unfold actionDiagnostics actionReports ownActions
  rw [Entries.has_eq]
  simp only [decide_eq_true_iff, mem_keys_collect, keys_defining]

/-- Actions are put in one by one after those that were put in before. -/
theorem addActions_ownActions (app : String) (before actions : List Action) :
    addActions policy app (ownActions policy app before) actions =
      (ownActions policy app (before ++ actions),
        (earlierFrom before actions).flatMap fun (before, action) =>
          actionReports policy app before action) := by
  induction actions generalizing before with
  | nil => rw [List.append_nil]; rfl
  | cons action rest ih =>
    rw [addActions, actionDiagnostics_ownActions, addAction_ownActions, ih, List.append_assoc]
    rfl

/-! ### All apps

A catalogue has taken in some apps if its entries are what is left of them. -/

theorem insert_of_kept {c : Catalogue} {source : AppWithActions}
    (kept : ¬(source.name ∈ Entries.keys c.entries ∧ c.policy = .reject)) (provider : String) :
    c.insert provider source =
      { c with
        entries := Entries.put source.name
          ⟨source.app, (addActions c.policy source.name [] source.actions).1⟩ c.entries
        diagnostics := c.diagnostics ++
          (if source.name ∈ Entries.keys c.entries then
            [redefined c.policy provider source.name] else []) ++
          (addActions c.policy source.name [] source.actions).2 } := by
  have goes : ¬(Entries.has source.name c.entries && c.policy = .reject) := by
    simpa [Entries.has_eq] using kept
  refine Eq.trans (if_neg goes) ?_
  simp only [Entries.has_eq, decide_eq_true_iff]
  rfl

theorem insert_of_dropped {c : Catalogue} {source : AppWithActions}
    (dropped : source.name ∈ Entries.keys c.entries ∧ c.policy = .reject) (provider : String) :
    c.insert provider source =
      { c with diagnostics := c.diagnostics ++ [redefined c.policy provider source.name] } := by
  have known : Entries.has source.app.name c.entries := by
    rw [Entries.has_eq, decide_eq_true_iff]
    exact dropped.1
  unfold insert
  simp only [known, dropped.2]
  rfl

/-- An app is settled like an action, and reported by what is known before. -/
theorem insert_eq {c : Catalogue} {before : List AppWithActions}
    (held : c.entries = entriesOf c.policy before)
    (provider : String) (source : AppWithActions) :
    c.insert provider source =
      { c with
        entries := entriesOf c.policy (before ++ [source])
        diagnostics := c.diagnostics ++ appReports c.policy provider before source } := by
  have names : source.name ∈ Entries.keys c.entries ↔
      source.name ∈ before.map AppWithActions.name := by
    rw [held, entriesOf, mem_keys_collect, keys_defining]
  have added : addActions c.policy source.name [] source.actions =
      ((entryOf c.policy source).actions, (withEarlier source.actions).flatMap
        fun (before, action) => actionReports c.policy source.name before action) :=
    addActions_ownActions c.policy source.name [] source.actions
  have settled : entriesOf c.policy (before ++ [source]) =
      c.policy.settle source.name (entryOf c.policy source) c.entries := by
    rw [entriesOf, collect_defining_concat, held, entriesOf]
  rw [settled, appReports]
  simp only [← names]
  by_cases dropped : source.name ∈ Entries.keys c.entries ∧ c.policy = .reject
  · rw [insert_of_dropped dropped, settle_dropped dropped, if_pos dropped.1, if_pos dropped,
      List.append_nil]
  · rw [insert_of_kept dropped, settle_kept dropped, if_neg dropped, added, List.append_assoc]
    rfl

theorem foldl_insert {c : Catalogue} {before : List AppWithActions}
    (held : c.entries = entriesOf c.policy before)
    (provider : String) (apps : List AppWithActions) :
    apps.foldl (fun c source => c.insert provider source) c =
      { c with
        entries := entriesOf c.policy (before ++ apps)
        diagnostics := c.diagnostics ++ (earlierFrom before apps).flatMap fun (before, source) =>
          appReports c.policy provider before source } := by
  induction apps generalizing c before with
  | nil =>
    rw [List.append_nil, ← held, earlierFrom, List.flatMap_nil, List.append_nil]
    rfl
  | cons source rest ih =>
    rw [List.foldl_cons, insert_eq held, ih rfl]
    simp only [earlierFrom, List.flatMap_cons, List.append_assoc, List.singleton_append]

theorem build_eq (providers : List Provider) : build context providers =
    { entries := entriesOf context.policy (supplied context providers)
      diagnostics := (withEarlier providers).flatMap fun (earlier, p) =>
        providerReports context earlier p
      policy := context.policy } := by
  induction providers using List.reverseRecOn with
  | nil => rfl
  | append_singleton providers p ih =>
    have grown : supplied context (providers ++ [p]) =
        supplied context providers ++ (p.provide context).apps := by
      simp [supplied]
    rw [build, List.foldl_append, ← build, ih, List.foldl_cons, List.foldl_nil, addProvider,
      foldl_insert rfl, grown, withEarlier_concat, List.flatMap_append]
    simp [providerReports]

/-! ### What is left, and what is reported -/

/-- The actions that an entry has of a supplied app. -/
structure Owns (source : AppWithActions) (actions : Entries Action) : Prop where
  /-- The names stand in the order of their first actions. -/
  names : Entries.keys actions = (source.actions.map Action.name).eraseDups
  distinct : (Entries.keys actions).Nodup
  /-- Under a name stands the last action of the name, or the first one, moved to the app. -/
  kept : ∀ name action, (name, action) ∈ actions → ∃ declared,
    policy.winner? (source.actions.filter (·.name = name)) = some declared ∧
      action = { declared with app := source.name } ∧ action.name = name

/-- What a catalogue makes of what providers supply. -/
structure Aggregates (providers : List Provider) (c : Catalogue) : Prop where
  policy : c.policy = context.policy
  /-- The names stand in the order of first supply. -/
  names : Entries.keys c.entries =
    ((supplied context providers).map AppWithActions.name).eraseDups
  distinct : (Entries.keys c.entries).Nodup
  /-- Under a name stands the last app of the name, or the first one. -/
  kept : ∀ name entry, (name, entry) ∈ c.entries → ∃ source,
    context.policy.winner? ((supplied context providers).filter (·.name = name)) = some source ∧
      entry.app = source.app ∧ entry.app.name = name ∧ Owns context.policy source entry.actions
  diagnostics : c.diagnostics = (withEarlier providers).flatMap fun (earlier, p) =>
    providerReports context earlier p
  severities : ∀ provider app action,
    (redefined c.policy provider app).severity = collisionSeverity c.policy ∧
      (duplicateAction c.policy app action.name).severity = collisionSeverity c.policy ∧
      (movedAction app action).severity = .warning

theorem owns_entryOf (source : AppWithActions) :
    Owns policy source (entryOf policy source).actions where
  names := by
    rw [entryOf, ownActions, keys_collect, keys_defining]
  distinct := nodup_keys_collect policy _
  kept := by
    intro name action member
    obtain ⟨declared, won, rfl, named⟩ := exists_of_mem_collect_defining member
    exact ⟨declared, won, rfl, named⟩

/-- A catalogue holds what its policy leaves of everything that is supplied, and reports every
collision and every action that it moved. -/
theorem build_aggregates (providers : List Provider) :
    Aggregates context providers (build context providers) := by
  rw [build_eq]
  constructor
  case policy => rfl
  case names => rw [entriesOf, keys_collect, keys_defining]
  case distinct => exact nodup_keys_collect context.policy _
  case kept =>
    intro name entry member
    obtain ⟨source, won, rfl, named⟩ := exists_of_mem_collect_defining member
    exact ⟨source, won, rfl, named, owns_entryOf context.policy source⟩
  case diagnostics => rfl
  case severities =>
    intro provider app action
    cases context.policy with
    | overwrite => exact ⟨rfl, rfl, rfl⟩
    | reject => exact ⟨rfl, rfl, rfl⟩

end Catalogue

end ActionCatalogue
