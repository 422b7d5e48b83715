import ActionCatalogue.Manifest.Loading
import ActionCatalogue.Proofs.Aggregation
import ActionCatalogue.Proofs.ManifestProvision

/-!
The catalogue of a manifest that was loaded. Supplied apps that have a name of their own, and
actions that are theirs and have a name of their own, are taken in as they are and nothing is said
of them. Loading fills in client secrets only after the checks, and keeps the names that they are
about, so the apps of a loaded manifest are such apps.
-/

namespace ActionCatalogue

namespace Catalogue

open CollisionPolicy

/-- No action of an app has to be moved to it, and none stands in the way of another. -/
structure Uncontested (source : AppWithActions) : Prop where
  owned : ∀ a ∈ source.actions, a.app = source.name
  distinct : (source.actions.map (·.name)).Nodup

/-- An app as it was supplied. -/
def plainEntry (source : AppWithActions) : CatalogueEntry where
  app := source.app
  actions := source.actions.map fun a => (a.name, a)

variable {policy : CollisionPolicy} {source : AppWithActions}

theorem entryOf_uncontested (uncontested : Uncontested source) :
    entryOf policy source = plainEntry source := by
  have own : ∀ a ∈ source.actions, (a.name, owned source.name a) = (a.name, a) := by
    intro a member
    rw [owned, ← uncontested.owned a member]
  have names : (Entries.keys (defining Action.name (owned source.name) source.actions)).Nodup := by
    rw [keys_defining]
    exact uncontested.distinct
  rw [entryOf, ownActions, collect_of_nodup policy names, defining, List.map_congr_left own]
  rfl

theorem appReports_uncontested (uncontested : Uncontested source) {before : List AppWithActions}
    (fresh : source.name ∉ before.map AppWithActions.name) (provider : String) :
    appReports policy provider before source = [] := by
  have silent : ∀ entry ∈ withEarlier source.actions,
      actionReports policy source.name entry.1 entry.2 = [] := by
    rintro ⟨earlier, a⟩ member
    have among := mem_of_mem_earlierFrom member
    have new := not_mem_earlier uncontested.distinct member
    simp [actionReports, uncontested.owned a among, new]
  simp only [appReports, fresh, false_and, if_false, List.nil_append]
  exact List.flatMap_eq_nil_iff.mpr silent

/-- A provider of apps that do not contest anything gives a catalogue of these apps, and the
catalogue has nothing to add to its reports. -/
theorem build_uncontested {context : BuildContext} {p : Provider}
    (named : ((p.provide context).apps.map AppWithActions.name).Nodup)
    (uncontested : ∀ source ∈ (p.provide context).apps, Uncontested source) :
    build context [p] =
      { entries := (p.provide context).apps.map fun source => (source.name, plainEntry source)
        diagnostics := (p.provide context).diagnostics
        policy := context.policy } := by
  have all : supplied context [p] = (p.provide context).apps := by
    simp [supplied]
  have entries : entriesOf context.policy (p.provide context).apps =
      (p.provide context).apps.map fun source => (source.name, plainEntry source) := by
    have names : (Entries.keys (defining AppWithActions.name (entryOf context.policy)
        (p.provide context).apps)).Nodup := by
      rw [keys_defining]
      exact named
    rw [entriesOf, collect_of_nodup context.policy names, defining]
    apply List.map_congr_left
    intro source member
    rw [entryOf_uncontested (uncontested source member)]
  have silent : ∀ entry ∈ withEarlier (p.provide context).apps,
      appReports context.policy p.name entry.1 entry.2 = [] := by
    rintro ⟨earlier, source⟩ member
    have among := mem_of_mem_earlierFrom member
    exact appReports_uncontested (uncontested source among) (not_mem_earlier named member) p.name
  have single : providerReports context [] p = (p.provide context).diagnostics :=
    (congrArg ((p.provide context).diagnostics ++ ·) (List.flatMap_eq_nil_iff.mpr silent)).trans
      (List.append_nil _)
  have reports : providerReports context [] p ++ [] = (p.provide context).diagnostics :=
    (List.append_nil _).trans single
  rw [build_eq, all, entries]
  exact congrArg (fun diagnostics => Catalogue.mk _ diagnostics context.policy) reports

/-- A catalogue holds what is supplied as it is supplied, and has nothing to say of it. -/
structure HoldsUnchanged (supply : Supply) (c : Catalogue) : Prop where
  entries : c.entries = supply.apps.map fun source => (source.app.name,
    { app := source.app, actions := source.actions.map fun a => (a.name, a) })
  diagnostics : c.diagnostics = supply.diagnostics
  silent : ∀ r ∈ c.diagnostics, r.source ≠ diagnosticSource

end Catalogue

namespace Manifest

/-! ### Loading -/

theorem name_fillSecret (env : Environment) (app : App) :
    (fillSecret env app).name = app.name := by
  unfold fillSecret
  split
  · rfl
  · split <;> rfl

theorem swagger_fillSecret (env : Environment) (app : App) :
    (fillSecret env app).swagger = app.swagger := by
  unfold fillSecret
  split
  · rfl
  · split <;> rfl

/-- The checks do not look at what is filled in. -/
theorem validate_fillSecrets (env : Environment) (m : Manifest) :
    (m.fillSecrets env).validate = m.validate := by
  unfold validate fillSecrets
  generalize ([] : List String) = seen
  induction m.apps generalizing seen with
  | nil => rfl
  | cons d rest ih =>
    simp only [List.map_cons, checkApps, name_fillSecret, swagger_fillSecret, ih]

theorem valid_of_ofTextBy {read : TextReader} {rules : Expansion.Rules} {env : Environment}
    {format : FileFormat} {text : String} {m : Manifest}
    (loaded : ofTextBy read rules env format text = .ok m) : m.validate = .ok () := by
  obtain ⟨v, -, loaded⟩ := exists_of_bind_eq_ok loaded
  obtain ⟨expanded, -, loaded⟩ := exists_of_bind_eq_ok loaded
  obtain ⟨raw, -, loaded⟩ := exists_of_bind_eq_ok loaded
  obtain ⟨_, checked, loaded⟩ := exists_of_bind_eq_ok loaded
  obtain rfl := Except.ok.inj loaded
  rw [validate_fillSecrets]
  cases valid : raw.validate with
  | ok _ => rfl
  | error fault =>
    rw [valid] at checked
    cases checked

/-! ### The catalogue of a loaded manifest -/

variable {files : Files} {directory : String} {context : BuildContext} {d : AppDeclaration}
  {source : AppWithActions} {reports : Diagnostics} {m : Manifest}

theorem Provides.uncontested (provides : Provides files directory context d source reports) :
    Catalogue.Uncontested source where
  owned := by
    intro a member
    rw [(provides.real a member).1, AppWithActions.name, provides.app, name_withDefaults]
  distinct := provides.distinct

theorem uncontested_of_mem (valid : m.validate = .ok ())
    (member : source ∈ ((m.provider files directory).provide context).apps) :
    Catalogue.Uncontested source := by
  rw [apps_provide] at member
  obtain ⟨d, among, provided⟩ := List.mem_filterMap.mp member
  have answers := answers_of_mem files directory context valid among
  unfold Answers at answers
  split at answers
  next other reports found =>
    rw [found] at provided
    obtain rfl := Option.some.inj provided
    exact answers.uncontested
  next reports found =>
    rw [found] at provided
    cases provided

theorem source_ne_registry {app : String} {r : Diagnostic} (belongs : Belongs app r) :
    r.source ≠ Catalogue.diagnosticSource := by
  rcases belongs.source with manifest | swagger
  · rw [manifest]
    decide
  · rw [swagger]
    decide

/-- What was loaded meets no collision: its catalogue holds the apps and the actions that are
provided, whatever read its text, whatever is in the files and whatever the policy says. -/
theorem loaded_manifest_never_collides (read : TextReader) (rules : Expansion.Rules)
    (env : Environment) (format : FileFormat) (text : String) (m : Manifest)
    (loaded : ofTextBy read rules env format text = .ok m) (files : Files) (directory : String)
    (context : BuildContext) :
    Catalogue.HoldsUnchanged ((m.provider files directory).provide context)
      (Catalogue.build context [m.provider files directory]) := by
  have valid := valid_of_ofTextBy loaded
  have named := (nodup_names valid).sublist (names_provided_sublist files directory context valid)
  rw [Catalogue.build_uncontested named fun _ member => uncontested_of_mem valid member]
  constructor
  case entries => rfl
  case diagnostics => rfl
  case silent =>
    intro r member
    obtain ⟨d, -, belongs⟩ := belongs_of_mem_diagnostics files directory context valid member
    exact source_ne_registry belongs

def petsManifest : String :=
  "\n".intercalate ["apps:", "- name: Notes", "- name: Pets",
    "  swagger: \x7bfile: pets.yaml\x7d"]

theorem pets_never_collide : ∃ m,
    ofText {} (fun _ => none) .yaml petsManifest = .ok m ∧
      m.apps.map (·.app.name) = ["Notes", "Pets"] ∧
      Catalogue.HoldsUnchanged ((m.provider petsOnly "docs").provide m.buildContext)
        (Catalogue.build m.buildContext [m.provider petsOnly "docs"]) := by
  have names : (ofText {} (fun _ => none) .yaml petsManifest).toOption.map
      (fun m => m.apps.map (·.app.name)) = some ["Notes", "Pets"] := by decide +kernel
  cases loaded : ofText {} (fun _ => none) .yaml petsManifest with
  | error e =>
    rw [loaded] at names
    cases names
  | ok m =>
    rw [loaded] at names
    exact ⟨m, rfl, Option.some.inj names,
      loaded_manifest_never_collides readText {} (fun _ => none) .yaml petsManifest m loaded
        petsOnly "docs" m.buildContext⟩

end Manifest

end ActionCatalogue
