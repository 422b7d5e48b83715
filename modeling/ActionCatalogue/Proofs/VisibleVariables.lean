import ActionCatalogue.Manifest.Loading

/-!
Which variables of the environment a manifest can show. An expansion reads a variable only after it
has checked the prefix of its name, however deep the reference to it is nested, so environments that
agree on the allowed variables expand every text alike. Allowed are the prefixes of the rules and
one for each app that the manifest names before it is expanded; a client secret is read under the
name that its app has afterwards.
-/

namespace ActionCatalogue

open Json

namespace Expansion

variable {r : Rules} {env other : Environment}

/-! ### Prefixes -/

namespace Rules

theorem allows_iff (listed : r.prefixes ≠ []) {name : String} :
    r.allows name = true ↔ ∃ start ∈ r.prefixes, start.toList <+: name.toList := by
  have restricted : r.prefixes.isEmpty = false := by simpa using listed
  simp [allows, restricted]

theorem mem_prefixes_allow (listed : r.prefixes ≠ []) (start added : String) :
    start ∈ (r.allow added).prefixes ↔ start ∈ r.prefixes ∨ start = added := by
  have restricted : r.prefixes.isEmpty = false := by simpa using listed
  unfold allow
  by_cases known : added ∈ r.prefixes
  · have covered : start = added → start ∈ r.prefixes := fun same => same ▸ known
    simpa [restricted, known] using covered
  · simp [restricted, known]

theorem prefixes_allow_ne_nil (listed : r.prefixes ≠ []) (added : String) :
    (r.allow added).prefixes ≠ [] := by
  intro empty
  have first := List.head_mem listed
  have kept := (mem_prefixes_allow listed _ added).mpr (.inl first)
  rw [empty] at kept
  cases kept

/-- Two environments that hold the same under every name that may be read. -/
def Agree (r : Rules) (env other : Environment) : Prop :=
  ∀ name, r.allows name = true → env name = other name

end Rules

/-! ### Expansions -/

theorem lookup_agree (agree : r.Agree env other) (active : List String) (name : String)
    (default : Option String) :
    lookup r env active name default = lookup r other active name default := by
  unfold lookup
  by_cases allowed : r.allows name = true
  · rw [agree name allowed]
  · simp [allowed]

/-- The texts that are put in are expanded with less room, by what agrees as well. -/
theorem expandIn_agree (agree : r.Agree env other) (room : Nat) (active : List String)
    (text : String) : expandIn r env room active text = expandIn r other room active text := by
  induction room generalizing active text with
  | zero => rfl
  | succ room ih => simp only [expandIn, lookup_agree agree, ih]

theorem expand_agree (agree : r.Agree env other) (text : String) :
    expand r env text = expand r other text :=
  expandIn_agree agree r.maxDepth [] text

mutual

theorem expandValue_agree (agree : r.Agree env other) :
    (v : Value) → expandValue r env v = expandValue r other v
  | .null => rfl
  | .bool _ => rfl
  | .number _ => rfl
  | .text s => by rw [expandValue, expandValue, expand_agree agree]
  | .list items => by rw [expandValue, expandValue, expandItems_agree agree items]
  | .object entries => by rw [expandValue, expandValue, expandEntries_agree agree entries]

theorem expandItems_agree (agree : r.Agree env other) :
    (items : List Value) → expandItems r env items = expandItems r other items
  | [] => rfl
  | v :: rest => by
    rw [expandItems, expandItems, expandValue_agree agree v, expandItems_agree agree rest]

theorem expandEntries_agree (agree : r.Agree env other) :
    (entries : List (String × Value)) → expandEntries r env entries = expandEntries r other entries
  | [] => rfl
  | (k, v) :: rest => by
    rw [expandEntries, expandEntries, expandValue_agree agree v, expandEntries_agree agree rest]

end

end Expansion

namespace Manifest

open Expansion

variable {rules : Rules} {env other : Environment} {v : Value}

theorem prefixes_foldl_allow (listed : rules.prefixes ≠ []) (apps : List String) :
    (apps.foldl (fun r name => r.allow (variablePrefix name)) rules).prefixes ≠ [] ∧
    ∀ start, start ∈ (apps.foldl (fun r name => r.allow (variablePrefix name)) rules).prefixes ↔
      start ∈ rules.prefixes ∨ ∃ app ∈ apps, start = variablePrefix app := by
  induction apps generalizing rules with
  | nil => simp [listed]
  | cons app rest ih =>
    obtain ⟨nonempty, members⟩ := ih (rules.prefixes_allow_ne_nil listed (variablePrefix app))
    refine ⟨nonempty, fun start => ?_⟩
    rw [List.foldl_cons, members start, Rules.mem_prefixes_allow listed]
    simp only [List.mem_cons, exists_eq_or_imp, or_assoc]

theorem allows_rulesFor_iff (listed : rules.prefixes ≠ []) {name : String} :
    (rulesFor rules v).allows name = true ↔
      (∃ start ∈ rules.prefixes, start.toList <+: name.toList) ∨
        ∃ app ∈ appNames v, (variablePrefix app).toList <+: name.toList := by
  obtain ⟨nonempty, members⟩ := prefixes_foldl_allow listed (appNames v)
  rw [rulesFor, Rules.allows_iff nonempty]
  constructor
  · rintro ⟨start, among, begins⟩
    rcases (members start).mp among with listed | ⟨app, named, rfl⟩
    · exact .inl ⟨start, listed, begins⟩
    · exact .inr ⟨app, named, begins⟩
  · rintro (⟨start, listed, begins⟩ | ⟨app, named, begins⟩)
    · exact ⟨start, (members start).mpr (.inl listed), begins⟩
    · exact ⟨variablePrefix app, (members _).mpr (.inr ⟨app, named, rfl⟩), begins⟩

/-- The variables that loading a manifest from a value may read. -/
inductive Visible (rules : Rules) (env : Environment) (v : Value) : String → Prop
  | listed {start name : String} (among : start ∈ rules.prefixes)
      (begins : start.toList <+: name.toList) : Visible rules env v name
  | own {app name : String} (named : app ∈ appNames v)
      (begins : (variablePrefix app).toList <+: name.toList) : Visible rules env v name
  /-- Of an app as it is called once everything is expanded. -/
  | secret {expanded : Value} {m : Manifest} {d : AppDeclaration}
      (expansion : expandValue (rulesFor rules v) env v = .ok expanded)
      (reading : Manifest.ofNode (.ofValue expanded) = .ok m) (declared : d ∈ m.apps) :
      Visible rules env v (secretVariable d.app.name)

theorem agree_of_visible (listed : rules.prefixes ≠ [])
    (agree : ∀ name, Visible rules env v name → env name = other name) :
    (rulesFor rules v).Agree env other := by
  intro name allowed
  apply agree
  rcases (allows_rulesFor_iff listed).mp allowed with ⟨start, among, begins⟩ | ⟨app, named, begins⟩
  · exact .listed among begins
  · exact .own named begins

theorem fillSecret_agree {app : App}
    (agree : env (secretVariable app.name) = other (secretVariable app.name)) :
    fillSecret env app = fillSecret other app := by
  simp only [fillSecret, agree]

theorem fillSecrets_agree {m : Manifest} (agree : ∀ d ∈ m.apps,
    env (secretVariable d.app.name) = other (secretVariable d.app.name)) :
    m.fillSecrets env = m.fillSecrets other := by
  have apps : m.apps.map (fun d => { d with app := fillSecret env d.app }) =
      m.apps.map fun d => { d with app := fillSecret other d.app } := by
    apply List.map_congr_left
    intro d declared
    rw [fillSecret_agree (agree d declared)]
  rw [fillSecrets, fillSecrets, apps]

theorem ofValue_agree (listed : rules.prefixes ≠ [])
    (agree : ∀ name, Visible rules env v name → env name = other name) :
    ofValue rules env v = ofValue rules other v := by
  have alike := expandValue_agree (agree_of_visible listed agree) v
  unfold ofValue
  rw [← alike]
  cases expansion : expandValue (rulesFor rules v) env v with
  | error e => rfl
  | ok expanded =>
    change ((Manifest.ofNode (.ofValue expanded)).mapError ManifestError.json >>= fun m =>
        m.validate.mapError ManifestError.invalid >>= fun _ => pure (m.fillSecrets env)) =
      ((Manifest.ofNode (.ofValue expanded)).mapError ManifestError.json >>= fun m =>
        m.validate.mapError ManifestError.invalid >>= fun _ => pure (m.fillSecrets other))
    cases reading : Manifest.ofNode (.ofValue expanded) with
    | error e => rfl
    | ok m =>
      have filled : m.fillSecrets env = m.fillSecrets other :=
        fillSecrets_agree fun d declared => agree _ (.secret expansion reading declared)
      exact congrArg (fun filled : Manifest =>
        m.validate.mapError ManifestError.invalid >>= fun _ => pure filled) filled

/-- Variables that are not visible make no difference to a manifest, nor to the error in place of
one: environments that agree on the visible ones load every text alike, whatever reads the text. -/
theorem other_variables_make_no_difference (read : TextReader) (rules : Rules)
    (env other : Environment) (format : FileFormat) (text : String) (listed : rules.prefixes ≠ [])
    (agree : ∀ v, read format text = .ok v →
      ∀ name, Visible rules env v name → env name = other name) :
    ofTextBy read rules env format text = ofTextBy read rules other format text := by
  unfold ofTextBy
  cases reading : read format text with
  | error e => rfl
  | ok v => exact ofValue_agree listed (agree v reading)

def shopText : String :=
  "\n".intercalate ["apps:", "  - name: Shop", "    rest:",
    "      url: https://$\x7bSHOP_HOST\x7d", "      oauth2_grant_type: authorization_code"]

/-- An address that refers to a further variable, a client secret, and a home or none. -/
def shopVariables (home : Option String) : Environment := fun name =>
  if name = "HOME" then home
  else Entries.lookup name [("SHOP_HOST", "$\x7bAPP_ZONE\x7d.example"), ("APP_ZONE", "eu"),
    ("SHOP_CLIENT_SECRET", "hidden")]

theorem shopVariables_of_ne {name : String} (different : name ≠ "HOME")
    (home another : Option String) :
    shopVariables home name = shopVariables another name := by
  rw [shopVariables, shopVariables, if_neg different, if_neg different]

theorem home_not_visible (named : appNames v = ["Shop"]) : ¬Visible {} env v "HOME" := by
  intro visible
  generalize home : "HOME" = name at visible
  cases visible with
  | listed among begins =>
    subst home
    have absent : ∀ start ∈ ({} : Rules).prefixes, ¬start.toList <+: "HOME".toList := by decide
    exact absent _ among begins
  | own among begins =>
    subst home
    rw [named, List.mem_singleton] at among
    subst among
    revert begins
    decide
  | secret expansion reading declared =>
    have ends : "CLIENT_SECRET".toList <:+ "HOME".toList := by
      rw [home, secretVariable, String.toList_append]
      exact List.suffix_append _ _
    revert ends
    decide

theorem home_makes_no_difference :
    let rules : Rules := {}
    let env := shopVariables (some "/home/ada")
    let other := shopVariables none
    env "HOME" ≠ other "HOME" ∧ rules.prefixes ≠ [] ∧
      (∀ v, readText .yaml shopText = .ok v →
        ∀ name, Visible rules env v name → env name = other name) ∧
      (ofText rules env .yaml shopText).isOk ∧
      ofText rules env .yaml shopText = ofText rules other .yaml shopText := by
  intro rules env other
  have names : (readText .yaml shopText).toOption.map appNames = some ["Shop"] := by
    decide +kernel
  have agree : ∀ v, readText .yaml shopText = .ok v →
      ∀ name, Visible rules env v name → env name = other name := by
    intro v reading name visible
    rw [reading] at names
    have named : appNames v = ["Shop"] := Option.some.inj names
    refine shopVariables_of_ne ?_ _ _
    rintro rfl
    exact home_not_visible named visible
  have listed : rules.prefixes ≠ [] := by decide
  have loads : (ofText rules env .yaml shopText).isOk := by decide +kernel
  exact ⟨by decide, listed, agree, loads,
    other_variables_make_no_difference readText rules env other .yaml shopText listed agree⟩

end Manifest

end ActionCatalogue
