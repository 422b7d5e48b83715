import ActionCatalogue.Proofs.LenientBuild
import ActionCatalogue.Proofs.Words

/-!
What derived actions are called. The name of an operation's action is the key of a text with a word
in it, whatever the identifier of the operation and its path are, as every method is written in
letters. So the name is a key, and its label says something where the document has no texts.
-/

namespace ActionCatalogue

open Text

/-- None of the texts that an action shows is blank. -/
structure Action.Labelled (a : Action) : Prop where
  displayName : isBlank a.displayName = false
  shortDescription : isBlank a.shortDescription = false
  description : isBlank a.description = false

theorem isBlank_getD (text : Option String) {fallback : String}
    (filled : isBlank fallback = false) :
    isBlank ((text.bind nonBlank?).getD fallback) = false := by
  cases found : text.bind nonBlank? with
  | none => exact filled
  | some t =>
    obtain ⟨given, -, picked⟩ := Option.bind_eq_some_iff.mp found
    obtain ⟨filled, rfl⟩ := nonBlank?_eq_some.mp picked
    exact filled

/-- The display name is what the other two texts fall back to, so it decides. -/
theorem Action.labelled_withLabels {a : Action} {displayName short long : Option String} :
    (a.withLabels displayName short long).Labelled ↔
      isBlank ((displayName.bind nonBlank?).getD a.displayName) = false := by
  constructor
  · exact fun labelled => labelled.displayName
  · intro filled
    have longer := isBlank_getD long filled
    have shorter : (a.withLabels displayName short long).shortDescription =
        (short.bind nonBlank?).getD ((long.bind nonBlank?).getD
          ((displayName.bind nonBlank?).getD a.displayName)) := by
      rw [Action.withLabels]
      cases short.bind nonBlank? <;> rfl
    have shown := isBlank_getD short longer
    rw [← shorter] at shown
    exact ⟨filled, shown, isBlank_getD long shown⟩

namespace Swagger

open Naming

theorem hasWord_method (method : Method) (path : String) :
    HasWord (method.name ++ " " ++ path) := by
  have letter : ∃ c ∈ method.name.toList, Ascii.isAlphanumeric c = true := by
    cases method <;> exact ⟨_, List.mem_cons_self, rfl⟩
  obtain ⟨c, member, alphanumeric⟩ := letter
  exact ⟨c, by simp [member], alphanumeric⟩

theorem actionName_of_words {path id : String} {method : Method} {op : Operation}
    (given : op.id = some id) (words : HasWord id) : actionName path method op = key id := by
  have filled : (key id).isEmpty = false := by
    simpa [key_eq_empty_iff] using words
  simp [actionName, given, filled]

theorem actionName_of_wordless {path : String} {method : Method} {op : Operation}
    (wordless : ∀ id, op.id = some id → ¬HasWord id) :
    actionName path method op = key (method.name ++ " " ++ path) := by
  cases given : op.id with
  | none => simp [actionName, given]
  | some id =>
    have empty : key id = "" := key_eq_empty_iff.mpr (wordless id given)
    simp [actionName, given, empty]

/-- The name is the key of a text with a word: the identifier, else the method and the path. -/
theorem actionName_eq_key (path : String) (method : Method) (op : Operation) :
    ∃ s, HasWord s ∧ actionName path method op = key s := by
  by_cases words : ∃ id, op.id = some id ∧ HasWord id
  · obtain ⟨id, given, words⟩ := words
    exact ⟨id, words, actionName_of_words given words⟩
  · have wordless : ∀ id, op.id = some id → ¬HasWord id := by simpa using words
    exact ⟨_, hasWord_method method path, actionName_of_wordless wordless⟩

theorem hasWord_actionName (path : String) (method : Method) (op : Operation) :
    HasWord (actionName path method op) := by
  obtain ⟨s, words, named⟩ := actionName_eq_key path method op
  rw [named]
  exact hasWord_key.mpr words

theorem isKey_actionName (path : String) (method : Method) (op : Operation) :
    IsKey (actionName path method op) := by
  obtain ⟨s, words, named⟩ := actionName_eq_key path method op
  rw [named]
  exact isKey_key words

theorem key_actionName (path : String) (method : Method) (op : Operation) :
    key (actionName path method op) = actionName path method op := by
  obtain ⟨s, -, named⟩ := actionName_eq_key path method op
  rw [named, key_key]

theorem displayName_toAction (a : Descriptor) (app : String) :
    (a.toAction app).displayName = (a.summary.bind nonBlank?).getD (label a.name) := rfl

/-- The texts come from the summary or from the words of the name. -/
theorem labelled_toAction (a : Descriptor) (app : String) :
    (a.toAction app).Labelled ↔
      (∃ summary, a.summary = some summary ∧ isBlank summary = false) ∨ HasWord a.name := by
  have texts : (a.toAction app).Labelled ↔
      isBlank ((a.summary.bind nonBlank?).getD (label a.name)) = false := by
    constructor
    · exact fun labelled => labelled.displayName
    · intro filled
      have shown : ((Action.ofKind app a.name (.swagger a.swaggerPath)).withLabels a.summary
          a.summary a.description).Labelled := Action.labelled_withLabels.mpr filled
      exact ⟨shown.displayName, shown.shortDescription, shown.description⟩
  rw [texts, ← isBlank_label]
  cases given : a.summary with
  | none => simp
  | some summary => by_cases blank : isBlank summary = true <;> simp [nonBlank?, blank]

/-- A derived action has the words of its name, whatever texts the operation has. -/
theorem labelled_of_describe {d : Document} {n : Normalizer} {e : Endpoint} {a : Descriptor}
    (built : describe d n e = .ok a) (app : String) : (a.toAction app).Labelled := by
  refine (labelled_toAction a app).mpr (.inr ?_)
  rw [describe_name built]
  exact hasWord_actionName e.path e.method e.operation

/-- The action of every operation has a name in the form of keys and texts that say something. -/
theorem derived_actions_are_named_and_labelled :
    (∀ (path : String) (method : Method) (op : Operation),
      actionName path method op ≠ "" ∧ IsKey (actionName path method op) ∧
      key (actionName path method op) = actionName path method op ∧
      (∀ id, op.id = some id → HasWord id → actionName path method op = key id) ∧
      ((∀ id, op.id = some id → ¬HasWord id) →
        actionName path method op = key (method.name ++ " " ++ path))) ∧
    (∀ (a : Descriptor) (app : String),
      (∀ summary, a.summary = some summary → isBlank summary = false →
        (a.toAction app).displayName = summary) ∧
      ((a.toAction app).Labelled ↔
        (∃ summary, a.summary = some summary ∧ isBlank summary = false) ∨ HasWord a.name)) ∧
    (∀ (d : Document) (n : Normalizer) (e : Endpoint) (a : Descriptor) (app : String),
      describe d n e = .ok a →
      (a.toAction app).name = actionName e.path e.method e.operation ∧
      (a.toAction app).Labelled) ∧
    ∀ (d : Document) (s : Settings) (app : String),
      ∀ action ∈ (build d s).toActions app, IsKey action.name ∧ action.Labelled := by
  refine ⟨fun path method op => ⟨?_, isKey_actionName path method op, key_actionName path method op,
    fun _ => actionName_of_words, actionName_of_wordless⟩,
    fun a app => ⟨?_, labelled_toAction a app⟩, ?_, ?_⟩
  · intro empty
    have words := hasWord_actionName path method op
    rw [empty] at words
    simp [HasWord] at words
  · intro summary given filled
    rw [displayName_toAction, given, Option.bind_some, nonBlank?_eq_some.mpr ⟨filled, rfl⟩]
    rfl
  · intro d n e a app built
    exact ⟨describe_name built, labelled_of_describe built app⟩
  · intro d s app action member
    obtain ⟨a, stored, rfl⟩ := List.mem_map.mp member
    obtain ⟨e, -, built⟩ := (build_accounts d s).kept a stored
    have name : (a.toAction app).name = actionName e.path e.method e.operation :=
      describe_name built
    rw [name]
    exact ⟨isKey_actionName e.path e.method e.operation, labelled_of_describe built app⟩

/-- An operation whose identifier has no words, at a path with letters outside of ASCII. -/
def renamePet : Endpoint where
  path := "/größe/{petId}"
  item := {}
  method := .patch
  operation := { id := some "→ ♯", summary := some " ", description := some "Renames it." }

/-- The action of `renamePet`. -/
def renamePetAction : Descriptor where
  name := "patch_gr_e_pet_id"
  path := "/größe/{petId}"
  method := .patch
  operationId := some "→ ♯"
  summary := some " "
  description := some "Renames it."

theorem describe_renamePet : describe {} {} renamePet = .ok renamePetAction := by
  rfl

theorem renamePet_is_named_and_labelled :
    (∀ id, renamePet.operation.id = some id → ¬HasWord id) ∧
    actionName "/größe/{petId}" .patch renamePet.operation = key "PATCH /größe/{petId}" ∧
    IsKey (actionName "/größe/{petId}" .patch renamePet.operation) ∧
    describe {} {} renamePet = .ok renamePetAction ∧
    (renamePetAction.toAction "Shop").displayName = "Patch Gr E Pet Id" ∧
    (renamePetAction.toAction "Shop").Labelled := by
  obtain ⟨names, -, derived, -⟩ := derived_actions_are_named_and_labelled
  obtain ⟨-, isKey, -, -, fallback⟩ := names "/größe/{petId}" .patch renamePet.operation
  have wordless : ∀ id, renamePet.operation.id = some id → ¬HasWord id := by
    rintro _ ⟨⟩
    exact wordsOf_eq_nil_iff.mp rfl
  exact ⟨wordless, fallback wordless, isKey, describe_renamePet, rfl,
    (derived {} {} renamePet renamePetAction "Shop" describe_renamePet).2⟩

end Swagger

end ActionCatalogue
