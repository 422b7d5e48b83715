import ActionCatalogue.Proofs.ExactNormalization
import ActionCatalogue.Proofs.TypeRoundTrip

/-!
Normalized types are normal. The JSON form of a normalized type is also that of a description, whose
fields have the texts of the options. The same normalizer makes the same type of it: a text that is
not blank is kept, and in the place of a blank one the text is found that was found before.
-/

namespace ActionCatalogue

open Json

/-! ### Types as descriptions -/

namespace OptionType

mutual

/-- The description that the JSON form of a type is read as. -/
def asDescription : OptionType → TypeDescription
  | .primitive p => .named p.text
  | .list item => .list [item.asDescription]
  | .hash fields => .fields (asFields fields)

def asFields : List (String × ActionOption) → List (String × FieldDescription)
  | [] => []
  | (key, o) :: rest => (key, optionAsField o) :: asFields rest

def optionAsField : ActionOption → FieldDescription
  | { displayName, shortDescription, description, type, defaultValue, exampleValue, allowedValues,
      dependsOn, required, preselected, .. } =>
    { displayName := some displayName, shortDescription := some shortDescription,
      description := some description, type := type.asDescription, defaultValue, exampleValue,
      allowedValues, dependsOn, required, preselected }

end

theorem asFields_eq_map (fields : List (String × ActionOption)) :
    asFields fields = fields.map fun field => (field.1, optionAsField field.2) := by
  induction fields with
  | nil => rfl
  | cons field rest ih => rw [asFields, ih, List.map_cons]

end OptionType

namespace ActionOption

/-- The field that the JSON form of an option is read as. Its name is passed over. -/
def asField (o : ActionOption) : FieldDescription := OptionType.optionAsField o

theorem asField_eq (o : ActionOption) : o.asField =
    { displayName := some o.displayName, shortDescription := some o.shortDescription,
      description := some o.description, type := o.type.asDescription,
      defaultValue := o.defaultValue, exampleValue := o.exampleValue,
      allowedValues := o.allowedValues, dependsOn := o.dependsOn, required := o.required,
      preselected := o.preselected } := by
  cases o
  rfl

@[simp] theorem asField_type (o : ActionOption) : o.asField.type = o.type.asDescription := by
  rw [asField_eq]

end ActionOption

theorem FieldDescription.ofNode_members {o : ActionOption} (storable : o.Storable)
    (back : TypeDescription.ofNode (.ofValue o.type.toJson) = .ok o.type.asDescription) :
    FieldDescription.ofNode (.ofValue (.object o.members)) = .ok o.asField := by
  refine Record.asRecord_object fun r shown => ?_
  have names := o.nodup_keys_members
  have text : ∀ {name s : String}, Entries.lookup name o.members = some (.text s) →
      (r.optional name Node.asText).Give (some s) :=
    fun written => Record.optional_give_some shown names written (by simp) rfl
  have displayName : (r.optional "display_name" Node.asText).Give (some o.displayName) :=
    text (by simp [ActionOption.members])
  have short : (r.optional "short_desc" Node.asText).Give (some o.shortDescription) :=
    text (by simp [ActionOption.members])
  have long : (r.optional "desc" Node.asText).Give (some o.description) :=
    text (by simp [ActionOption.members])
  have type : (r.requiredPart "type" fun v _ => TypeDescription.ofNode v).Give
      o.type.asDescription :=
    Record.requiredPart_give shown names (by simp [ActionOption.members]) fun _ => back
  have given := storable.given shown
  rw [ActionOption.asField_eq]
  exact (((((((((displayName.map _).seq short).seq long).seq type).seq given.defaultValue).seq
    given.exampleValue).seq given.allowedValues).seq given.dependsOn).seq given.required).seq
    given.preselected

namespace TypeDescription

theorem ofNode_list {items : List Value} {ds : List TypeDescription}
    (read : (Node.ofValue (.list items)).asListOf ofNode = .ok ds) :
    ofNode (.ofValue (.list items)) = .ok (.list ds) := by
  have run : ofNode (.ofValue (.list items)) =
      Node.withoutReason ((Node.ofValue (.list items)).asListOf ofNode) >>= fun ds =>
        .ok (.list ds) := by
    unfold ofNode
    rfl
  rw [run, read]
  rfl

theorem ofNode_object {members : Object} {fields : Entries FieldDescription}
    (read : (Node.ofValue (.object members)).asMapOf FieldDescription.ofNode = .ok fields) :
    ofNode (.ofValue (.object members)) = .ok (.fields fields) := by
  have run : ofNode (.ofValue (.object members)) =
      Node.withoutReason ((Node.ofValue (.object members)).asMapOf FieldDescription.ofNode) >>=
        fun fields => .ok (.fields fields) := by
    unfold ofNode
    rfl
  rw [run, read]
  rfl

/-- A type that can be stored is read as a description. -/
theorem ofNode_toJson {t : OptionType} (storable : t.Storable) :
    ofNode (.ofValue t.toJson) = .ok t.asDescription := by
  induction storable with
  | primitive _ =>
    unfold ofNode
    rfl
  | list _ ih => exact ofNode_list (Node.asListOf_ofValue.mpr (.cons ih .nil))
  | @hash fields distinct _ options _ ih =>
    rw [OptionType.toJson, OptionType.fieldsToJson_eq_map]
    refine ofNode_object (Node.asMapOf_ofValue.mpr ⟨OptionType.asFields fields, ?_, ?_⟩)
    · rw [OptionType.asFields_eq_map, List.forall₂_map_left_iff, List.forall₂_map_right_iff,
        List.forall₂_same]
      rintro ⟨key, o⟩ member
      refine ⟨rfl, ?_⟩
      rw [ActionOption.toJson_eq]
      exact FieldDescription.ofNode_members (options key o member) (ih key o member)
    · refine Entries.ofPairs_of_nodup ?_
      simpa [OptionType.asFields_eq_map, Entries.keys, Function.comp_def] using distinct

end TypeDescription

/-! ### Plain descriptions -/

/-- A field without functions and without nulls that stand for values. -/
structure FieldDescription.Plain (f : FieldDescription) : Prop where
  getAllowedValues : f.getAllowedValues = none
  getDependentOptions : f.getDependentOptions = none
  defaultValue : Value.Kept f.defaultValue
  exampleValue : Value.Kept f.exampleValue
  allowedValues : ∀ v ∈ f.allowedValues, v.value.Distinct

/-- Descriptions all of whose fields are plain. Keys are distinct, as in every map that the program
keeps. -/
inductive TypeDescription.Plain : TypeDescription → Prop
  | named (name : String) : Plain (.named name)
  | list {items : List TypeDescription} (all : ∀ item ∈ items, Plain item) : Plain (.list items)
  | fields {fields : List (String × FieldDescription)} (distinct : (Entries.keys fields).Nodup)
      (own : ∀ key f, (key, f) ∈ fields → f.Plain)
      (types : ∀ key f, (key, f) ∈ fields → Plain f.type) : Plain (.fields fields)

namespace Normalizer

/-! ### Texts -/

/-- A text that is given, unless it is blank, or else another one. -/
def preferred (given other : Option String) : Option String :=
  (given.bind Text.nonBlank?).orElse fun _ => other

theorem preferred_of_nonBlank {text : String} (visible : Text.isBlank text = false)
    (other : Option String) : preferred (some text) other = some text := by
  simp [preferred, Text.nonBlank?, visible]

theorem preferred_of_blank {text : String} (blank : Text.isBlank text = true)
    (other : Option String) : preferred (some text) other = other := by
  simp [preferred, Text.nonBlank?, blank]

/-- Where the text that is found is blank, it is not the one that was given. -/
theorem preferred_eq_other {given other : Option String} {default : String}
    (blank : Text.isBlank ((preferred given other).getD default) = true) :
    preferred given other = other := by
  cases found : given.bind Text.nonBlank? with
  | none => simp [preferred, found]
  | some text =>
    obtain ⟨s, -, kept⟩ := Option.bind_eq_some_iff.mp found
    obtain ⟨visible, rfl⟩ := Text.nonBlank?_eq_some.mp kept
    simp [preferred, found, visible] at blank

theorem preferred_again (given other : Option String) (default : String) :
    (preferred (some ((preferred given other).getD default)) other).getD default =
      (preferred given other).getD default := by
  cases blank : Text.isBlank ((preferred given other).getD default) with
  | false => rw [preferred_of_nonBlank blank, Option.getD_some]
  | true => rw [preferred_of_blank blank, preferred_eq_other blank]

/-- Where the default is blank, whether there is a text at all is found again too. -/
theorem preferred_again_of_blank (given other : Option String) {default : String}
    (blank : Text.isBlank default = true) :
    preferred (some ((preferred given other).getD default)) other = preferred given other := by
  cases covered : Text.isBlank ((preferred given other).getD default) with
  | true => rw [preferred_of_blank covered, preferred_eq_other covered]
  | false =>
    rw [preferred_of_nonBlank covered]
    cases found : preferred given other with
    | some text => rfl
    | none => simp [found, blank] at covered

variable {n : Normalizer}

theorem labels_eq (n : Normalizer) (path name : String)
    (displayName shortDescription description : Option String) :
    n.labels path name displayName shortDescription description =
      let display := (preferred displayName (n.translated? path "display_name")).getD
        (Naming.label name)
      let long := preferred description (n.translated? path "desc")
      let short := (preferred shortDescription
        ((n.translated? path "short_desc").orElse fun _ => long)).getD display
      ⟨display, short, long.getD short⟩ := by
  simp only [labels, preferred]
  cases shortDescription.bind Text.nonBlank? <;> rfl

/-- The texts of an option are found again. -/
theorem labels_again (n : Normalizer) (path name : String)
    (displayName shortDescription description : Option String) :
    let texts := n.labels path name displayName shortDescription description
    n.labels path name (some texts.displayName) (some texts.shortDescription)
      (some texts.description) = texts := by
  simp only [labels_eq, preferred_again]
  generalize (preferred displayName (n.translated? path "display_name")).getD
    (Naming.label name) = display
  generalize n.translated? path "short_desc" = shortOther
  generalize n.translated? path "desc" = longOther
  generalize found : (preferred shortDescription (shortOther.orElse fun _ =>
    preferred description longOther)).getD display = short
  have shortAgain : (preferred (some short) (shortOther.orElse fun _ => preferred
      (some ((preferred description longOther).getD short)) longOther)).getD display = short := by
    cases blank : Text.isBlank short with
    | false => rw [preferred_of_nonBlank blank, Option.getD_some]
    | true => rw [preferred_again_of_blank description longOther blank, ← found, preferred_again]
  rw [shortAgain, preferred_again description longOther short]

/-- A text, or another one in the place of an empty one. -/
def filled (text other : String) : String := if text.isEmpty then other else text

theorem filled_filled (text other : String) :
    filled (filled text other) other = filled text other := by
  by_cases empty : text.isEmpty <;> simp [filled, empty]

theorem fillAllowedValue_eq (v : AllowedValue) : fillAllowedValue v =
    let display := filled v.displayName v.valueText
    let short := filled v.shortDescription display
    ⟨v.value, display, short, filled v.description short⟩ := rfl

theorem fillAllowedValue_again (v : AllowedValue) :
    fillAllowedValue (fillAllowedValue v) = fillAllowedValue v := by
  simp only [fillAllowedValue_eq, AllowedValue.valueText, filled_filled]

/-! ### Options -/

theorem describedOption_again {field : FieldDescription} (plain : field.Plain) (n : Normalizer)
    (name path : String) (type : OptionType) :
    n.describedOption name path (n.describedOption name path field type).asField type =
      n.describedOption name path field type := by
  have texts := n.labels_again path name field.displayName field.shortDescription field.description
  have values : (field.allowedValues.map fillAllowedValue).map fillAllowedValue =
      field.allowedValues.map fillAllowedValue := by
    simp [fillAllowedValue_again]
  rw [ActionOption.asField_eq]
  simp only [describedOption, texts, values, plain.getAllowedValues, plain.getDependentOptions]

theorem storable_describedOption {field : FieldDescription} (plain : field.Plain) (n : Normalizer)
    (name path : String) (type : OptionType) :
    (n.describedOption name path field type).Storable where
  getAllowedValues := plain.getAllowedValues
  getDependentOptions := plain.getDependentOptions
  defaultValue := plain.defaultValue
  exampleValue := plain.exampleValue
  allowedValues := by
    intro v member
    obtain ⟨w, among, rfl⟩ := List.mem_map.mp member
    exact plain.allowedValues w among

theorem optionAt_eq_ok_iff {name path : String} {depth : Nat} {field : FieldDescription}
    {o : ActionOption} : n.optionAt name path depth field = .ok o ↔
      ∃ type, n.typeAt path depth field.type = .ok type ∧
        n.describedOption name path field type = o := by
  rw [optionAt_eq]
  cases n.typeAt path depth field.type <;> simp [bind, Except.bind]

theorem optionsAt_eq_ok_iff {parent : String} {depth : Nat}
    {fields : List (String × FieldDescription)} {options : List (String × ActionOption)} :
    n.optionsAt parent depth fields = .ok options ↔
      List.Forall₂ (fun field option => field.1 = option.1 ∧
        n.optionAt field.1 (joinPath parent field.1) depth field.2 = .ok option.2)
        fields options := by
  induction fields generalizing options with
  | nil => cases options <;> simp [optionsAt]
  | cons field rest ih =>
    obtain ⟨name, field⟩ := field
    rw [optionsAt]
    constructor
    · intro success
      obtain ⟨o, first, success⟩ := exists_of_bind_eq_ok success
      obtain ⟨others, followed, success⟩ := exists_of_bind_eq_ok success
      cases success
      exact .cons ⟨rfl, first⟩ (ih.mp followed)
    · rintro (_ | ⟨⟨rfl, first⟩, followed⟩)
      rw [first, ih.mpr followed]
      rfl

/-- A check of the depth that is passed. -/
theorem shallow_eq_ok_iff {depth : Nat} {e : DataError} {t : OptionType}
    {outcome : Except DataError OptionType} :
    (if n.maxDepth < depth then .error e else outcome) = .ok t ↔
      depth ≤ n.maxDepth ∧ outcome = .ok t := by
  split
  next deep => simp [Nat.not_le.mpr deep]
  next shallow => simp [Nat.le_of_not_lt shallow]

theorem typeAt_named_eq_ok_iff {path name : String} {depth : Nat} {t : OptionType} :
    n.typeAt path depth (.named name) = .ok t ↔
      depth ≤ n.maxDepth ∧ ∃ p, PrimitiveType.ofName? name = some p ∧ .primitive p = t := by
  rw [typeAt, shallow_eq_ok_iff]
  cases PrimitiveType.ofName? name <;> simp

theorem typeAt_list_eq_ok_iff {path : String} {depth : Nat} {items : List TypeDescription}
    {t : OptionType} : n.typeAt path depth (.list items) = .ok t ↔
      depth ≤ n.maxDepth ∧ ∃ item type, items = [item] ∧
        n.typeAt (path ++ "[]") (depth + 1) item = .ok type ∧ .list type = t := by
  rcases items with _ | ⟨item, _ | ⟨second, rest⟩⟩
  · rw [typeAt, shallow_eq_ok_iff] <;> simp
  · rw [typeAt, shallow_eq_ok_iff]
    cases inner : n.typeAt (path ++ "[]") (depth + 1) item <;>
      simp [inner, bind, Except.bind, pure, Except.pure]
  · rw [typeAt, shallow_eq_ok_iff] <;> simp

theorem typeAt_fields_eq_ok_iff {path : String} {depth : Nat}
    {fields : List (String × FieldDescription)} {t : OptionType} :
    n.typeAt path depth (.fields fields) = .ok t ↔
      depth ≤ n.maxDepth ∧ ∃ options, n.optionsAt path (depth + 1) fields = .ok options ∧
        .hash options = t := by
  rw [typeAt, shallow_eq_ok_iff]
  cases n.optionsAt path (depth + 1) fields <;> simp [bind, Except.bind, pure, Except.pure]

/-- What comes of a plain field comes of it again, if that is so of its type. -/
theorem optionAt_again {field : FieldDescription} (plain : field.Plain) {name path : String}
    {depth : Nat} {o : ActionOption} (normalized : n.optionAt name path depth field = .ok o)
    (inner : ∀ {type}, n.typeAt path depth field.type = .ok type →
      type.Storable ∧ n.typeAt path depth type.asDescription = .ok type) :
    o.Storable ∧ o.type.Storable ∧ o.name = name ∧
      n.optionAt name path depth o.asField = .ok o := by
  obtain ⟨type, typed, rfl⟩ := optionAt_eq_ok_iff.mp normalized
  obtain ⟨storable, again⟩ := inner typed
  have typedAgain :
      n.typeAt path depth (n.describedOption name path field type).asField.type = .ok type := by
    rwa [ActionOption.asField_type]
  exact ⟨storable_describedOption plain .., storable, rfl,
    optionAt_eq_ok_iff.mpr ⟨type, typedAgain, describedOption_again plain ..⟩⟩

/-- The type of a plain description can be stored, and it is its own type. -/
theorem typeAt_again {d : TypeDescription} (plain : d.Plain) {path : String} {depth : Nat}
    {t : OptionType} (normalized : n.typeAt path depth d = .ok t) :
    t.Storable ∧ n.typeAt path depth t.asDescription = .ok t := by
  induction plain generalizing path depth t with
  | named name =>
    obtain ⟨shallow, p, found, rfl⟩ := typeAt_named_eq_ok_iff.mp normalized
    obtain ⟨allowed, rfl⟩ := PrimitiveType.ofName?_eq_some_iff.mp found
    exact ⟨.primitive allowed, normalized⟩
  | list _ ih =>
    obtain ⟨shallow, item, type, rfl, inner, rfl⟩ := typeAt_list_eq_ok_iff.mp normalized
    obtain ⟨storable, again⟩ := ih item List.mem_cons_self inner
    exact ⟨.list storable, typeAt_list_eq_ok_iff.mpr ⟨shallow, _, _, rfl, again, rfl⟩⟩
  | @fields fields distinct own _ ih =>
    obtain ⟨shallow, options, inner, rfl⟩ := typeAt_fields_eq_ok_iff.mp normalized
    have each := optionsAt_eq_ok_iff.mp inner
    have keys : Entries.keys fields = Entries.keys options := by
      refine List.forall₂_eq_eq_eq ▸ ?_
      exact List.forall₂_map_left_iff.mpr
        (List.forall₂_map_right_iff.mpr (each.imp fun _ _ found => found.1))
    -- an option has its key for its name, so the path and the texts are those of the first time
    have once : ∀ key o, (key, o) ∈ options → o.Storable ∧ o.type.Storable ∧ o.name = key ∧
        n.optionAt key (joinPath path key) (depth + 1) o.asField = .ok o := by
      intro _ o member
      obtain ⟨⟨key, field⟩, among, rfl, success⟩ := Pass.exists_of_mem_right each member
      exact optionAt_again (own key field among) success (ih key field among)
    refine ⟨.hash (keys ▸ distinct) ?_ ?_ ?_, ?_⟩
    · intro key o member nameless
      exact (once key o member).2.2.1 ▸ nameless
    · exact fun key o member => (once key o member).1
    · exact fun key o member => (once key o member).2.1
    · refine typeAt_fields_eq_ok_iff.mpr ⟨shallow, options, optionsAt_eq_ok_iff.mpr ?_, rfl⟩
      rw [OptionType.asFields_eq_map, List.forall₂_map_left_iff, List.forall₂_same]
      exact fun ⟨key, o⟩ member => ⟨rfl, (once key o member).2.2.2⟩

/-- A normalized type is normal: what it writes in JSON is read as a description, of which the same
normalizer makes the type again. -/
theorem normalized_type_is_normal (n : Normalizer) (d : TypeDescription) (t : OptionType)
    (plain : d.Plain) (normalized : n.normalizeType d = .ok t) :
    ∃ again, TypeDescription.ofNode (.ofValue t.toJson) = .ok again ∧
      n.normalizeType again = .ok t := by
  obtain ⟨storable, again⟩ := typeAt_again plain normalized
  exact ⟨t.asDescription, TypeDescription.ofNode_toJson storable, again⟩

/-- A translation that is blank stands in for a description that is blank, both times. -/
theorem translated_folder_is_normal :
    let n : Normalizer :=
      { scope := some "files", translations := [⟨"en", "files.parent_folder.desc", " "⟩] }
    let d : TypeDescription := .fields [("parent_folder",
      { type := .list [.named "*string"], description := some "\t",
        defaultValue := some (.list []), allowedValues := [{ value := .text "home" }] })]
    let t : OptionType := .hash [("parent_folder",
      { name := "parent_folder", displayName := "Parent Folder", shortDescription := " ",
        description := " ", type := .list (.primitive { base := .string, nullable := true }),
        defaultValue := some (.list []),
        allowedValues := [AllowedValue.labelled (.text "home") "home"] })]
    n.normalizeType d = .ok t ∧ ∃ again, TypeDescription.ofNode (.ofValue t.toJson) = .ok again ∧
      n.normalizeType again = .ok t := by
  intro n d t
  have normalized : n.normalizeType d = .ok t := by
    rfl
  have plain : d.Plain := by
    refine .fields (by simp [Entries.keys]) ?_ ?_ <;> intro key f member <;>
      cases List.mem_singleton.mp member
    · exact ⟨rfl, rfl, by simp [Value.Distinct, Value.DistinctItems], by simp,
        by simp [Value.Distinct]⟩
    · refine .list fun item member => ?_
      cases List.mem_singleton.mp member
      exact .named "*string"
  exact ⟨normalized, normalized_type_is_normal n d t plain normalized⟩

end Normalizer

end ActionCatalogue
