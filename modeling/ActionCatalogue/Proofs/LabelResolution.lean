import ActionCatalogue.Proofs.NormalFixedPoint
import ActionCatalogue.Proofs.Words

/-!
Where the texts of options come from. The fields of a description are listed in pre-order, each with
its path, its name and the texts that it is given, and the options of a normalized type are listed
in the same order. Each option has the texts that its own field, the translations at its path and
its name resolve to, and no other translation makes a difference.
-/

namespace ActionCatalogue

/-- A field where it stands in a description, with the texts that it is given there. -/
structure Site where
  path : String
  name : String
  displayName : Option String := none
  shortDescription : Option String := none
  description : Option String := none

namespace TypeDescription

mutual

/-- The fields below a node at a path, in pre-order. -/
def sites (path : String) : TypeDescription → List Site
  | .named _ => []
  | .list items => itemSites (Step.item.onto path) items
  | .fields fs => fieldSites path fs

def itemSites (path : String) : List TypeDescription → List Site
  | [] => []
  | d :: rest => d.sites path ++ itemSites path rest

def fieldSites (parent : String) : List (String × FieldDescription) → List Site
  | [] => []
  | (name, { displayName, shortDescription, description, type, .. }) :: rest =>
    let path := Step.onto parent (.field name)
    ⟨path, name, displayName, shortDescription, description⟩ :: type.sites path ++
      fieldSites parent rest

end

end TypeDescription

namespace FieldDescription

def site (path name : String) (field : FieldDescription) : Site :=
  ⟨path, name, field.displayName, field.shortDescription, field.description⟩

/-- A field and the fields below it. -/
def sites (path name : String) (field : FieldDescription) : List Site :=
  field.site path name :: field.type.sites path

end FieldDescription

theorem TypeDescription.fieldSites_cons (parent name : String) (field : FieldDescription)
    (rest : List (String × FieldDescription)) : fieldSites parent ((name, field) :: rest) =
      field.sites (Step.onto parent (.field name)) name ++ fieldSites parent rest := by
  cases field
  rfl

namespace OptionType

mutual

/-- The options in a type, in pre-order. -/
def allOptions : OptionType → List ActionOption
  | .primitive _ => []
  | .list item => item.allOptions
  | .hash fields => allOfFields fields

def allOfFields : List (String × ActionOption) → List ActionOption
  | [] => []
  | (_, o) :: rest => allOfOption o ++ allOfFields rest

def allOfOption : ActionOption → List ActionOption
  | o@{ type, .. } => o :: type.allOptions

end

theorem allOfOption_eq (o : ActionOption) : allOfOption o = o :: o.type.allOptions := by
  cases o
  rfl

end OptionType

namespace Normalizer

/-- The key of a translation: the scope if there is one, the path, and what the text is for. -/
def translationKey (n : Normalizer) (path text : String) : String :=
  ".".intercalate (n.scope.toList ++ [path, text])

/-- What the translator has under a key for the locale, unless it is empty. -/
def translation (n : Normalizer) (path text : String) : Option String :=
  (n.translator n.locale (n.translationKey path text)).filter (!·.isEmpty)

theorem translated?_eq (n : Normalizer) (path text : String) :
    n.translated? path text = n.translation path text := by
  cases within : n.scope <;>
    simp only [translated?, translation, translationKey, within, Option.toList] <;> rfl

/-- The first text that there is. -/
def firstOf (texts : List (Option String)) : Option String := texts.findSome? id

/-- The texts of an option: those of its field if they are not blank, then those of the
translator, then one from another. -/
structure LabelledAt (n : Normalizer) (s : Site) (o : ActionOption) : Prop where
  name : o.name = s.name
  displayName : firstOf [s.displayName.bind Text.nonBlank?, n.translation s.path "display_name",
    some (Naming.label s.name)] = some o.displayName
  description : firstOf [s.description.bind Text.nonBlank?, n.translation s.path "desc",
    some o.shortDescription] = some o.description
  shortDescription : firstOf [s.shortDescription.bind Text.nonBlank?,
    n.translation s.path "short_desc", s.description.bind Text.nonBlank?,
    n.translation s.path "desc", some o.displayName] = some o.shortDescription
  nonempty : Naming.HasWord s.name →
    o.displayName ≠ "" ∧ o.shortDescription ≠ "" ∧ o.description ≠ ""

variable {α β γ : Type} {n : Normalizer} {sites first second : List Site}

theorem firstOf_nil : firstOf [] = none := rfl

theorem firstOf_cons (text : Option String) (texts : List (Option String)) :
    firstOf (text :: texts) = text.orElse fun _ => firstOf texts := by
  cases text <;> rfl

theorem ne_empty_of_firstOf {texts : List (Option String)} {found : String}
    (each : ∀ text ∈ texts, text ≠ some "") (first : firstOf texts = some found) : found ≠ "" := by
  rintro rfl
  obtain ⟨text, member, same⟩ := List.exists_of_findSome?_eq_some first
  exact each text member same

theorem nonBlank_ne_empty (text : Option String) : text.bind Text.nonBlank? ≠ some "" := by
  intro found
  obtain ⟨given, -, kept⟩ := Option.bind_eq_some_iff.mp found
  have visible := (Text.nonBlank?_eq_some.mp kept).1
  rw [(Text.nonBlank?_eq_some.mp kept).2.symm, Text.isBlank_empty] at visible
  exact absurd visible (by decide)

theorem translation_ne_empty (n : Normalizer) (path text : String) :
    n.translation path text ≠ some "" := by
  intro found
  have visible := (Option.filter_eq_some_iff.mp found).2
  exact absurd visible (by decide)

theorem labels_firstOf (n : Normalizer) (path name : String)
    (displayName shortDescription description : Option String) :
    let texts := n.labels path name displayName shortDescription description
    firstOf [displayName.bind Text.nonBlank?, n.translation path "display_name",
      some (Naming.label name)] = some texts.displayName ∧
    firstOf [description.bind Text.nonBlank?, n.translation path "desc",
      some texts.shortDescription] = some texts.description ∧
    firstOf [shortDescription.bind Text.nonBlank?, n.translation path "short_desc",
      description.bind Text.nonBlank?, n.translation path "desc", some texts.displayName] =
        some texts.shortDescription := by
  simp only [labels_eq, translated?_eq, preferred, firstOf_cons, firstOf_nil]
  generalize displayName.bind Text.nonBlank? = givenName
  generalize shortDescription.bind Text.nonBlank? = givenShort
  generalize description.bind Text.nonBlank? = givenLong
  refine ⟨?_, ?_, ?_⟩
  · cases givenName <;> cases n.translation path "display_name" <;> rfl
  · cases givenLong <;> cases n.translation path "desc" <;> rfl
  · cases givenShort <;> cases n.translation path "short_desc" <;> cases givenLong <;>
      cases n.translation path "desc" <;> rfl

theorem labelledAt_describedOption (n : Normalizer) (path name : String) (field : FieldDescription)
    (type : OptionType) :
    LabelledAt n (field.site path name) (n.describedOption name path field type) := by
  obtain ⟨displayName, description, shortDescription⟩ :=
    n.labels_firstOf path name field.displayName field.shortDescription field.description
  refine ⟨rfl, displayName, description, shortDescription, fun words => ?_⟩
  have labelled : Naming.label name ≠ "" := by
    rw [Ne, Naming.label_eq_empty_iff, not_not]
    exact words
  -- each text falls back to the one before, in the order of the three
  have display := ne_empty_of_firstOf (by
    simp [nonBlank_ne_empty, translation_ne_empty, labelled]) displayName
  have short := ne_empty_of_firstOf (by
    simp [nonBlank_ne_empty, translation_ne_empty, display]) shortDescription
  have long := ne_empty_of_firstOf (by
    simp [nonBlank_ne_empty, translation_ne_empty, short]) description
  exact ⟨display, short, long⟩

/-! ### Translations that are read -/

/-- The same normalizer with another translator. -/
def withTranslator (n : Normalizer) (translator : Translator) : Normalizer := { n with translator }

/-- The keys under which translations are looked up for a field. -/
def keysAt (n : Normalizer) (s : Site) : List String :=
  ["display_name", "short_desc", "desc"].map (n.translationKey s.path)

/-- A translator has the same texts for the locale under the keys of a field. -/
def AgreesAt (n : Normalizer) (translator : Translator) (s : Site) : Prop :=
  ∀ key ∈ n.keysAt s, translator n.locale key = n.translator n.locale key

/-- A translation that is read for a field: one for the locale, under one of its keys. -/
def isReadAt (n : Normalizer) (s : Site) (t : Translation) : Bool :=
  t.locale == n.locale && decide (t.key ∈ n.keysAt s)

theorem lookup_filter_isReadAt {s : Site} {key : String} (read : key ∈ n.keysAt s)
    (table : Translations) :
    Translations.lookup (table.filter (n.isReadAt s)) n.locale key = table.lookup n.locale key := by
  rw [Translations.lookup, Translations.lookup, ← List.filter_reverse, List.find?_filter]
  congr 2
  funext t
  rw [Bool.eq_iff_iff]
  simp only [isReadAt, Bool.and_eq_true, decide_eq_true_eq, beq_iff_eq]
  constructor
  · exact fun found => found.2
  · rintro ⟨locale, rfl⟩
    exact ⟨⟨locale, read⟩, locale, rfl⟩

/-- In a table, translations for other locales and under other keys make no difference. -/
theorem agreesAt_of_filter {s : Site} {table own : Translations}
    (tabled : n.translator = own.lookup)
    (same : table.filter (n.isReadAt s) = own.filter (n.isReadAt s)) :
    n.AgreesAt table.lookup s := by
  intro key read
  rw [tabled, ← lookup_filter_isReadAt read, same, lookup_filter_isReadAt read]

theorem translation_of_agreesAt {translator : Translator} {s : Site}
    (agrees : n.AgreesAt translator s) (text : String)
    (read : text ∈ ["display_name", "short_desc", "desc"]) :
    (n.withTranslator translator).translation s.path text = n.translation s.path text := by
  have same := agrees _ (List.mem_map_of_mem read)
  rw [translation, translation, ← same]
  rfl

theorem describedOption_of_agreesAt {translator : Translator} {path name : String}
    {field : FieldDescription} (agrees : n.AgreesAt translator (field.site path name))
    (type : OptionType) : (n.withTranslator translator).describedOption name path field type =
      n.describedOption name path field type := by
  have texts : (n.withTranslator translator).labels path name field.displayName
      field.shortDescription field.description = n.labels path name field.displayName
        field.shortDescription field.description := by
    have displayName := translation_of_agreesAt agrees "display_name" (by simp)
    have short := translation_of_agreesAt agrees "short_desc" (by simp)
    have long := translation_of_agreesAt agrees "desc" (by simp)
    simp only [FieldDescription.site] at displayName short long
    simp only [labels_eq, translated?_eq, displayName, short, long]
  simp only [describedOption, texts]

/-- What a normalization makes of fields: each of the options that come of it has the texts of its
field, and all depends on what the translator has for them and on nothing else of it. -/
structure Resolves (n : Normalizer) (sites : List Site) (options : α → List ActionOption)
    (run : Normalizer → Except DataError α) : Prop where
  labelled : ∀ a, run n = .ok a → List.Forall₂ (LabelledAt n) sites (options a)
  independent : ∀ translator : Translator, (∀ s ∈ sites, n.AgreesAt translator s) →
    run (n.withTranslator translator) = run n

namespace Resolves

variable {options : α → List ActionOption} {others : β → List ActionOption}
  {all : γ → List ActionOption} {x : Normalizer → Except DataError α}
  {y : Normalizer → Except DataError β}

theorem error (sites : List Site) (options : α → List ActionOption) (fault : DataError) :
    Resolves n sites options fun _ => .error fault where
  labelled := nofun
  independent _ _ := rfl

theorem ok {a : α} (empty : options a = []) : Resolves n [] options fun _ => .ok a where
  labelled b success := by
    cases success
    rw [empty]
    exact .nil
  independent _ _ := rfl

/-- The depth is limited whatever the translator is. -/
theorem shallow (resolved : Resolves n sites options x) (path : String) (depth : Nat) :
    Resolves n sites options fun m =>
      if m.maxDepth < depth then .error (m.tooDeep path) else x m where
  labelled a success := by
    split at success
    · cases success
    · exact resolved.labelled a success
  independent translator agrees := by
    rw [resolved.independent translator agrees]
    rfl

theorem map {f : α → β} (resolved : Resolves n sites options x)
    (kept : ∀ a, others (f a) = options a) :
    Resolves n sites others fun m => x m >>= fun a => .ok (f a) where
  labelled b success := by
    obtain ⟨a, first, made⟩ := exists_of_bind_eq_ok success
    cases made
    rw [kept]
    exact resolved.labelled a first
  independent translator agrees := by
    rw [resolved.independent translator agrees]

theorem append {f : α → β → γ} (one : Resolves n first options x)
    (two : Resolves n second others y) (joined : ∀ a b, all (f a b) = options a ++ others b) :
    Resolves n (first ++ second) all fun m => x m >>= fun a => y m >>= fun b => .ok (f a b) where
  labelled c success := by
    obtain ⟨a, left, success⟩ := exists_of_bind_eq_ok success
    obtain ⟨b, right, made⟩ := exists_of_bind_eq_ok success
    cases made
    rw [joined]
    exact List.rel_append (one.labelled a left) (two.labelled b right)
  independent translator agrees := by
    rw [one.independent translator fun s member => agrees s (List.mem_append_left _ member),
      two.independent translator fun s member => agrees s (List.mem_append_right _ member)]

end Resolves

/-- A field resolves where its type does. -/
theorem optionAt_resolves {path name : String} {depth : Nat} {field : FieldDescription}
    (type : Resolves n (field.type.sites path) OptionType.allOptions
      fun m => m.typeAt path depth field.type) :
    Resolves n (field.sites path name) OptionType.allOfOption
      fun m => m.optionAt name path depth field := by
  simp only [optionAt_eq]
  constructor
  case labelled =>
    intro o success
    obtain ⟨t, typed, made⟩ := exists_of_bind_eq_ok success
    cases made
    rw [OptionType.allOfOption_eq]
    exact .cons (labelledAt_describedOption n path name field t) (type.labelled t typed)
  case independent =>
    intro translator agrees
    have own := agrees _ List.mem_cons_self
    have inner := type.independent translator fun s member =>
      agrees s (List.mem_cons_of_mem _ member)
    simp only [inner, describedOption_of_agreesAt own]

mutual

theorem typeAt_resolves (n : Normalizer) (path : String) (depth : Nat) : (d : TypeDescription) →
    Resolves n (d.sites path) OptionType.allOptions fun m => m.typeAt path depth d
  | .named name => by
    simp only [typeAt]
    refine .shallow ?_ path depth
    cases PrimitiveType.ofName? name with
    | some p => exact .ok rfl
    | none => exact .error ..
  | .list [] => by
    simp only [typeAt]
    exact .shallow (.error ..) path depth
  | .list [item] => by
    have inner := typeAt_resolves n (path ++ "[]") (depth + 1) item
    have below : TypeDescription.itemSites (Step.item.onto path) [item] =
        item.sites (path ++ "[]") := List.append_nil _
    simp only [typeAt, TypeDescription.sites, below]
    exact .shallow (inner.map (f := OptionType.list) fun _ => rfl) path depth
  | .list (_ :: _ :: _) => by
    simp only [typeAt]
    exact .shallow (.error ..) path depth
  | .fields fields => by
    have inner := optionsAt_resolves n path (depth + 1) fields
    simp only [typeAt]
    exact .shallow (inner.map (f := OptionType.hash) fun _ => rfl) path depth

theorem optionsAt_resolves (n : Normalizer) (parent : String) (depth : Nat) :
    (fields : List (String × FieldDescription)) →
      Resolves n (TypeDescription.fieldSites parent fields) OptionType.allOfFields
        fun m => m.optionsAt parent depth fields
  | [] => by
    simp only [optionsAt]
    exact .ok rfl
  | (name, { type, .. }) :: rest => by
    have type := typeAt_resolves n (joinPath parent name) depth type
    simp only [optionsAt]
    rw [TypeDescription.fieldSites_cons, ← joinPath_eq]
    exact (optionAt_resolves type).append (optionsAt_resolves n parent depth rest) fun _ _ => rfl

end

/-- Every option of a normalized type or field has the texts that its field resolves to, and only
what the translator has for the locale under the keys of its path makes a difference. In a table
these are the translations for that locale and those keys. -/
theorem labels_are_resolved (n : Normalizer) (name : String) (d : TypeDescription)
    (field : FieldDescription) (fields : Entries FieldDescription) :
    Resolves n (d.sites "") OptionType.allOptions (·.normalizeType d) ∧
    Resolves n (FieldDescription.sites name name { type := d }) OptionType.allOfOption
      (·.normalize name d) ∧
    Resolves n (field.sites name name) OptionType.allOfOption (·.normalizeField name field) ∧
    Resolves n (TypeDescription.fieldSites "" fields) OptionType.allOfFields
      (·.normalizeFields fields) ∧
    ∀ (s : Site) (table own : Translations), n.translator = own.lookup →
      table.filter (n.isReadAt s) = own.filter (n.isReadAt s) → n.AgreesAt table.lookup s := by
  have bare : Resolves n (FieldDescription.sites name name { type := d }) OptionType.allOfOption
      fun m => m.optionAt name name 0 { type := d } :=
    optionAt_resolves (typeAt_resolves n name 0 d)
  simp only [optionAt_eq] at bare
  exact ⟨typeAt_resolves n "" 0 d, bare, optionAt_resolves (typeAt_resolves n name 0 field.type),
    optionsAt_resolves n "" 0 fields, fun _ _ _ => agreesAt_of_filter⟩

/-- A normalizer with translations for the addresses of contacts. -/
def inContacts : Normalizer where
  scope := some "crm.add"
  translations := [⟨"en", "crm.add.contacts[].email.desc", "Where to write to."⟩,
    ⟨"en", "crm.add.contacts[].email.short_desc", ""⟩]

/-- Translations for another locale, without the scope, and for a path outside of the list. -/
def notInContacts : Translations :=
  [⟨"de", "crm.add.contacts.desc", "Kontakte"⟩, ⟨"en", "contacts.desc", "Contacts"⟩,
    ⟨"en", "crm.add.contacts.email.desc", "An address."⟩]

def contacts : TypeDescription :=
  .fields [("contacts", { type := .list [.fields
    [("email", { type := .named "string", displayName := some "E-mail", description := some " " }),
      ("first_name", { type := .named "string" })]] })]

/-- The type of `contacts`, in which addresses have the text of the translation. -/
def contactOptions : OptionType :=
  .hash [("contacts",
    { name := "contacts", displayName := "Contacts", shortDescription := "Contacts"
      description := "Contacts"
      type := .list (.hash
        [("email",
          { name := "email", displayName := "E-mail", shortDescription := "Where to write to."
            description := "Where to write to.", type := .primitive { base := .string } }),
        ("first_name",
          { name := "first_name", displayName := "First Name", shortDescription := "First Name"
            description := "First Name", type := .primitive { base := .string } })]) })]

theorem normalizeType_contacts : inContacts.normalizeType contacts = .ok contactOptions := by
  rfl

theorem contacts_are_resolved :
    (contacts.sites "").map (·.path) = ["contacts", "contacts[].email", "contacts[].first_name"] ∧
    List.Forall₂ (LabelledAt inContacts) (contacts.sites "") contactOptions.allOptions ∧
    (inContacts.withTranslator
      (Translations.lookup (notInContacts ++ inContacts.translations))).normalizeType contacts =
      .ok contactOptions := by
  obtain ⟨resolved, -, -, -, undisturbed⟩ := labels_are_resolved inContacts "" contacts
    { type := contacts } []
  have unread : ∀ s ∈ contacts.sites "", ∀ t ∈ notInContacts, inContacts.isReadAt s t = false := by
    decide
  have same : ∀ s ∈ contacts.sites "", (notInContacts ++ inContacts.translations).filter
      (inContacts.isReadAt s) = inContacts.translations.filter (inContacts.isReadAt s) := by
    intro s member
    have passedOver : notInContacts.filter (inContacts.isReadAt s) = [] := by
      simpa using unread s member
    rw [List.filter_append, passedOver, List.nil_append]
  refine ⟨rfl, resolved.labelled contactOptions normalizeType_contacts, ?_⟩
  rw [← normalizeType_contacts]
  exact resolved.independent _ fun s member => undisturbed s _ _ rfl (same s member)

end Normalizer

end ActionCatalogue
