import ActionCatalogue.Proofs.FieldOrigins

/-!
Which fields of a composite are required. A field of a composite is taken as a whole from where it
stands last: from the composite's own properties, or else from the last of its parts that has it.
There it is required or not. So a requirement is lost where a later part or an own property has the
field again and does not require it, and a list of required names has no say over the fields of
parts.
-/

namespace ActionCatalogue.Swagger

open Schema (FieldOf Gives)

variable {d : Document} {active : List String} {s part : Schema} {name : String}
  {field : FieldDescription} {fields given : Entries FieldDescription}

namespace Document

/-- A part of a composite has a field under a name. -/
def Provides (d : Document) (active : List String) (part : Schema) (name : String)
    (field : FieldDescription) : Prop :=
  ∃ fields, d.convert active part = .ok (.fields fields) ∧
    Entries.lookup name fields.reverse = some field

/-- A composite requires a name: it lists the name, or has a part with a required field of it. -/
inductive Requires (d : Document) (active : List String) (s : Schema) (name : String) : Prop
  | listed (member : name ∈ s.required)
  | part {part : Schema} {field : FieldDescription} (member : part ∈ s.allOf)
      (provides : d.Provides active part name field) (required : field.required)

/-- A composite requires a name where it has the field last. -/
inductive RequiresLast (d : Document) (active : List String) (s : Schema) (name : String) : Prop
  | own (isProperty : name ∈ Entries.keys s.properties) (listed : name ∈ s.required)
  | part {before after : List Schema} {part : Schema} {field : FieldDescription}
      (noProperty : name ∉ Entries.keys s.properties) (split : s.allOf = before ++ part :: after)
      (provides : d.Provides active part name field) (required : field.required)
      (last : ∀ later ∈ after, ∀ other, ¬d.Provides active later name other)

/-- All fields are required that a composite requires. -/
def KeepsRequirements (d : Document) (active : List String) (s : Schema)
    (fields : Entries FieldDescription) : Prop :=
  ∀ name field, Entries.lookup name fields = some field → d.Requires active s name → field.required

theorem provides_iff (gives : Gives (d.convert active) part given) :
    d.Provides active part name field ↔ Entries.lookup name given.reverse = some field := by
  constructor
  · rintro ⟨fields, converted, found⟩
    rcases gives with same | ⟨-, hash, named, -⟩
    · cases converted.symm.trans same
      exact found
    · cases converted.symm.trans named
  · intro found
    rcases gives with converted | ⟨rfl, -⟩
    · exact ⟨given, converted, found⟩
    · cases found

end Document

theorem lookup_flatten_cons (name : String) (first : Entries FieldDescription)
    (rest : List (Entries FieldDescription)) :
    Entries.lookup name (first :: rest).flatten.reverse =
      (Entries.lookup name rest.flatten.reverse).or (Entries.lookup name first.reverse) := by
  rw [List.flatten_cons, List.reverse_append, Entries.lookup_append]

theorem lookup_parts_eq_none_iff {parts : List Schema} {given : List (Entries FieldDescription)}
    (gives : List.Forall₂ (Gives (d.convert active)) parts given) :
    Entries.lookup name given.flatten.reverse = none ↔
      ∀ part ∈ parts, ∀ field, ¬d.Provides active part name field := by
  induction gives with
  | nil => simp
  | cons first _ ih =>
    rw [lookup_flatten_cons, Option.or_eq_none_iff, ih, List.forall_mem_cons, and_comm]
    simp only [Document.provides_iff first, Option.eq_none_iff_forall_ne_some, ne_eq]

/-- A name is looked up in the last of the parts that have it. -/
theorem lookup_parts_eq_some_iff {parts : List Schema} {given : List (Entries FieldDescription)}
    (gives : List.Forall₂ (Gives (d.convert active)) parts given) :
    Entries.lookup name given.flatten.reverse = some field ↔
      ∃ before part after, parts = before ++ part :: after ∧ d.Provides active part name field ∧
        ∀ later ∈ after, ∀ other, ¬d.Provides active later name other := by
  induction gives with
  | nil => simp
  | @cons part own parts rest first gives ih =>
    rw [lookup_flatten_cons]
    constructor
    · intro found
      cases later : Entries.lookup name rest.flatten.reverse with
      | some other =>
        rw [later, Option.some_or] at found
        obtain ⟨before, last, after, rfl, provides, isLast⟩ := ih.mp (later.trans found)
        exact ⟨part :: before, last, after, rfl, provides, isLast⟩
      | none =>
        rw [later, Option.none_or] at found
        exact ⟨[], part, parts, rfl, (Document.provides_iff first).mpr found,
          (lookup_parts_eq_none_iff gives).mp later⟩
    · rintro ⟨before, last, after, split, provides, isLast⟩
      cases before with
      | nil =>
        cases split
        rw [(lookup_parts_eq_none_iff gives).mpr isLast, Option.none_or]
        exact (Document.provides_iff first).mp provides
      | cons =>
        cases split
        rw [ih.mpr ⟨_, last, after, rfl, provides, isLast⟩, Option.some_or]

theorem keys_of_fieldOf {convert : Schema → Except SwaggerError TypeDescription}
    {required : List String} {properties : List (String × Schema)}
    (own : List.Forall₂ (FieldOf convert required) properties fields) :
    Entries.keys properties = Entries.keys fields := by
  refine Pass.map_eq_of_forall₂ own ?_
  rintro property field ⟨a, -, rfl⟩
  rfl

/-- A property is required if it is listed. -/
theorem required_of_lookup {convert : Schema → Except SwaggerError TypeDescription}
    {required : List String} {properties : List (String × Schema)}
    (own : List.Forall₂ (FieldOf convert required) properties fields)
    (found : Entries.lookup name fields.reverse = some field) :
    field.required ↔ name ∈ required := by
  have member := List.mem_reverse.mp (Entries.mem_of_lookup found)
  obtain ⟨property, -, a, -, isField⟩ := Pass.exists_of_mem_right own member
  cases isField
  exact List.contains_iff_mem

namespace Document

theorem mem_keys_iff (noReference : s.reference = none) (parts : s.allOf ≠ [])
    (converted : d.convert active s = .ok (.fields fields)) :
    name ∈ Entries.keys fields ↔ name ∈ Entries.keys s.properties ∨
      ∃ part ∈ s.allOf, ∃ field, d.Provides active part name field := by
  rw [convert_node noReference] at converted
  obtain ⟨given, own, gives, properties, rfl⟩ := Schema.composite_fields parts converted
  rw [← not_iff_not, ← Entries.lookup_eq_none_iff, Entries.lookup_ofPairs, List.reverse_append,
    Entries.lookup_append, Option.or_eq_none_iff, Entries.lookup_reverse_eq_none_iff,
    lookup_parts_eq_none_iff gives, ← keys_of_fieldOf properties]
  simp only [not_or, not_exists, not_and]

/-- A field of a composite is required exactly if it is where the composite has it last. -/
theorem required_iff_requiresLast (noReference : s.reference = none) (parts : s.allOf ≠ [])
    (converted : d.convert active s = .ok (.fields fields))
    (found : Entries.lookup name fields = some field) :
    field.required ↔ d.RequiresLast active s name := by
  rw [convert_node noReference] at converted
  obtain ⟨given, own, gives, properties, rfl⟩ := Schema.composite_fields parts converted
  -- own properties are put in last, so they are found first
  rw [Entries.lookup_ofPairs, List.reverse_append, Entries.lookup_append] at found
  cases ownField : Entries.lookup name own.reverse with
  | some other =>
    have isProperty : name ∈ Entries.keys s.properties := by
      rw [keys_of_fieldOf properties]
      exact List.mem_map_of_mem (List.mem_reverse.mp (Entries.mem_of_lookup ownField))
    rw [ownField, Option.some_or] at found
    rw [required_of_lookup properties (ownField.trans found)]
    refine ⟨.own isProperty, fun last => ?_⟩
    cases last with
    | own _ listed => exact listed
    | part noProperty => exact absurd isProperty noProperty
  | none =>
    have noProperty : name ∉ Entries.keys s.properties := by
      rw [keys_of_fieldOf properties]
      exact Entries.lookup_reverse_eq_none_iff.mp ownField
    rw [ownField, Option.none_or] at found
    constructor
    · intro required
      obtain ⟨before, part, after, split, provides, last⟩ :=
        (lookup_parts_eq_some_iff gives).mp found
      exact .part noProperty split provides required last
    · intro last
      cases last with
      | own isProperty => exact absurd isProperty noProperty
      | part _ split provides required last =>
        have same := (lookup_parts_eq_some_iff gives).mpr ⟨_, _, _, split, provides, last⟩
        cases found.symm.trans same
        exact required

/-- The fields of a composite are those of its own properties and of its parts. Each is required
exactly if it is required where the composite has it last; and all requirements are kept exactly if
every field that is required somewhere, in a part or by the list of required names, is required
where it stands last. -/
theorem requirements_kept_iff_required_last (d : Document) (active : List String) (s : Schema)
    (fields : Entries FieldDescription) (noReference : s.reference = none) (parts : s.allOf ≠ [])
    (converted : d.convert active s = .ok (.fields fields)) :
    (∀ name, name ∈ Entries.keys fields ↔ name ∈ Entries.keys s.properties ∨
      ∃ part ∈ s.allOf, ∃ field, d.Provides active part name field) ∧
    (∀ name field, Entries.lookup name fields = some field →
      (field.required ↔ d.RequiresLast active s name)) ∧
    (d.KeepsRequirements active s fields ↔
      ∀ name ∈ Entries.keys fields, d.Requires active s name → d.RequiresLast active s name) := by
  have required : ∀ name field, Entries.lookup name fields = some field →
      (field.required ↔ d.RequiresLast active s name) :=
    fun name field => required_iff_requiresLast noReference parts converted
  refine ⟨fun name => mem_keys_iff noReference parts converted, required,
    fun keeps name member requires => ?_, fun last name field found requires => ?_⟩
  · cases found : Entries.lookup name fields with
    | none => exact absurd member (Entries.lookup_eq_none_iff.mp found)
    | some field => exact (required name field found).mp (keeps name field found requires)
  · have member : name ∈ Entries.keys fields := List.mem_map_of_mem (Entries.mem_of_lookup found)
    exact (required name field found).mpr (last name member requires)

end Document

def textSchema : Schema := { type := some "string" }

/-- A field of text. -/
def textField (required : Bool) : FieldDescription := { type := .named "string", required }

/-- An object with a name, required or not. -/
def person (required : List String) : Schema :=
  { type := some "object", properties := [("name", textSchema)], required }

/-- A composite of persons that lists required names of its own. -/
def combined (parts : List Schema) (required : List String) : Schema := { allOf := parts, required }

theorem convert_textSchema : Document.convert {} [] textSchema = .ok (.named "string") := by
  rw [Document.convert_node rfl]
  rfl

theorem convert_person (required : List String) : Document.convert {} [] (person required) =
    .ok (.fields [("name", textField (required.contains "name"))]) := by
  have fields : Schema.fieldsWith (Document.convert {} []) required [("name", textSchema)] =
      .ok [("name", textField (required.contains "name"))] := by
    rw [Schema.fieldsWith, List.mapM_cons, Schema.fieldWith, convert_textSchema]
    rfl
  rw [Document.convert_node rfl]
  simp only [Schema.describeWith, Schema.plainWith, person, fields]
  rfl

theorem convert_pair (first second required : List String) :
    Document.convert {} [] (combined [person first, person second] required) =
      .ok (.fields [("name", textField (second.contains "name"))]) := by
  rw [Document.convert_node rfl]
  simp only [Schema.describeWith, Schema.compositeWith, combined, Schema.partsWith, convert_person]
  rfl

/-- What is required of a name in the last part is required of it in the composite. -/
theorem last_requirement_is_kept :
    Document.KeepsRequirements {} [] (combined [person [], person ["name"]] [])
      [("name", textField true)] := by
  have converted : Document.convert {} [] (combined [person [], person ["name"]] []) =
      .ok (.fields [("name", textField true)]) := convert_pair [] ["name"] []
  have provides : Document.Provides {} [] (person ["name"]) "name" (textField true) :=
    ⟨_, convert_person ["name"], rfl⟩
  have last : Document.RequiresLast {} [] (combined [person [], person ["name"]] []) "name" :=
    .part List.not_mem_nil (List.singleton_append).symm provides rfl nofun
  have kept := Document.requirements_kept_iff_required_last {} [] _ _ rfl (List.cons_ne_nil _ _)
    converted
  refine kept.2.2.mpr fun name member _ => ?_
  cases List.mem_singleton.mp member
  exact last

/-- What a part requires is lost to a later part, and so is what the composite itself lists. -/
theorem requirements_are_lost :
    (∃ fields, Document.convert {} [] (combined [person ["name"], person []] []) =
        .ok (.fields fields) ∧
      ¬Document.KeepsRequirements {} [] (combined [person ["name"], person []] []) fields) ∧
    ∃ fields, Document.convert {} [] (combined [person [], person []] ["name"]) =
        .ok (.fields fields) ∧
      ¬Document.KeepsRequirements {} [] (combined [person [], person []] ["name"]) fields := by
  have provides : Document.Provides {} [] (person ["name"]) "name" (textField true) :=
    ⟨_, convert_person ["name"], rfl⟩
  refine ⟨⟨_, convert_pair ["name"] [] [], fun keeps => ?_⟩,
    ⟨_, convert_pair [] [] ["name"], fun keeps => ?_⟩⟩
  · cases keeps "name" (textField false) rfl (.part List.mem_cons_self provides rfl)
  · cases keeps "name" (textField false) rfl (.listed List.mem_cons_self)

end ActionCatalogue.Swagger
