import ActionCatalogue.Proofs.FieldOrigins
import ActionCatalogue.Proofs.LenientBuild
import ActionCatalogue.Proofs.NormalFixedPoint

/-!
Where the allowed values of fields and options come from. They are those that the schema of a
property or of a parameter enumerates itself, in their order and labelled with their texts, and the
normalizer leaves them as they are. A reference is opened for its type only, so the values that a
definition enumerates do not reach the fields that refer to it.
-/

namespace ActionCatalogue

/-- An option at any depth of a type. -/
inductive OptionType.HasOption : OptionType → String × ActionOption → Prop
  | here {options : List (String × ActionOption)} {entry : String × ActionOption}
      (member : entry ∈ options) : HasOption (.hash options) entry
  | inOption {options : List (String × ActionOption)} {entry outer : String × ActionOption}
      (member : outer ∈ options) (inside : HasOption outer.2.type entry) :
      HasOption (.hash options) entry
  | inItem {item : OptionType} {entry : String × ActionOption} (inside : HasOption item entry) :
      HasOption (.list item) entry

namespace Normalizer

variable {n : Normalizer}

/-- An option comes of a field of the same name. -/
def OptionFrom (n : Normalizer) (field : FieldDescription) (entry : String × ActionOption) : Prop :=
  ∃ path depth, n.optionAt entry.1 path depth field = .ok entry.2

theorem OptionFrom.allowedValues {field : FieldDescription} {entry : String × ActionOption}
    (option : n.OptionFrom field entry) :
    entry.2.allowedValues = field.allowedValues.map fillAllowedValue := by
  obtain ⟨path, depth, normalized⟩ := option
  obtain ⟨type, -, isOption⟩ := optionAt_eq_ok_iff.mp normalized
  rw [← isOption]
  rfl

/-- Every option of a type, at whatever depth, comes of a field of a description. -/
def Covers (n : Normalizer) (a : TypeDescription) (t : OptionType) : Prop :=
  ∀ entry, t.HasOption entry → ∃ field, a.HasField (entry.1, field) ∧ n.OptionFrom field entry

theorem covers_fields {parent : String} {depth : Nat} {fields : List (String × FieldDescription)}
    {options : List (String × ActionOption)}
    (each : ∀ entry ∈ options, ∀ path depth a, n.typeAt path depth a = .ok entry.2.type →
      n.Covers a entry.2.type)
    (normalized : n.optionsAt parent depth fields = .ok options) :
    n.Covers (.fields fields) (.hash options) := by
  have related := optionsAt_eq_ok_iff.mp normalized
  intro entry has
  cases has with
  | here member =>
    obtain ⟨⟨name, field⟩, among, rfl, normalized⟩ := Pass.exists_of_mem_right related member
    exact ⟨field, .here among, _, _, normalized⟩
  | @inOption _ _ outer member inside =>
    obtain ⟨field, among, -, normalized⟩ := Pass.exists_of_mem_right related member
    obtain ⟨type, typed, isOption⟩ := optionAt_eq_ok_iff.mp normalized
    have isType : outer.2.type = type := by
      rw [← isOption]
      rfl
    obtain ⟨inner, hasField, option⟩ := each outer member _ _ _ (isType ▸ typed) entry inside
    exact ⟨inner, .inField among hasField, option⟩

/-- By induction on the type: a description that has a type of one kind is of that kind itself. -/
theorem covers_typeAt {path : String} {depth : Nat} {a : TypeDescription} {t : OptionType}
    (typed : n.typeAt path depth a = .ok t) : n.Covers a t := by
  induction t generalizing path depth a with
  | primitive p =>
    intro entry has
    cases has
  | list item ih =>
    cases a with
    | named name =>
      obtain ⟨-, p, -, same⟩ := typeAt_named_eq_ok_iff.mp typed
      cases same
    | fields fields =>
      obtain ⟨-, options, -, same⟩ := typeAt_fields_eq_ok_iff.mp typed
      cases same
    | list items =>
      obtain ⟨-, b, type, rfl, inner, same⟩ := typeAt_list_eq_ok_iff.mp typed
      cases same
      rintro entry (_ | _ | inside)
      obtain ⟨field, hasField, option⟩ := ih inner entry inside
      exact ⟨field, .inItem List.mem_cons_self hasField, option⟩
  | hash options ih =>
    cases a with
    | named name =>
      obtain ⟨-, p, -, same⟩ := typeAt_named_eq_ok_iff.mp typed
      cases same
    | list items =>
      obtain ⟨-, b, type, -, -, same⟩ := typeAt_list_eq_ok_iff.mp typed
      cases same
    | fields fields =>
      obtain ⟨-, others, normalized, same⟩ := typeAt_fields_eq_ok_iff.mp typed
      cases same
      exact covers_fields (fun entry member _ _ _ => ih entry.1 entry.2 member) normalized

theorem covers_normalizeFields {fields : Entries FieldDescription} {options : Entries ActionOption}
    (normalized : n.normalizeFields fields = .ok options) :
    n.Covers (.fields fields) (.hash options) :=
  covers_fields (fun _ _ _ _ _ => covers_typeAt) normalized

/-- Values that are labelled with their texts lack none. -/
theorem map_fillAllowedValue_enumerated (values : List Json.Value) :
    (Swagger.enumerated values).map fillAllowedValue = Swagger.enumerated values := by
  rw [Swagger.enumerated, List.map_map]
  refine List.map_congr_left fun v _ => ?_
  simp only [Function.comp, fillAllowedValue_eq, AllowedValue.labelled, AllowedValue.valueText,
    filled, ite_self]

end Normalizer

namespace Swagger

variable {d : Document} {n : Normalizer} {e : Endpoint} {a : Descriptor} {s : Schema}
  {p : Parameter}

namespace Document

/-- The values that a schema enumerates, or else those that its reference leads to. -/
inductive Enumerates (d : Document) : Schema → List Json.Value → Prop
  | own {s : Schema} (filled : s.allowedValues ≠ []) : Enumerates d s s.allowedValues
  | target {s t : Schema} {reference name : String} {values : List Json.Value}
      (none : s.allowedValues = []) (isReference : s.reference = some reference)
      (resolved : d.definition reference = .ok (name, t)) (rest : Enumerates d t values) :
      Enumerates d s values

theorem Enumerates.filled {values : List Json.Value} (enumerates : d.Enumerates s values) :
    values ≠ [] := by
  induction enumerates with
  | own filled => exact filled
  | target _ _ _ _ ih => exact ih

/-- A schema enumerates values only by its reference. -/
def EnumeratesElsewhere (d : Document) (s : Schema) : Prop :=
  s.allowedValues = [] ∧ ∃ values, d.Enumerates s values

/-- Allowed values are those that a schema itself enumerates. So they are all that it enumerates
unless it does that only by its reference. -/
structure HasValuesOf (d : Document) (s : Schema) (allowed : List AllowedValue) : Prop where
  own : allowed = enumerated s.allowedValues
  kept_iff : (∀ values, d.Enumerates s values → allowed = enumerated values) ↔
    ¬d.EnumeratesElsewhere s

theorem hasValuesOf_enumerated (d : Document) (s : Schema) :
    d.HasValuesOf s (enumerated s.allowedValues) where
  own := rfl
  kept_iff := by
    constructor
    · rintro kept ⟨none, values, enumerates⟩
      have same := kept values enumerates
      rw [none] at same
      exact enumerates.filled (List.map_eq_nil_iff.mp same.symm)
    · intro here values enumerates
      cases enumerates with
      | own => rfl
      | target none isReference resolved rest =>
        exact absurd ⟨none, values, .target none isReference resolved rest⟩ here

theorem Origin.hasValuesOf {property : Schema} {entry : String × FieldDescription}
    (origin : d.Origin s entry property) : d.HasValuesOf property entry.2.allowedValues := by
  obtain ⟨-, -, _, -, isField⟩ := origin
  rw [isField]
  exact d.hasValuesOf_enumerated property

end Document

/-! ### Operations -/

/-- A field of an endpoint is that of a parameter, or that of a property in one of its schemas. -/
inductive Endpoint.FieldFor (d : Document) (e : Endpoint) :
    String × FieldDescription → Schema → Prop
  | parameter {shared : Shared Parameter} {p : Parameter} {required : Bool}
      {field : FieldDescription} (member : shared ∈ e.item.parameters ++ e.operation.parameters)
      (found : d.parameter shared = .ok p) (isField : parameterField d p required = .ok field) :
      FieldFor d e (p.name, field) p.valueSchema
  | property {s property : Schema} {entry : String × FieldDescription} (has : e.HasSchema d s)
      (origin : d.Origin s entry property) : FieldFor d e entry property

theorem Endpoint.FieldFor.hasValuesOf {entry : String × FieldDescription}
    (isField : e.FieldFor d entry s) : d.HasValuesOf s entry.2.allowedValues := by
  cases isField with
  | parameter _ _ isField =>
    obtain ⟨field, found, isField⟩ := exists_of_bind_eq_ok isField
    obtain ⟨a, -, found⟩ := exists_of_bind_eq_ok found
    cases isField
    cases found
    exact d.hasValuesOf_enumerated _
  | property _ origin => exact origin.hasValuesOf

/-- An option of an endpoint comes of the field of a schema. -/
def Endpoint.OptionFor (d : Document) (n : Normalizer) (e : Endpoint)
    (entry : String × ActionOption) (s : Schema) : Prop :=
  ∃ field, e.FieldFor d (entry.1, field) s ∧ n.OptionFrom field entry

theorem Endpoint.OptionFor.hasValuesOf {entry : String × ActionOption}
    (option : e.OptionFor d n entry s) : d.HasValuesOf s entry.2.allowedValues := by
  obtain ⟨field, isField, option⟩ := option
  have values := isField.hasValuesOf
  rw [option.allowedValues, values.own, Normalizer.map_fillAllowedValue_enumerated]
  exact d.hasValuesOf_enumerated s

/-- An option at any depth of an action, be it in its options or in its response. -/
inductive Descriptor.HasOption (a : Descriptor) (entry : String × ActionOption) : Prop
  | option (has : (OptionType.hash a.options).HasOption entry)
  | response {type : OptionType} (answers : a.responseType = some type) (has : type.HasOption entry)

/-- A field and all fields in its description are an endpoint's. -/
def Endpoint.Describes (d : Document) (e : Endpoint) (entry : String × FieldDescription) : Prop :=
  (∃ s, e.FieldFor d entry s) ∧
    ∀ inner, entry.2.type.HasField inner → ∃ s, e.FieldFor d inner s

theorem exists_fieldFor_of_typeOf {type : TypeDescription} (has : e.HasSchema d s)
    (converted : d.typeOf s = .ok type) {entry : String × FieldDescription}
    (hasField : type.HasField entry) : ∃ s, e.FieldFor d entry s := by
  obtain ⟨property, origin⟩ := Document.exists_origin converted hasField
  exact ⟨property, .property has origin⟩

theorem add_describes {inputs : Inputs} {shared : Shared Parameter}
    (member : shared ∈ e.item.parameters ++ e.operation.parameters)
    (found : d.parameter shared = .ok p) (described : inputs.Each (e.Describes d)) :
    Ends (fun _ => True) (Inputs.Each (e.Describes d)) (inputs.add d p) := by
  have has : e.HasSchema d p.valueSchema := .parameter member found
  refine Inputs.add_ends (fun required => .of_result fun field isField => ?_) (.of_result ?_)
    described
  · refine ⟨⟨_, .parameter member found isField⟩, fun inner hasField => ?_⟩
    obtain ⟨own, isOwn, isField⟩ := exists_of_bind_eq_ok isField
    obtain ⟨type, converted, isOwn⟩ := exists_of_bind_eq_ok isOwn
    cases isField
    cases isOwn
    exact exists_fieldFor_of_typeOf has converted hasField
  · rintro _ converted fields rfl entry among
    exact ⟨exists_fieldFor_of_typeOf has converted (.here among), fun inner inside =>
      exists_fieldFor_of_typeOf has converted (.inField among inside)⟩

/-- All fields that become options, at whatever depth, are an endpoint's. -/
theorem exists_fieldFor_of_all {inputs : Inputs} (described : inputs.Each (e.Describes d))
    {entry : String × FieldDescription}
    (has : (TypeDescription.fields inputs.all).HasField entry) : ∃ s, e.FieldFor d entry s := by
  cases has with
  | here member => exact (described.all _ member).1
  | inField member inside => exact (described.all _ member).2 _ inside

theorem exists_of_responseType {type : OptionType}
    (answers : responseType d n e.operation = .ok (some type)) :
    ∃ s t, e.HasSchema d s ∧ d.typeOf s = .ok t ∧ n.normalizeType t = .ok type := by
  unfold responseType at answers
  split at answers
  next => cases answers
  next shared counts =>
    obtain ⟨key, member⟩ := exists_of_successResponse? counts
    obtain ⟨response, found, answers⟩ := exists_of_bind_eq_ok answers
    cases has : response.schema with
    | none =>
      rw [has] at answers
      cases answers
    | some s =>
      rw [has] at answers
      obtain ⟨t, converted, answers⟩ := exists_of_bind_eq_ok answers
      obtain ⟨normal, normalized, answers⟩ := exists_of_bind_eq_ok answers
      cases answers
      exact ⟨s, t, .response member found has, converted, ofData_eq_ok_iff.mp normalized⟩

theorem exists_optionFor (built : describe d n e = .ok a) {entry : String × ActionOption}
    (has : a.HasOption entry) : ∃ s, e.OptionFor d (n.within a.name) entry s := by
  obtain ⟨parameters, inputs, options, type, merged, added, normalized, answers, rfl⟩ :=
    describe_eq_ok_iff.mp built
  cases has with
  | option has =>
    have ends : Ends (fun _ => True) (Inputs.Each (e.Describes d))
        (parameters.foldlM (Inputs.add d) {}) := by
      refine Ends.foldlM (fun inputs p member described => ?_) ⟨nofun, nofun⟩
      obtain ⟨shared, among, found⟩ := exists_of_mem_parametersOf merged member
      exact add_describes among found described
    obtain ⟨field, hasField, option⟩ := Normalizer.covers_normalizeFields normalized entry has
    obtain ⟨s, isField⟩ := exists_fieldFor_of_all (ends.result added) hasField
    exact ⟨s, field, isField, option⟩
  | response isType has =>
    cases isType
    obtain ⟨s, t, hasSchema, converted, normal⟩ := exists_of_responseType answers
    obtain ⟨field, hasField, option⟩ := Normalizer.covers_typeAt normal entry has
    obtain ⟨property, isField⟩ := exists_fieldFor_of_typeOf hasSchema converted hasField
    exact ⟨property, field, isField, option⟩

/-- Every field of a conversion, and every option of an operation, at whatever depth, has as its
allowed values those that the schema of its property or parameter enumerates itself. These are what
the schema enumerates exactly if it does not do so by a reference alone. -/
theorem enumerations_reach_options_iff_in_place (d : Document) :
    (∀ s required field, d.fieldOf s required = .ok field → d.HasValuesOf s field.allowedValues) ∧
    (∀ active s a entry, d.convert active s = .ok a → a.HasField entry →
      ∃ property, d.Origin s entry property ∧ d.HasValuesOf property entry.2.allowedValues) ∧
    ∀ n e a entry, describe d n e = .ok a → a.HasOption entry →
      ∃ s, e.OptionFor d (n.within a.name) entry s ∧ d.HasValuesOf s entry.2.allowedValues := by
  refine ⟨fun s required field isField => ?_, fun active s a entry converted has => ?_,
    fun n e a entry built has => ?_⟩
  · obtain ⟨type, -, isField⟩ := exists_of_bind_eq_ok isField
    cases isField
    exact d.hasValuesOf_enumerated s
  · obtain ⟨property, origin⟩ := Document.exists_origin converted has
    exact ⟨property, origin, origin.hasValuesOf⟩
  · obtain ⟨s, option⟩ := exists_optionFor built has
    exact ⟨s, option, option.hasValuesOf⟩

def statusReference : Schema := { reference := some "#/definitions/Status" }

def status : Schema := { type := some "string", allowedValues := [.text "open", .text "closed"] }

/-- A definition that enumerates its values. -/
def statuses : Document where
  definitions := [("Status", status)]

theorem convert_status (active : List String) :
    statuses.convert active status = .ok (.named "string") := by
  rw [Document.convert_node rfl]
  rfl

theorem values_in_place_are_kept : ∃ field, statuses.fieldOf status false = .ok field ∧
    field.allowedValues = enumerated [.text "open", .text "closed"] ∧
      ¬statuses.EnumeratesElsewhere status := by
  have isField : statuses.fieldOf status false =
      .ok (status.describedBy false (.named "string")) := by
    rw [Document.fieldOf, Document.typeOf, convert_status]
    rfl
  have values := (enumerations_reach_options_iff_in_place statuses).1 _ _ _ isField
  refine ⟨_, isField, values.own, values.kept_iff.mp fun kept enumerates => ?_⟩
  cases enumerates with
  | own => exact values.own
  | target none => cases none

/-- The values of a definition do not reach a field that refers to it. -/
theorem values_of_definition_are_lost :
    statuses.Enumerates statusReference [.text "open", .text "closed"] ∧
      ∃ field, statuses.fieldOf statusReference false = .ok field ∧
        field.allowedValues ≠ enumerated [.text "open", .text "closed"] := by
  have target : statuses.definition "#/definitions/Status" = .ok ("Status", status) := rfl
  have isField : statuses.fieldOf statusReference false =
      .ok (statusReference.describedBy false (.named "string")) := by
    rw [Document.fieldOf, Document.typeOf, Document.convert_fresh rfl target (by decide),
      convert_status]
    rfl
  exact ⟨.target rfl rfl target (.own (List.cons_ne_nil _ _)), _, isField,
    (List.cons_ne_nil _ _).symm⟩

end Swagger

end ActionCatalogue
