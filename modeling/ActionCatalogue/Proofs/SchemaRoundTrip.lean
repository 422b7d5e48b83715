import ActionCatalogue.Proofs.ConversionSteps
import ActionCatalogue.Proofs.RecordReading
import ActionCatalogue.Swagger.Reader

/-!
Schemas in JSON. A schema that can be stored is read back as it was written, with all schemas below
it: no value in it that may be left out is an explicit null, and no key comes twice, as in every map
that the program keeps. Whatever is read from JSON is such a schema.
-/

namespace ActionCatalogue.Swagger

open Json

@[simp] theorem lookup_entryUnlessEmpty {α : Type} (key name : String) (items : List α)
    (value : List α → Value) : Entries.lookup key (entryUnlessEmpty name items value) =
      if name = key then (if items.isEmpty then none else some (value items)) else none := by
  unfold entryUnlessEmpty
  split <;> simp [*]

theorem keys_entryUnlessEmpty_sublist {α : Type} (name : String) (items : List α)
    (value : List α → Value) :
    (Entries.keys (entryUnlessEmpty name items value)).Sublist [name] :=
  Value.keys_unless_sublist name items.isEmpty (value items)

namespace Schema

variable {s : Schema}

theorem propertiesToJson_eq (properties : List (String × Schema)) :
    propertiesToJson properties = Entries.mapValues toJson properties := by
  induction properties with
  | nil => rfl
  | cons property rest ih =>
    rw [propertiesToJson, ih]
    rfl

theorem partsToJson_eq (parts : List Schema) : partsToJson parts = parts.map toJson := by
  induction parts with
  | nil => rfl
  | cons part rest ih => rw [partsToJson, ih, List.map_cons]

theorem itemsToJson_eq (items : Option Schema) : itemsToJson items = items.map toJson := by
  cases items <;> rfl

def members (s : Schema) : Object :=
  Value.entry? "$ref" (s.reference.map .text) ++
  Value.entry? "type" (s.type.map .text) ++
  Value.entry? "format" (s.format.map .text) ++
  Value.entry? "title" (s.title.map .text) ++
  Value.entry? "description" (s.description.map .text) ++
  entryUnlessEmpty "properties" (Entries.mapValues toJson s.properties) .object ++
  entryUnlessEmpty "required" s.required Value.texts ++
  Value.entry? "items" (s.items.map toJson) ++
  entryUnlessEmpty "allOf" (s.allOf.map toJson) .list ++
  Value.entry? "additionalProperties" s.additionalProperties ++
  entryUnlessEmpty "enum" s.allowedValues .list ++
  Value.entry? "default" s.defaultValue ++
  Value.entry? "example" s.exampleValue ++
  [("x-nullable", .bool s.nullable)]

theorem toJson_eq (s : Schema) : s.toJson = .object s.members := by
  cases s
  simp only [toJson, members, propertiesToJson_eq, itemsToJson_eq, partsToJson_eq]

theorem nodup_keys_members (s : Schema) : (Entries.keys s.members).Nodup := by
  have written : (Entries.keys s.members).Sublist fieldNames := by
    have entry := Value.keys_entry?_sublist
    simp only [members, Entries.keys_append]
    exact (((((((((((((entry _ _).append (entry _ _)).append (entry _ _)).append (entry _ _)).append
      (entry _ _)).append (keys_entryUnlessEmpty_sublist _ _ _)).append
      (keys_entryUnlessEmpty_sublist _ _ _)).append (entry _ _)).append
      (keys_entryUnlessEmpty_sublist _ _ _)).append (entry _ _)).append
      (keys_entryUnlessEmpty_sublist _ _ _)).append (entry _ _)).append (entry _ _)).append
      (List.Sublist.refl _)
  exact written.nodup (by decide)

/-- What JSON can hold of a schema, the schemas below it apart. -/
structure Plain (s : Schema) : Prop where
  properties : (Entries.keys s.properties).Nodup
  additionalProperties : Value.Kept s.additionalProperties
  allowedValues : ∀ v ∈ s.allowedValues, v.Distinct
  defaultValue : Value.Kept s.defaultValue
  exampleValue : Value.Kept s.exampleValue

/-- The schemas that are read back as they are written. -/
inductive Storable : Schema → Prop
  | intro {s : Schema} (plain : s.Plain) (below : ∀ t, s.Below t → Storable t) : Storable s

theorem ofNode_eq (n : Node) : ofNode n = n.asRecord fieldNames fun r =>
    mk <$> r.optional "$ref" Node.asText <*> r.optional "type" Node.asText
      <*> r.optional "format" Node.asText <*> r.optional "title" Node.asText
      <*> r.optional "description" Node.asText
      <*> r.orDefault "properties" [] (Node.asMapOf ofNode) <*> r.texts "required"
      <*> r.optional "items" ofNode <*> r.orDefault "allOf" [] (Node.asListOf ofNode)
      <*> r.optional "additionalProperties" Node.asValue <*> r.values "enum"
      <*> r.optional "default" Node.asValue <*> r.optional "example" Node.asValue
      <*> r.flag "x-nullable" := by
  rw [ofNode]
  rfl

theorem toJson_ne_null (s : Schema) : s.toJson ≠ .null := by
  rw [toJson_eq]
  nofun

theorem ofNode_toJson (storable : s.Storable) : ofNode (.ofValue s.toJson) = .ok s := by
  induction storable with
  | @intro s plain below ih =>
  rw [toJson_eq, ofNode_eq]
  refine Record.asRecord_object fun r shown => ?_
  have names := s.nodup_keys_members
  have reference : (r.optional "$ref" Node.asText).Give s.reference :=
    Record.optionalText_give shown names (by simp [members])
  have type : (r.optional "type" Node.asText).Give s.type :=
    Record.optionalText_give shown names (by simp [members])
  have format : (r.optional "format" Node.asText).Give s.format :=
    Record.optionalText_give shown names (by simp [members])
  have title : (r.optional "title" Node.asText).Give s.title :=
    Record.optionalText_give shown names (by simp [members])
  have description : (r.optional "description" Node.asText).Give s.description :=
    Record.optionalText_give shown names (by simp [members])
  have properties : (r.orDefault "properties" [] (Node.asMapOf ofNode)).Give s.properties :=
    Record.map_give shown names (by simp [members]) plain.properties
      fun key t member => ih t (.property member)
  have required : (r.texts "required").Give s.required :=
    Record.texts_give shown names (by simp [members])
  have items : (r.optional "items" ofNode).Give s.items :=
    Record.optional_give shown names (by simp [members]) toJson_ne_null
      fun t has => ih t (.items has)
  have allOf : (r.orDefault "allOf" [] (Node.asListOf ofNode)).Give s.allOf :=
    Record.list_give shown names (by simp [members]) fun t member => ih t (.part member)
  have additionalProperties :
      (r.optional "additionalProperties" Node.asValue).Give s.additionalProperties :=
    Record.value_give shown names (by simp [members]) plain.additionalProperties
  have allowedValues : (r.values "enum").Give s.allowedValues :=
    Record.values_give shown names (by simp [members]) plain.allowedValues
  have defaultValue : (r.optional "default" Node.asValue).Give s.defaultValue :=
    Record.value_give shown names (by simp [members]) plain.defaultValue
  have exampleValue : (r.optional "example" Node.asValue).Give s.exampleValue :=
    Record.value_give shown names (by simp [members]) plain.exampleValue
  have nullable : (r.flag "x-nullable").Give s.nullable :=
    Record.flag_give shown names (by simp [members])
  have all := (((((((((((((reference.map mk).seq type).seq format).seq title).seq description).seq
    properties).seq required).seq items).seq allOf).seq additionalProperties).seq
    allowedValues).seq defaultValue).seq exampleValue).seq nullable
  cases s
  exact all

/-- Induction from the schemas below a schema to the schema. -/
theorem fromBelow {motive : Schema → Prop} (step : ∀ s, (∀ t, s.Below t → motive t) → motive s)
    (s : Schema) : motive s :=
  step s fun t _ => fromBelow step t
termination_by sizeOf s
decreasing_by
  next below => exact below.sizeOf_lt

theorem storable_of_ofNode {v : Value} (success : ofNode (.ofValue v) = .ok s) : s.Storable := by
  -- on the schema and not on the value: a value may hold more than what is read
  induction s using fromBelow generalizing v with
  | step s ih =>
  rw [ofNode_eq] at success
  obtain ⟨r, shown, give⟩ := Record.exists_of_asRecord success
  simp only [Fields.give_seq, Fields.give_map] at give
  obtain ⟨_, ⟨_, ⟨_, ⟨_, ⟨_, ⟨_, ⟨_, ⟨_, ⟨_, ⟨_, ⟨_, ⟨_, ⟨_, ⟨reference, -, rfl⟩, type, -, rfl⟩,
    format, -, rfl⟩, title, -, rfl⟩, description, -, rfl⟩, properties, hasProperties, rfl⟩, required,
    -, rfl⟩, items, hasItems, rfl⟩, allOf, hasParts, rfl⟩, additionalProperties, hasAdditional, rfl⟩,
    allowedValues, hasAllowed, rfl⟩, defaultValue, hasDefault, rfl⟩, exampleValue, hasExample,
    rfl⟩, nullable, -, rfl⟩ := give
  obtain ⟨distinct, each⟩ := Record.exists_of_map shown hasProperties
  refine .intro ⟨distinct, Record.kept_of_value shown hasAdditional,
    Record.distinct_of_values shown hasAllowed, Record.kept_of_value shown hasDefault,
    Record.kept_of_value shown hasExample⟩ fun t below => ?_
  have read : ∃ w, ofNode (.ofValue w) = .ok t := by
    cases below with
    | property member => exact each _ t member
    | items has =>
      cases has
      obtain ⟨w, -, -, read⟩ := Record.exists_of_optional shown hasItems
      exact ⟨w, read⟩
    | part member => exact Record.exists_of_list shown hasParts t member
  obtain ⟨w, read⟩ := read
  exact ih t below read

end Schema

end ActionCatalogue.Swagger
