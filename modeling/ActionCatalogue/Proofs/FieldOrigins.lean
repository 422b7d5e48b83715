import ActionCatalogue.Proofs.OperationReferences

/-!
Where the fields of a description come from. The fields of an object are those of its properties; a
composite puts in the fields of its parts, one part after another, and then those of its own
properties. So every field, however deep it stands, is that of a property of a schema that can be
reached; and the fields of an operation are those of its parameters and of its bodies' schemas.
-/

namespace ActionCatalogue

/-- A field at any depth of a description. -/
inductive TypeDescription.HasField : TypeDescription → String × FieldDescription → Prop
  | here {fields : List (String × FieldDescription)} {entry : String × FieldDescription}
      (member : entry ∈ fields) : HasField (.fields fields) entry
  | inField {fields : List (String × FieldDescription)} {entry outer : String × FieldDescription}
      (member : outer ∈ fields) (inside : HasField outer.2.type entry) :
      HasField (.fields fields) entry
  | inItem {items : List TypeDescription} {item : TypeDescription}
      {entry : String × FieldDescription} (member : item ∈ items) (inside : HasField item entry) :
      HasField (.list items) entry

namespace Swagger

theorem eq_of_withNull {nullable : Bool} {a b : TypeDescription} (allows : withNull nullable a = b)
    (unnamed : ∀ name, b ≠ .named name) : a = b := by
  cases a with
  | named name =>
    rw [withNull_named] at allows
    exact absurd allows.symm (unnamed _)
  | list items => exact allows
  | fields fields => exact allows

namespace Schema

variable {convert : Schema → Except SwaggerError TypeDescription} {s : Schema}
  {merged fields : Entries FieldDescription} {a : TypeDescription}
  {entry : String × FieldDescription}

/-- The field of a property: it is required if a list of names has its name. -/
def FieldOf (convert : Schema → Except SwaggerError TypeDescription) (required : List String)
    (property : String × Schema) (field : String × FieldDescription) : Prop :=
  ∃ a, convert property.2 = .ok a ∧
    field = (property.1, property.2.describedBy (required.contains property.1) a)

/-- The fields that a part gives to a composite: those of its description, or none if that is a
hash. -/
def Gives (convert : Schema → Except SwaggerError TypeDescription) (part : Schema)
    (fields : Entries FieldDescription) : Prop :=
  convert part = .ok (.fields fields) ∨
    fields = [] ∧ ∃ name, convert part = .ok (.named name) ∧ namesHash name

theorem forall₂_of_fieldsWith {required : List String} {properties : List (String × Schema)}
    (described : fieldsWith convert required properties = .ok fields) :
    List.Forall₂ (FieldOf convert required) properties fields := by
  refine (Pass.mapM_eq_ok_iff.mp described).imp fun property field found => ?_
  obtain ⟨a, converted, found⟩ := exists_of_bind_eq_ok found
  cases found
  exact ⟨a, converted, rfl⟩

theorem forall₂_of_partsWith {parts : List Schema}
    (found : partsWith convert merged parts = .ok (some fields)) :
    ∃ given, List.Forall₂ (Gives convert) parts given ∧
      fields = Entries.putAll merged given.flatten := by
  induction parts generalizing merged with
  | nil =>
    cases found
    exact ⟨[], .nil, rfl⟩
  | cons part rest ih =>
    rw [partsWith] at found
    obtain ⟨a, converted, found⟩ := exists_of_bind_eq_ok found
    cases a with
    | fields inner =>
      obtain ⟨given, gives, rfl⟩ := ih found
      refine ⟨inner :: given, .cons (.inl converted) gives, ?_⟩
      rw [List.flatten_cons, Entries.putAll_append]
    | named name =>
      dsimp only at found
      split at found
      next hash =>
        obtain ⟨given, gives, rfl⟩ := ih found
        exact ⟨[] :: given, .cons (.inr ⟨rfl, name, converted, hash⟩) gives, rfl⟩
      next => cases found
    | list items => cases found

/-- A composite has the fields of its parts and of its own properties, the later ones in the place
of the earlier ones. -/
theorem composite_fields (parts : s.allOf ≠ [])
    (described : s.describeWith convert = .ok (.fields fields)) :
    ∃ given own, List.Forall₂ (Gives convert) s.allOf given ∧
      List.Forall₂ (FieldOf convert s.required) s.properties own ∧
      fields = Entries.ofPairs (given.flatten ++ own) := by
  cases described_of_describeWith described with
  | object noParts => exact absurd noParts parts
  | composite _ merged found =>
    obtain ⟨given, gives, rfl⟩ := forall₂_of_partsWith merged
    refine ⟨given, _, gives, forall₂_of_fieldsWith found, ?_⟩
    rw [Entries.ofPairs, Entries.putAll_append]

/-- A field is that of a property, or of a part. -/
theorem property_or_part (described : s.describeWith convert = .ok (.fields fields))
    (member : entry ∈ fields) :
    (∃ property ∈ s.properties, FieldOf convert s.required property entry) ∨
      ∃ part ∈ s.allOf, ∃ given, convert part = .ok (.fields given) ∧ entry ∈ given := by
  by_cases noParts : s.allOf = []
  · cases described_of_describeWith described with
    | object _ found =>
      exact .inl (Pass.exists_of_mem_right (forall₂_of_fieldsWith found) member)
    | composite parts => exact absurd noParts parts
  · obtain ⟨given, own, gives, properties, rfl⟩ := composite_fields noParts described
    rcases List.mem_append.mp (Entries.mem_of_mem_ofPairs member) with inParts | isOwn
    · obtain ⟨partFields, among, inPart⟩ := List.mem_flatten.mp inParts
      obtain ⟨part, isPart, isFields | ⟨rfl, -⟩⟩ := Pass.exists_of_mem_right gives among
      · exact .inr ⟨part, isPart, partFields, isFields, inPart⟩
      · cases inPart
    · exact .inl (Pass.exists_of_mem_right properties isOwn)

/-- A field at any depth is that of a property, or is one of a schema directly below. -/
theorem property_or_below (described : s.describeWith convert = .ok a) (has : a.HasField entry) :
    (∃ property ∈ s.properties, FieldOf convert s.required property entry) ∨
      ∃ t b, s.Below t ∧ convert t = .ok b ∧ b.HasField entry := by
  cases has with
  | here member =>
    rcases property_or_part described member with own | ⟨part, isPart, given, isFields, inPart⟩
    · exact .inl own
    · exact .inr ⟨part, _, .part isPart, isFields, .here inPart⟩
  | inField member inside =>
    rcases property_or_part described member with
      ⟨property, among, b, converted, rfl⟩ | ⟨part, isPart, given, isFields, inPart⟩
    · exact .inr ⟨property.2, b, .property among, converted, inside⟩
    · exact .inr ⟨part, _, .part isPart, isFields, .inField inPart inside⟩
  | inItem member inside =>
    cases described_of_describeWith described with
    | list has converted =>
      cases List.mem_singleton.mp member
      exact .inr ⟨_, _, .items has, converted, inside⟩

end Schema

namespace Document

variable {d : Document} {active : List String} {s t property : Schema} {a : TypeDescription}
  {entry : String × FieldDescription}

/-- A field is that of a property, on some stack, of a schema that can be reached. -/
inductive Origin (d : Document) (s : Schema) (entry : String × FieldDescription) : Schema → Prop
  | intro {owner property : Schema} {active : List String} (reached : d.Reaches s owner)
      (member : (entry.1, property) ∈ owner.properties)
      (isField : Schema.FieldOf (d.convert active) owner.required (entry.1, property) entry) :
      Origin d s entry property

theorem Origin.of_reaches (reached : d.Reaches s t) (origin : d.Origin t entry property) :
    d.Origin s entry property := by
  obtain ⟨owns, member, isField⟩ := origin
  exact .intro (reached.trans owns) member isField

/-- Every field of a conversion, at whatever depth, comes of a property. -/
theorem exists_origin (converted : d.convert active s = .ok a) (has : a.HasField entry) :
    ∃ property, d.Origin s entry property := by
  induction active, s using conversion (d := d) generalizing a with
  | unresolved active s reference e isReference unresolved =>
    rw [convert_unresolved isReference unresolved] at converted
    cases converted
  | cut active s reference name target isReference resolved isActive =>
    -- a reference that is cut is described by a name, which has no fields
    rw [convert_active isReference resolved isActive, withNull_named] at converted
    cases converted
    cases has
  | opened active s reference name target isReference resolved fresh ih =>
    rw [convert_fresh isReference resolved fresh] at converted
    obtain ⟨b, inner, converted⟩ := exists_of_bind_eq_ok converted
    have unnamed : ∀ name, a ≠ .named name := by
      rintro name rfl
      cases has
    obtain rfl := eq_of_withNull (Except.ok.inj converted) unnamed
    obtain ⟨property, origin⟩ := ih inner has
    exact ⟨property, origin.of_reaches (.target isReference resolved (.self target))⟩
  | node active s noReference ih =>
    rw [convert_node noReference] at converted
    rcases Schema.property_or_below converted has with
      ⟨⟨key, property⟩, among, isField⟩ | ⟨t, b, below, inner, has⟩
    · obtain rfl : entry.1 = key := by
        obtain ⟨_, -, rfl⟩ := isField
        rfl
      exact ⟨property, .intro (.self s) among isField⟩
    · obtain ⟨property, origin⟩ := ih t below inner has
      exact ⟨property, origin.of_reaches (.child noReference below (.self t))⟩

end Document

/-! ### Operations -/

/-- Something holds of all fields of parameters and of bodies. -/
structure Inputs.Each (Holds : String × FieldDescription → Prop) (inputs : Inputs) : Prop where
  fields : ∀ entry ∈ inputs.fields, Holds entry
  body : ∀ entry ∈ inputs.body, Holds entry

variable {d : Document} {p : Parameter} {inputs : Inputs} {Fault : SwaggerError → Prop}
  {Holds : String × FieldDescription → Prop}

theorem Inputs.Each.all (each : inputs.Each Holds) : ∀ entry ∈ inputs.all, Holds entry := by
  intro entry member
  rcases List.mem_append.mp member with own | body
  · exact each.fields entry own
  · exact each.body entry (List.mem_filter.mp body).1

/-- What holds of the field of a parameter, and of the fields of its schema, holds of all fields
once it is added. -/
theorem Inputs.add_ends
    (field : ∀ required, Ends Fault (fun field => Holds (p.name, field))
      (parameterField d p required))
    (type : Ends Fault (fun a => ∀ fields, a = .fields fields → ∀ entry ∈ fields, Holds entry)
      (d.typeOf p.valueSchema))
    (each : inputs.Each Holds) : Ends Fault (Inputs.Each Holds) (inputs.add d p) := by
  unfold Inputs.add
  split
  · exact .ok each
  · have body : Ends Fault (fun found => ∀ fields, found = some fields →
        ∀ entry ∈ fields, Holds entry) (d.objectFields p.valueSchema) := by
      refine type.bind fun a described => ?_
      cases a with
      | fields fields =>
        refine .ok ?_
        rintro _ ⟨⟩
        exact described fields rfl
      | named _ => exact .ok nofun
      | list _ => exact .ok nofun
    refine body.bind fun found described => ?_
    cases found with
    | some fields => exact .ok ⟨each.fields, Entries.forall_putAll each.body (described fields rfl)⟩
    | none =>
      refine (field p.required).bind fun _ own => .ok ?_
      exact ⟨each.fields, Entries.forall_put each.body own⟩
  · exact (field true).bind fun _ own => .ok ⟨Entries.forall_put each.fields own, each.body⟩
  all_goals
    refine (field p.required).bind fun _ own => .ok ?_
    exact ⟨Entries.forall_put each.fields own, each.body⟩

end Swagger

end ActionCatalogue
