import ActionCatalogue.Proofs.Inlining
import ActionCatalogue.Proofs.OperationErrors

/-!
Where null stays allowed. A schema that allows null, or whose references lead to one that does, is
described by a name with one star, if it is described by a name at all and if the conversion comes
to look: it does not look at a composite, and where it cuts a reference it looks no further than at
the definition that the reference names.
-/

namespace ActionCatalogue.Swagger

theorem starOnce_of_begins {name : String} (begins : Begins '*' name) : starOnce name = name :=
  if_pos begins

theorem starOnce_of_not_begins {name : String} (plain : ¬Begins '*' name) :
    starOnce name = "*" ++ name :=
  if_neg plain

theorem not_begins_hash : ¬Begins '*' "hash" := by
  unfold Begins
  decide

/-! ### Names of schemas that are no references -/

namespace Schema

variable {convert : Schema → Except SwaggerError TypeDescription} {s : Schema} {name : String}

/-- A type string is translated to a name without a star, or kept. -/
theorem typeName_unstarred (type : String) (format : Option String) :
    ¬Begins '*' (typeName type format) ∨ typeName type format = type := by
  unfold Begins typeName
  split
  · unfold textTypeName
    split <;> exact .inl (by decide)
  · exact .inl (by decide)
  · exact .inl (by decide)
  · exact .inl (by decide)
  · exact .inl (by decide)
  · exact .inr rfl

/-- The name of a schema that is no composite is starred if the schema allows null. Without that,
only a type string can have a star. -/
theorem describeWith_named (noParts : s.allOf = [])
    (described : s.describeWith convert = .ok (.named name)) :
    ∃ base, (¬Begins '*' base ∨ s.type = some base) ∧
      name = if s.nullable then starOnce base else base := by
  cases described_of_describeWith described with
  | hash parts => exact absurd noParts parts
  | @named base _ known =>
    refine ⟨base, ?_, rfl⟩
    rcases known with plain | ⟨type, typed, rfl⟩
    · refine .inl ?_
      simp only [List.mem_cons, List.not_mem_nil, or_false] at plain
      unfold Begins
      rcases plain with rfl | rfl | rfl <;> decide
    · refine (typeName_unstarred type s.format).imp_right fun kept => ?_
      rw [kept, typed]

theorem composite_named (parts : s.allOf ≠ [])
    (described : s.describeWith convert = .ok (.named name)) : name = "hash" := by
  generalize isName : TypeDescription.named name = a at described
  cases described_of_describeWith described with
  | hash => exact TypeDescription.named.inj isName
  | named noParts => exact absurd noParts parts
  | object | composite | list => cases isName

end Schema

namespace Document

variable {d : Document} {active : List String} {s t : Schema} {name : String}

/-- A schema allows null, or one does that its references lead to. -/
inductive Marked (d : Document) : Schema → Prop
  | self {s : Schema} (nullable : s.nullable) : Marked d s
  | target {s t : Schema} {reference name : String} (isReference : s.reference = some reference)
      (resolved : d.definition reference = .ok (name, t)) (rest : Marked d t) : Marked d s

/-- The conversion of a schema passes over marks: it comes to a composite, or cuts a reference to a
definition without a mark, and there was no mark on the way. -/
inductive Overlooked (d : Document) : List String → Schema → Prop
  | composite {active : List String} {s : Schema} (noReference : s.reference = none)
      (parts : s.allOf ≠ []) : Overlooked d active s
  | cut {active : List String} {s target : Schema} {reference name : String}
      (isReference : s.reference = some reference)
      (resolved : d.definition reference = .ok (name, target)) (isActive : name ∈ active)
      (unmarked : s.nullable = false) (unmarkedTarget : target.nullable = false) :
      Overlooked d active s
  | opened {active : List String} {s target : Schema} {reference name : String}
      (isReference : s.reference = some reference)
      (resolved : d.definition reference = .ok (name, target)) (fresh : name ∉ active)
      (unmarked : s.nullable = false) (rest : Overlooked d (name :: active) target) :
      Overlooked d active s

/-- A name that allows null: a star before a name without one, or the type string of the schema
itself or of the one that its references lead to, if it starts with a star. -/
inductive AllowsNull (d : Document) (s : Schema) : String → Prop
  | star {base : String} (plain : ¬Begins '*' base) : AllowsNull d s ("*" ++ base)
  | kept {t : Schema} {type : String} (follows : d.Follows s t) (typed : t.type = some type)
      (starred : Begins '*' type) : AllowsNull d s type

theorem AllowsNull.starOnce {base : String} (known : ¬Begins '*' base ∨ d.AllowsNull s base) :
    d.AllowsNull s (starOnce base) := by
  by_cases begins : Begins '*' base
  · rw [starOnce_of_begins begins]
    exact known.resolve_left (not_not_intro begins)
  · rw [starOnce_of_not_begins begins]
    exact .star begins

theorem AllowsNull.of_target {reference other : String} (isReference : s.reference = some reference)
    (resolved : d.definition reference = .ok (other, t)) (allows : d.AllowsNull t name) :
    d.AllowsNull s name := by
  cases allows with
  | star plain => exact .star plain
  | kept follows typed starred => exact .kept (.next isReference resolved follows) typed starred

theorem not_allowsNull_hash : ¬d.AllowsNull s "hash" := by
  generalize isHash : "hash" = name
  rintro (plain | ⟨-, -, starred⟩)
  · have begins := congrArg (fun text => text.toList.head?) isHash
    simp at begins
  · exact not_begins_hash (isHash ▸ starred)

/-- A reference that is opened is described by the name of its target, with a star if it allows
null. -/
theorem exists_of_opened {reference other : String} (isReference : s.reference = some reference)
    (resolved : d.definition reference = .ok (other, t)) (fresh : other ∉ active)
    (named : d.convert active s = .ok (.named name)) :
    ∃ base, d.convert (other :: active) t = .ok (.named base) ∧
      name = if s.nullable then starOnce base else base := by
  rw [convert_fresh isReference resolved fresh] at named
  obtain ⟨a, converted, named⟩ := exists_of_bind_eq_ok named
  have same := Except.ok.inj named
  cases a with
  | list items => cases same
  | fields fields => cases same
  | named base =>
    rw [withNull_named] at same
    cases same
    exact ⟨base, converted, rfl⟩

theorem name_of_cut {reference other : String} (isReference : s.reference = some reference)
    (resolved : d.definition reference = .ok (other, t)) (isActive : other ∈ active)
    (named : d.convert active s = .ok (.named name)) :
    name = if s.nullable || t.nullable then starOnce "hash" else "hash" := by
  rw [convert_active isReference resolved isActive, withNull_named] at named
  cases named
  rfl

/-- Whatever name there is before null is allowed, only names that allow null have a star. -/
theorem AllowsNull.of_flag {base : String} (known : ¬Begins '*' base ∨ d.AllowsNull s base)
    (nullable : Bool) : ¬Begins '*' (if nullable then Swagger.starOnce base else base) ∨
      d.AllowsNull s (if nullable then Swagger.starOnce base else base) := by
  cases nullable with
  | true => exact .inr (.starOnce known)
  | false => exact known

/-- The name of a schema that is neither a reference nor a composite. -/
theorem exists_of_plain (noReference : s.reference = none) (noParts : s.allOf = [])
    (named : d.convert active s = .ok (.named name)) :
    ∃ base, (¬Begins '*' base ∨ d.AllowsNull s base) ∧
      name = if s.nullable then starOnce base else base := by
  rw [convert_node noReference] at named
  obtain ⟨base, typed, same⟩ := Schema.describeWith_named noParts named
  refine ⟨base, ?_, same⟩
  by_cases begins : Begins '*' base
  · exact .inr (.kept (.here noReference) (typed.resolve_left (not_not_intro begins)) begins)
  · exact .inl begins

theorem name_of_composite (noReference : s.reference = none) (parts : s.allOf ≠ [])
    (named : d.convert active s = .ok (.named name)) : name = "hash" := by
  rw [convert_node noReference] at named
  exact Schema.composite_named parts named

/-- A name with a star allows null. -/
theorem unstarred_or_allowsNull (named : d.convert active s = .ok (.named name)) :
    ¬Begins '*' name ∨ d.AllowsNull s name := by
  induction active, s using conversion (d := d) generalizing name with
  | unresolved active s reference e isReference unresolved =>
    rw [convert_unresolved isReference unresolved] at named
    cases named
  | cut active s reference other target isReference resolved isActive =>
    rw [name_of_cut isReference resolved isActive named]
    exact AllowsNull.of_flag (.inl not_begins_hash) _
  | opened active s reference other target isReference resolved fresh ih =>
    obtain ⟨base, converted, rfl⟩ := exists_of_opened isReference resolved fresh named
    exact AllowsNull.of_flag ((ih converted).imp_right (.of_target isReference resolved)) _
  | node active s noReference =>
    by_cases noParts : s.allOf = []
    · obtain ⟨base, known, rfl⟩ := exists_of_plain noReference noParts named
      exact AllowsNull.of_flag known _
    · rw [name_of_composite noReference noParts named]
      exact .inl not_begins_hash

/-- A mark that is not passed over gives a star. -/
theorem allowsNull_of_marked (marked : d.Marked s) (seen : ¬d.Overlooked active s)
    (named : d.convert active s = .ok (.named name)) : d.AllowsNull s name := by
  induction active, s using conversion (d := d) generalizing name with
  | unresolved active s reference e isReference unresolved =>
    rw [convert_unresolved isReference unresolved] at named
    cases named
  | cut active s reference other target isReference resolved isActive =>
    have flagged : (s.nullable || target.nullable) = true := by
      cases own : s.nullable with
      | true => rfl
      | false =>
        cases targets : target.nullable with
        | true => rfl
        | false => exact absurd (.cut isReference resolved isActive own targets) seen
    rw [name_of_cut isReference resolved isActive named, if_pos flagged]
    exact .starOnce (.inl not_begins_hash)
  | opened active s reference other target isReference resolved fresh ih =>
    obtain ⟨base, converted, rfl⟩ := exists_of_opened isReference resolved fresh named
    cases own : s.nullable with
    | true =>
      have known := unstarred_or_allowsNull converted
      exact .starOnce (known.imp_right (.of_target isReference resolved))
    | false =>
      have markedTarget : d.Marked target := by
        cases marked with
        | self nullable =>
          rw [own] at nullable
          cases nullable
        | target again found rest =>
          cases again.symm.trans isReference
          cases found.symm.trans resolved
          exact rest
      have seenTarget : ¬d.Overlooked (other :: active) target :=
        fun overlooked => seen (.opened isReference resolved fresh own overlooked)
      exact (ih markedTarget seenTarget converted).of_target isReference resolved
  | node active s noReference =>
    have noParts : s.allOf = [] := by
      by_contra parts
      exact seen (.composite noReference parts)
    have nullable : s.nullable := by
      cases marked with
      | self nullable => exact nullable
      | target isReference =>
        rw [noReference] at isReference
        cases isReference
    obtain ⟨base, known, rfl⟩ := exists_of_plain noReference noParts named
    rw [if_pos nullable]
    exact .starOnce known

/-- Where all marks are passed over, the name is that of a hash. -/
theorem name_of_overlooked (overlooked : d.Overlooked active s)
    (named : d.convert active s = .ok (.named name)) : name = "hash" := by
  induction overlooked generalizing name with
  | composite noReference parts => exact name_of_composite noReference parts named
  | cut isReference resolved isActive unmarked unmarkedTarget =>
    rw [name_of_cut isReference resolved isActive named, unmarked, unmarkedTarget]
    rfl
  | opened isReference resolved fresh unmarked _ ih =>
    obtain ⟨base, converted, rfl⟩ := exists_of_opened isReference resolved fresh named
    rw [unmarked, ih converted]
    rfl

/-- Where a schema, or one that its references lead to, allows null, the name that it is converted
to starts with one star, or is a type string that starts with a star of its own, exactly if the
conversion does not pass over the mark; and where it does, the name is that of a hash. -/
theorem null_is_kept_iff_not_overlooked (d : Document) (active : List String) (s : Schema)
    (name : String) (marked : d.Marked s) (named : d.convert active s = .ok (.named name)) :
    (d.AllowsNull s name ↔ ¬d.Overlooked active s) ∧ (d.Overlooked active s → name = "hash") := by
  refine ⟨⟨fun allows overlooked => ?_, fun seen => allowsNull_of_marked marked seen named⟩,
    fun overlooked => name_of_overlooked overlooked named⟩
  rw [name_of_overlooked overlooked named] at allows
  exact not_allowsNull_hash allows

end Document

def labelReference : Schema := { reference := some "#/definitions/Label" }

def nullableAlias : Schema := { reference := some "#/definitions/Text", nullable := true }

def labelText : Schema := { type := some "string" }

/-- An alias that allows null, for a definition that does not. -/
def labels : Document where
  definitions := [("Label", nullableAlias), ("Text", labelText)]

theorem alias_keeps_null :
    labels.Marked labelReference ∧
      labels.convert [] labelReference = .ok (.named "*string") ∧
      labels.AllowsNull labelReference "*string" ∧ ¬labels.Overlooked [] labelReference := by
  have label : labels.definition "#/definitions/Label" = .ok ("Label", nullableAlias) := rfl
  have text : labels.definition "#/definitions/Text" = .ok ("Text", labelText) := rfl
  have marked : labels.Marked labelReference := .target rfl label (.self rfl)
  have string : labels.convert ["Text", "Label"] labelText = .ok (.named "string") := by
    rw [Document.convert_node rfl]
    rfl
  have named : labels.convert [] labelReference = .ok (.named "*string") := by
    rw [Document.convert_fresh rfl label (by decide), Document.convert_fresh rfl text (by decide),
      string]
    rfl
  have unstarred : ¬Begins '*' "string" := by
    unfold Begins
    decide
  have kept : labels.AllowsNull labelReference "*string" := .star unstarred
  have iff := Document.null_is_kept_iff_not_overlooked labels [] labelReference _ marked named
  exact ⟨marked, named, kept, iff.1.mp kept⟩

/-- A composite of objects without properties. -/
def nullableComposite : Schema := { allOf := [{ type := some "object" }], nullable := true }

def folderReference : Schema := { reference := some "#/definitions/Folder" }

def aliasReference : Schema := { reference := some "#/definitions/Alias" }

def folder : Schema :=
  { type := some "object", nullable := true, properties := [("parent", aliasReference)] }

/-- A definition that allows null and refers to itself by an alias. -/
def folders : Document where
  definitions := [("Alias", folderReference), ("Folder", folder)]

/-- The mark of a composite is lost, and so is that of a definition behind an alias that is cut. -/
theorem marks_are_lost :
    (Document.Marked {} nullableComposite ∧
      Document.convert {} [] nullableComposite = .ok (.named "hash") ∧
      ¬Document.AllowsNull {} nullableComposite "hash") ∧
    folders.Marked aliasReference ∧
      folders.convert ["Folder", "Alias"] aliasReference = .ok (.named "hash") ∧
      ¬folders.AllowsNull aliasReference "hash" := by
  have part : Document.convert {} [] { type := some "object" } = .ok (.named "hash") := by
    rw [Document.convert_node rfl]
    rfl
  have composite : Document.convert {} [] nullableComposite = .ok (.named "hash") := by
    rw [Document.convert_node rfl]
    simp only [Schema.describeWith, Schema.compositeWith, nullableComposite, Schema.partsWith, part]
    rfl
  have target : folders.definition "#/definitions/Alias" = .ok ("Alias", folderReference) := rfl
  have further : folders.definition "#/definitions/Folder" = .ok ("Folder", folder) := rfl
  have marked : folders.Marked aliasReference :=
    .target rfl target (.target rfl further (.self rfl))
  have cut : folders.convert ["Folder", "Alias"] aliasReference = .ok (.named "hash") :=
    Document.convert_active rfl target (by decide)
  exact ⟨⟨.self rfl, composite, Document.not_allowsNull_hash⟩, marked, cut,
    Document.not_allowsNull_hash⟩

end ActionCatalogue.Swagger
