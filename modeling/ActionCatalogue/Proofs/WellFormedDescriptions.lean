import ActionCatalogue.Proofs.ConversionSteps
import ActionCatalogue.Proofs.ExactNormalization
import ActionCatalogue.Proofs.OperationErrors

/-!
What conversions hand to the normalizer. Every list in a converted description has one item and no
fields are empty, so that the normalizer has only names and depth to complain of; and a name that is
no type name is the type string of a schema that can be reached, with a star before it or not.
-/

namespace ActionCatalogue

/-- A description whose lists have one item each, whose fields are never empty, and all of whose
names are of a kind. -/
inductive TypeDescription.Formed (Named : String → Prop) : TypeDescription → Prop
  | named {name : String} (holds : Named name) : Formed Named (.named name)
  | list {item : TypeDescription} (inner : Formed Named item) : Formed Named (.list [item])
  | fields {fields : List (String × FieldDescription)} (filled : fields ≠ [])
      (each : ∀ entry ∈ fields, Formed Named entry.2.type) : Formed Named (.fields fields)

theorem TypeDescription.Formed.mono {Named Other : String → Prop} {a : TypeDescription}
    (formed : a.Formed Named) (weaker : ∀ name, Named name → Other name) : a.Formed Other := by
  induction formed with
  | named holds => exact .named (weaker _ holds)
  | list _ ih => exact .list ih
  | fields filled _ ih => exact .fields filled ih

/-- A type name may have a star, if it has none. -/
theorem isTypeName_star {name : String} (isName : IsTypeName name)
    (unstarred : name.toList.head? ≠ some '*') : IsTypeName ("*" ++ name) := by
  obtain ⟨⟨base, soft, nullable⟩, allowed, rfl⟩ := isName
  cases nullable with
  | true => simp [PrimitiveType.text] at unstarred
  | false =>
    refine ⟨⟨base, soft, true⟩, allowed, ?_⟩
    simp [PrimitiveType.text, String.append_assoc]

theorem isTypeName_base (base : BaseType) : IsTypeName base.name :=
  ⟨⟨base, false, false⟩, nofun, by simp [PrimitiveType.text]⟩

namespace Swagger

/-- The type strings that swagger has of its own. -/
def swaggerTypes : List String :=
  ["string", "integer", "number", "boolean", "file", "object", "array"]

namespace Document

variable {d : Document} {s t : Schema} {name : String}

/-- A name that is the type string of a schema that can be reached, with a star before it or not,
where neither swagger nor the catalogue has that type. -/
def ForeignName (d : Document) (s : Schema) (name : String) : Prop :=
  ∃ t type, d.Reaches s t ∧ t.type = some type ∧ type ∉ swaggerTypes ∧ ¬IsTypeName type ∧
    (name = type ∨ name = "*" ++ type)

/-- The names that a schema can give to a description. -/
def NamedFrom (d : Document) (s : Schema) (name : String) : Prop :=
  IsTypeName name ∨ d.ForeignName s name

theorem NamedFrom.of_reaches (reached : d.Reaches s t) (named : d.NamedFrom t name) :
    d.NamedFrom s name := by
  refine named.imp_right ?_
  rintro ⟨u, type, later, typed⟩
  exact ⟨u, type, reached.trans later, typed⟩

theorem NamedFrom.base (base : BaseType) : d.NamedFrom s base.name := .inl (isTypeName_base base)

theorem NamedFrom.starOnce (named : d.NamedFrom s name) : d.NamedFrom s (starOnce name) := by
  unfold Swagger.starOnce
  split
  next => exact named
  next unstarred =>
    rcases named with isName | ⟨t, type, reached, typed, own, unknown, rfl | rfl⟩
    · exact .inl (isTypeName_star isName unstarred)
    · exact .inr ⟨t, name, reached, typed, own, unknown, .inr rfl⟩
    · simp at unstarred

theorem formed_withNull {a : TypeDescription} (formed : a.Formed (d.NamedFrom s))
    (nullable : Bool) : (withNull nullable a).Formed (d.NamedFrom s) := by
  cases formed with
  | list inner => exact .list inner
  | fields filled each => exact .fields filled each
  | named holds =>
    rw [withNull_named]
    cases nullable with
    | true => exact .named holds.starOnce
    | false => exact .named holds

/-- A type string of swagger's own is translated, any other is kept. -/
theorem namedFrom_typeName {type : String} (typed : s.type = some type)
    (notObject : type ≠ "object") (notArray : type ≠ "array") (format : Option String) :
    d.NamedFrom s (Schema.typeName type format) := by
  unfold Schema.typeName
  split
  · unfold Schema.textTypeName
    split
    · exact .base .date
    · exact .base .date
    · exact .base .binary
    · exact .base .binary
    · exact .base .string
  · exact .base .int
  · exact .base .number
  · exact .base .bool
  · exact .base .binary
  next =>
    by_cases isName : IsTypeName type
    · exact .inl isName
    · refine .inr ⟨s, type, .self s, typed, ?_, isName, .inl rfl⟩
      simp_all [swaggerTypes]

end Document

/-! ### Conversions -/

section

variable {d : Document} {s : Schema} {Fault : SwaggerError → Prop} {Named : String → Prop}
  {convert : Schema → Except SwaggerError TypeDescription}

def FormedFields (Named : String → Prop) (fields : Entries FieldDescription) : Prop :=
  ∀ entry ∈ fields, entry.2.type.Formed Named

/-- Fields that are empty are described by a name. -/
theorem FormedFields.ofFields {fields : Entries FieldDescription}
    (formed : FormedFields Named fields) (hash : Named "hash") :
    (Schema.ofFields fields).Formed Named := by
  unfold Schema.ofFields
  split
  next => exact .named hash
  next filled => exact .fields (by simpa using filled) formed

theorem Schema.fieldsWith_ends {required : List String} {properties : List (String × Schema)}
    (each : ∀ property ∈ properties, Ends Fault (·.Formed Named) (convert property.2)) :
    Ends Fault (FormedFields Named) (fieldsWith convert required properties) :=
  Ends.mapM fun property member => (each property member).bind fun _ formed => Ends.ok formed

theorem Schema.partsWith_ends {parts : List Schema}
    (each : ∀ part ∈ parts, Ends Fault (·.Formed Named) (convert part))
    {merged : Entries FieldDescription} (formed : FormedFields Named merged) :
    Ends Fault (fun found => ∀ fields, found = some fields → FormedFields Named fields)
      (partsWith convert merged parts) := by
  induction parts generalizing merged with
  | nil =>
    refine .ok ?_
    rintro _ ⟨⟩
    exact formed
  | cons part rest ih =>
    have noFields : ∀ fields, none = some fields → FormedFields Named fields := by rintro _ ⟨⟩
    have later : ∀ merged, FormedFields Named merged →
        Ends Fault _ (partsWith convert merged rest) :=
      fun _ => ih fun p member => each p (List.mem_cons_of_mem _ member)
    rw [partsWith]
    refine (each part List.mem_cons_self).bind fun description described => ?_
    cases described with
    | fields _ inner => exact later _ (Entries.forall_putAll formed inner)
    | named _ =>
      dsimp only
      split
      · exact later _ formed
      · exact .ok noFields
    | list _ => exact .ok noFields

/-- A description from well-formed descriptions is well-formed itself. -/
theorem Schema.describeWith_ends
    (below : ∀ t, s.Below t → Ends Fault (·.Formed (d.NamedFrom s)) (convert t)) :
    Ends Fault (·.Formed (d.NamedFrom s)) (s.describeWith convert) := by
  have hash : d.NamedFrom s "hash" := .base .hash
  have fields : Ends Fault (FormedFields (d.NamedFrom s))
      (fieldsWith convert s.required s.properties) :=
    fieldsWith_ends fun property member => below property.2 (.property member)
  have object : Ends Fault (·.Formed (d.NamedFrom s))
      (ofFields <$> fieldsWith convert s.required s.properties) :=
    fields.map fun _ formed => formed.ofFields hash
  have plain : Ends Fault (·.Formed (d.NamedFrom s)) (plainWith convert s) := by
    unfold plainWith
    split
    next => exact object
    next =>
      split
      · exact .ok (.named (.base .any))
      · exact object
    next =>
      split
      next items has => exact (below items (.items has)).map fun _ inner => .list inner
      next => exact .ok (.named (.base .list))
    next type notObject notArray typed =>
      exact .ok (.named (Document.namedFrom_typeName typed (by simpa using notObject)
        (by simpa using notArray) s.format))
  unfold describeWith
  split
  · exact plain.map fun _ formed => Document.formed_withNull formed s.nullable
  · have empty : FormedFields (d.NamedFrom s) [] := List.forall_mem_nil _
    have parts := partsWith_ends (fun part member => below part (.part member)) empty
    refine parts.bind fun found formed => ?_
    cases found with
    | none => exact .ok (.named hash)
    | some merged =>
      have filled : FormedFields (d.NamedFrom s) merged := formed merged rfl
      refine fields.bind fun own described => .ok ?_
      exact FormedFields.ofFields (Entries.forall_putAll filled described) hash

end

namespace Document

variable {d : Document} {s t : Schema}

/-- The error of a reference to a definition that can be reached from a schema and leads nowhere. -/
def Dangling (d : Document) (s : Schema) (e : SwaggerError) : Prop :=
  ∃ t reference, d.Reaches s t ∧ t.reference = some reference ∧ d.definition reference = .error e

theorem Dangling.of_reaches {e : SwaggerError} (reached : d.Reaches s t)
    (dangling : d.Dangling t e) : d.Dangling s e := by
  obtain ⟨u, reference, later, isReference, fails⟩ := dangling
  exact ⟨u, reference, reached.trans later, isReference, fails⟩

/-- What a conversion ends with from one schema is also what it can end with from a schema that
reaches it. -/
theorem ends_of_reaches {x : Except SwaggerError TypeDescription} (reached : d.Reaches s t)
    (ends : Ends (d.Dangling t) (·.Formed (d.NamedFrom t)) x) :
    Ends (d.Dangling s) (·.Formed (d.NamedFrom s)) x :=
  ends.mono (fun _ => Dangling.of_reaches reached) fun _ formed =>
    formed.mono fun _ => NamedFrom.of_reaches reached

theorem convert_ends (d : Document) (active : List String) (s : Schema) :
    Ends (d.Dangling s) (·.Formed (d.NamedFrom s)) (d.convert active s) := by
  induction active, s using conversion (d := d) with
  | unresolved active s reference e isReference unresolved =>
    rw [convert_unresolved isReference unresolved]
    exact .error ⟨s, reference, .self s, isReference, unresolved⟩
  | cut active s reference name target isReference resolved isActive =>
    rw [convert_active isReference resolved isActive]
    exact .ok (formed_withNull (.named (.base .hash)) _)
  | opened active s reference name target isReference resolved fresh ih =>
    have reached : d.Reaches s target := .target isReference resolved (.self target)
    rw [convert_fresh isReference resolved fresh]
    exact (ends_of_reaches reached ih).bind fun a formed => .ok (formed_withNull formed s.nullable)
  | node active s noReference ih =>
    rw [convert_node noReference]
    exact Schema.describeWith_ends fun t below =>
      ends_of_reaches (.child noReference below (.self t)) (ih t below)

end Document

end Swagger

end ActionCatalogue
