import ActionCatalogue.Swagger.Reference
import ActionCatalogue.Typing.Description

/-!
Type descriptions of schemas. References are followed; one that leads back to a definition that is
being converted already is cut to a hash, so that a conversion always ends: on every way into the
document either a definition that was not being converted is opened or the schema becomes smaller.
The parts of a composite are merged, later fields over earlier ones.
-/

namespace ActionCatalogue.Swagger

open Json

/-- A description that also allows null, if its type has a name. A star is put only once. -/
def withNull (nullable : Bool) : TypeDescription → TypeDescription
  | .named name =>
    if nullable && name.toList.head? ≠ some '*' then .named ("*" ++ name) else .named name
  | description => description

/-- Whether a type name means a hash, with null or without. -/
def namesHash (name : String) : Bool :=
  name.toList.dropWhile (· = '*') = "hash".toList

def enumerated (values : List Value) : List AllowedValue :=
  values.map fun v => .labelled v v.plainText

namespace Schema

def textTypeName (format : Option String) : String :=
  match format with
  | some "date" | some "date-time" => "date"
  | some "binary" | some "byte" => "binary"
  | _ => "string"

/-- The name of a type that is neither an object nor a list. A type that is not known keeps its
name, and is refused where types are checked. -/
def typeName (type : String) (format : Option String) : String :=
  match type with
  | "string" => textTypeName format
  | "integer" => "int"
  | "number" => "number"
  | "boolean" => "bool"
  | "file" => "binary"
  | other => other

def describedBy (s : Schema) (required : Bool) (type : TypeDescription) : FieldDescription where
  displayName := s.title
  description := s.description
  type := type
  defaultValue := s.defaultValue
  exampleValue := s.exampleValue
  allowedValues := enumerated s.allowedValues
  required := required

theorem sizeOf_items_lt {s t : Schema} (h : s.items = some t) : sizeOf t < sizeOf s := by
  cases s
  simp only at h
  simp only [mk.sizeOf_spec, h, Option.some.sizeOf_spec]
  omega

theorem sizeOf_properties_lt (s : Schema) : sizeOf s.properties < sizeOf s := by
  cases s
  simp only [mk.sizeOf_spec]
  omega

theorem sizeOf_allOf_lt (s : Schema) : sizeOf s.allOf < sizeOf s := by
  cases s
  simp only [mk.sizeOf_spec]
  omega

end Schema

namespace Document

/-- The number of definitions that are not being converted. -/
def unopened (d : Document) (active : List String) : Nat :=
  ((Entries.keys d.definitions).filter (· ∉ active)).length

theorem unopened_cons_lt {d : Document} {active : List String} {name : String}
    (known : name ∈ Entries.keys d.definitions) (fresh : name ∉ active) :
    d.unopened (name :: active) < d.unopened active := by
  have split : (Entries.keys d.definitions).filter (· ∉ name :: active) =
      ((Entries.keys d.definitions).filter (· ∉ active)).filter (· ≠ name) := by
    rw [List.filter_filter]
    congr 1
    funext k
    simp [not_or]
  rw [unopened, unopened, split]
  refine List.length_filter_lt_length_iff_exists.mpr ⟨name, ?_, by simp⟩
  simp [known, fresh]

mutual

/-- The description of a schema, while the definitions named in `active` are being converted. -/
def convert (d : Document) (active : List String) (s : Schema) :
    Except SwaggerError TypeDescription :=
  match s.reference with
  | some reference =>
    match _h : d.definition reference with
    | .error e => .error e
    | .ok (name, target) =>
      if _fresh : name ∈ active then
        .ok (withNull (s.nullable || target.nullable) (.named "hash"))
      else do
        return withNull s.nullable (← convert d (name :: active) target)
  | none =>
    if s.allOf.isEmpty then do
      let description ← match s.type with
        | some "object" => convertObject d active s
        | none => if s.properties.isEmpty then .ok (.named "any") else convertObject d active s
        | some "array" => match _h : s.items with
          | some items => do return .list [← convert d active items]
          | none => .ok (.named "list")
        | some type => .ok (.named (Schema.typeName type s.format))
      return withNull s.nullable description
    else do
      match ← convertParts d active [] s.allOf with
      | none => return .named "hash"
      | some merged =>
        let fields ← convertFields d active s.required s.properties
        let all := Entries.putAll merged fields
        return if all.isEmpty then .named "hash" else .fields all
termination_by (d.unopened active, sizeOf s, 1)
decreasing_by
  · exact Prod.Lex.left _ _ (unopened_cons_lt (mem_keys_of_definition _h) _fresh)
  · exact Prod.Lex.right _ (Prod.Lex.right _ (by decide))
  · exact Prod.Lex.right _ (Prod.Lex.right _ (by decide))
  · exact Prod.Lex.right _ (Prod.Lex.left _ _ (Schema.sizeOf_items_lt _h))
  · exact Prod.Lex.right _ (Prod.Lex.left _ _ (Schema.sizeOf_allOf_lt s))
  · exact Prod.Lex.right _ (Prod.Lex.left _ _ (Schema.sizeOf_properties_lt s))

def convertObject (d : Document) (active : List String) (s : Schema) :
    Except SwaggerError TypeDescription := do
  let fields ← convertFields d active s.required s.properties
  return if fields.isEmpty then .named "hash" else .fields fields
termination_by (d.unopened active, sizeOf s, 0)
decreasing_by exact Prod.Lex.right _ (Prod.Lex.left _ _ (Schema.sizeOf_properties_lt s))

def convertFields (d : Document) (active : List String) (required : List String) :
    List (String × Schema) → Except SwaggerError (Entries FieldDescription)
  | [] => .ok []
  | (name, s) :: rest => do
    let field := s.describedBy (required.contains name) (← convert d active s)
    return (name, field) :: (← convertFields d active required rest)
termination_by properties => (d.unopened active, sizeOf properties, 0)
decreasing_by all_goals
  refine Prod.Lex.right _ (Prod.Lex.left _ _ ?_)
  simp only [List.cons.sizeOf_spec, Prod.mk.sizeOf_spec]
  omega

/-- Merges the fields of the parts of a composite; `none` at the first part that is no object. -/
def convertParts (d : Document) (active : List String) (merged : Entries FieldDescription) :
    List Schema → Except SwaggerError (Option (Entries FieldDescription))
  | [] => .ok (some merged)
  | part :: rest => do
    match ← convert d active part with
    | .fields fields => convertParts d active (Entries.putAll merged fields) rest
    | .named name => if namesHash name then convertParts d active merged rest else return none
    | .list _ => return none
termination_by parts => (d.unopened active, sizeOf parts, 0)
decreasing_by all_goals
  refine Prod.Lex.right _ (Prod.Lex.left _ _ ?_)
  simp only [List.cons.sizeOf_spec]
  omega

end

section

variable {d : Document} {active : List String} {s : Schema} {reference : String}

theorem convert_unresolved {e : SwaggerError} (isReference : s.reference = some reference)
    (unresolved : d.definition reference = .error e) : d.convert active s = .error e := by
  rw [convert, isReference]
  grind

theorem convert_active {name : String} {target : Schema}
    (isReference : s.reference = some reference)
    (resolved : d.definition reference = .ok (name, target)) (isActive : name ∈ active) :
    d.convert active s = .ok (withNull (s.nullable || target.nullable) (.named "hash")) := by
  rw [convert, isReference]
  grind

theorem convert_fresh {name : String} {target : Schema} (isReference : s.reference = some reference)
    (resolved : d.definition reference = .ok (name, target)) (fresh : name ∉ active) :
    d.convert active s = (do return withNull s.nullable (← d.convert (name :: active) target)) := by
  rw [convert, isReference]
  grind

theorem convert_plain (noReference : s.reference = none) (noParts : s.allOf.isEmpty) :
    d.convert active s = (do
      return withNull s.nullable (← match s.type with
        | some "object" => d.convertObject active s
        | none => if s.properties.isEmpty then .ok (.named "any") else d.convertObject active s
        | some "array" => match s.items with
          | some items => do return .list [← d.convert active items]
          | none => .ok (.named "list")
        | some type => .ok (.named (Schema.typeName type s.format)))) := by
  rw [convert, noReference]
  simp only [noParts]
  split <;> grind

theorem convert_composite (noReference : s.reference = none) (parts : ¬s.allOf.isEmpty) :
    d.convert active s = (do
      match ← d.convertParts active [] s.allOf with
      | none => return .named "hash"
      | some merged =>
        let all := Entries.putAll merged (← d.convertFields active s.required s.properties)
        return if all.isEmpty then .named "hash" else .fields all) := by
  rw [convert, noReference]
  simp only [parts]
  rfl

end

/-- The description of a schema that stands on its own. -/
def typeOf (d : Document) (s : Schema) : Except SwaggerError TypeDescription :=
  d.convert [] s

/-- The fields of a schema; `none` if it is no object with fields. -/
def objectFields (d : Document) (s : Schema) :
    Except SwaggerError (Option (Entries FieldDescription)) := do
  match ← d.typeOf s with
  | .fields fields => return some fields
  | _ => return none

def fieldOf (d : Document) (s : Schema) (required : Bool) :
    Except SwaggerError FieldDescription := do
  return s.describedBy required (← d.typeOf s)

end Document

end ActionCatalogue.Swagger
