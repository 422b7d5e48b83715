import ActionCatalogue.Swagger.Conversion

/-!
The conversion of schemas as a walk with a state. The definitions that are being converted stand on
one stack for the whole walk: a name is pushed where a reference is followed, and is popped when its
definition has been converted, with a description or with an error. A walk may go on for ever; what
it does is what its conversions do that are nested no deeper than any given number.
-/

namespace ActionCatalogue.Swagger

structure Converter where
  /-- The definitions that are being converted, the innermost first. -/
  stack : List String := []
  /-- The stacks with which conversions began, in their order. -/
  begun : List (List String) := []
deriving DecidableEq, Repr

namespace Converter

def begin (c : Converter) : Converter := { c with begun := c.begun ++ [c.stack] }

def push (name : String) (c : Converter) : Converter := { c with stack := name :: c.stack }

def pop (c : Converter) : Converter := { c with stack := c.stack.tail }

end Converter

/-- A computation of a converter: it ends with a value or an error, or it goes too deep. -/
abbrev Walk := ExceptT SwaggerError (StateT Converter Option)

def fields? : TypeDescription → Option (Entries FieldDescription)
  | .fields fields => some fields
  | _ => none

namespace Walk

variable {α : Type}

def tooDeep : Walk α := ExceptT.mk fun _ => none

/-! In what follows `convert` is the conversion one level deeper. -/

variable (convert : Schema → Walk TypeDescription)

/-- The description of a definition, whose name is on the stack meanwhile. -/
def definition (name : String) (target : Schema) : Walk TypeDescription :=
  -- the outcome is taken below the errors, so that an error too is followed by the pop
  ExceptT.mk do
    modify (Converter.push name)
    let outcome ← (convert target).run
    modify Converter.pop
    return outcome

def field (s : Schema) (required : Bool) : Walk FieldDescription := do
  return s.describedBy required (← convert s)

def objectFields (s : Schema) : Walk (Option (Entries FieldDescription)) := do
  return fields? (← convert s)

def fields (required : List String) : List (String × Schema) → Walk (Entries FieldDescription)
  | [] => return []
  | (name, s) :: rest => do
    let described ← field convert s (required.contains name)
    return (name, described) :: (← fields required rest)

def object (s : Schema) : Walk TypeDescription := do
  let described ← fields convert s.required s.properties
  return if described.isEmpty then .named "hash" else .fields described

/-- Merges the fields of the parts of a composite, up to the first part that is no object. -/
def parts (merged : Entries FieldDescription) :
    List Schema → Walk (Option (Entries FieldDescription))
  | [] => return some merged
  | part :: rest => do
    match ← convert part with
    | .fields described => parts (Entries.putAll merged described) rest
    | .named name => if namesHash name then parts merged rest else return none
    | .list _ => return none

def schema (d : Document) (s : Schema) : Walk TypeDescription := do
  modify Converter.begin
  match s.reference with
  | some reference =>
    match d.definition reference with
    | .error e => throw e
    | .ok (name, target) =>
      if name ∈ (← get).stack then
        return withNull (s.nullable || target.nullable) (.named "hash")
      else
        return withNull s.nullable (← definition convert name target)
  | none =>
    if s.allOf.isEmpty then
      let description ← match s.type with
        | some "object" => object convert s
        | none => if s.properties.isEmpty then pure (.named "any") else object convert s
        | some "array" => match s.items with
          | some items => do pure (.list [← convert items])
          | none => pure (.named "list")
        | some type => pure (.named (Schema.typeName type s.format))
      return withNull s.nullable description
    else
      match ← parts convert [] s.allOf with
      | none => return .named "hash"
      | some merged =>
        let all := Entries.putAll merged (← fields convert s.required s.properties)
        return if all.isEmpty then .named "hash" else .fields all

end Walk

namespace Document

/-- The walk over a schema, as far as its conversions are nested no deeper than `depth`. -/
def walk (d : Document) : Nat → Schema → Walk TypeDescription
  | 0, _ => Walk.tooDeep
  | depth + 1, s => Walk.schema (walk d depth) d s

theorem objectFields_eq_map (d : Document) (s : Schema) :
    d.objectFields s = fields? <$> d.typeOf s := by
  unfold objectFields
  cases d.typeOf s with
  | error e => rfl
  | ok description => cases description <;> rfl

end Document

end ActionCatalogue.Swagger
