import ActionCatalogue.App.Context
import ActionCatalogue.Json.Printer
import ActionCatalogue.Typing.Vocabulary

/-!
Types of action options and responses, and the options themselves. A type is a primitive, a nested
shape of options or a typed list; in JSON these are a name, an object and an array of one element.
Reading fills the name of a nested option from its key where the option has none of its own.
-/

namespace ActionCatalogue

open Json

structure AllowedValue where
  value : Value
  displayName : String := ""
  shortDescription : String := ""
  description : String := ""

namespace AllowedValue

def labelled (value : Value) (label : String) : AllowedValue :=
  ⟨value, label, label, label⟩

def valueText (v : AllowedValue) : String := v.value.plainText

def toJson (v : AllowedValue) : Value :=
  .object [("value", v.value), ("display_name", .text v.displayName),
    ("short_desc", .text v.shortDescription), ("desc", .text v.description)]

def fieldNames : List String := ["value", "display_name", "short_desc", "desc"]

def ofNode (n : Node) : Reading AllowedValue :=
  n.asRecord fieldNames fun r =>
    AllowedValue.mk <$> r.required "value" Node.asValue <*> r.text "display_name"
      <*> r.text "short_desc" <*> r.text "desc"

end AllowedValue

mutual

inductive OptionType where
  | primitive (type : PrimitiveType)
  | hash (fields : List (String × ActionOption))
  | list (item : OptionType)

structure ActionOption where
  name : String
  displayName : String := ""
  shortDescription : String := ""
  description : String := ""
  type : OptionType
  defaultValue : Option Value := none
  exampleValue : Option Value := none
  allowedValues : List AllowedValue := []
  /-- Fetches further allowed values. -/
  getAllowedValues : Option (ActionContext → Inquiry String (List AllowedValue)) := none
  /-- Produces the options that appear once this one has a value. -/
  getDependentOptions : Option (ActionContext → Inquiry String (List (String × ActionOption))) :=
    none
  dependsOn : List String := []
  required : Bool := false
  preselected : Bool := false

end

namespace OptionType

def primitive? : OptionType → Option PrimitiveType
  | .primitive p => some p
  | _ => none

def fields? : OptionType → Option (Entries ActionOption)
  | .hash fields => some fields
  | _ => none

mutual

def depth : OptionType → Nat
  | .primitive _ => 0
  | .hash fields => 1 + fieldsDepth fields
  | .list item => 1 + item.depth

def fieldsDepth : List (String × ActionOption) → Nat
  | [] => 0
  | (_, o) :: rest => max (optionDepth o) (fieldsDepth rest)

def optionDepth : ActionOption → Nat
  | { type, .. } => type.depth

end

mutual

def text : OptionType → String
  | .primitive p => p.text
  | .hash fields => "\x7b" ++ fieldsText fields ++ "\x7d"
  | .list item => "[" ++ item.text ++ "]"

def fieldsText : List (String × ActionOption) → String
  | [] => ""
  | [(name, o)] => name ++ ": " ++ optionText o
  | (name, o) :: rest => name ++ ": " ++ optionText o ++ ", " ++ fieldsText rest

def optionText : ActionOption → String
  | { type, .. } => type.text

end

mutual

def toJson : OptionType → Value
  | .primitive p => p.toJson
  | .list item => .list [item.toJson]
  | .hash fields => .object (fieldsToJson fields)

def fieldsToJson : List (String × ActionOption) → List (String × Value)
  | [] => []
  | (name, o) :: rest => (name, optionToJson o) :: fieldsToJson rest

def optionToJson : ActionOption → Value
  | { name, displayName, shortDescription, description, type, defaultValue, exampleValue,
      allowedValues, dependsOn, required, preselected, .. } =>
    .object (
      [("name", .text name), ("display_name", .text displayName),
        ("short_desc", .text shortDescription), ("desc", .text description),
        ("type", type.toJson)] ++
      Value.entry? "default_value" defaultValue ++
      Value.entry? "example_value" exampleValue ++
      (if allowedValues.isEmpty then []
        else [("allowed_values", .list (allowedValues.map AllowedValue.toJson))]) ++
      (if dependsOn.isEmpty then [] else [("depends_on", Value.texts dependsOn)]) ++
      [("required", .bool required), ("preselected", .bool preselected)])

end

end OptionType

namespace ActionOption

def toJson (o : ActionOption) : Value := OptionType.optionToJson o

def isDynamic (o : ActionOption) : Bool :=
  o.getAllowedValues.isSome || o.getDependentOptions.isSome

/-- The allowed values, the static ones first. -/
def allowedValuesFor (o : ActionOption) : Deferred (List AllowedValue) := fun context =>
  match o.getAllowedValues with
  | none => return o.allowedValues
  | some fetch => do return o.allowedValues ++ (← fetch context)

def dependentOptionsFor (o : ActionOption) : Deferred (Entries ActionOption) := fun context =>
  match o.getDependentOptions with
  | none => return []
  | some fetch => fetch context

def fieldNames : List String :=
  ["name", "display_name", "short_desc", "desc", "type", "default_value", "example_value",
    "allowed_values", "depends_on", "required", "preselected"]

/-- Reads an option; `type` reads the part that is its type. -/
def ofNodeWith (n : Node) (type : (v : Node) → sizeOf v < sizeOf n → Reading OptionType) :
    Reading ActionOption :=
  n.asRecord fieldNames fun r =>
    (fun name displayName shortDescription description type defaultValue exampleValue allowedValues
        dependsOn required preselected =>
      { name, displayName, shortDescription, description, type, defaultValue, exampleValue,
        allowedValues, dependsOn, required, preselected : ActionOption })
      <$> r.text "name" <*> r.text "display_name" <*> r.text "short_desc" <*> r.text "desc"
      <*> r.requiredPart "type" type
      <*> r.optional "default_value" Node.asValue <*> r.optional "example_value" Node.asValue
      <*> r.orDefault "allowed_values" [] (Node.asListOf AllowedValue.ofNode)
      <*> r.texts "depends_on" <*> r.flag "required" <*> r.flag "preselected"

/-- The option under a key, named by the key if it has no name. -/
def namedBy (key : String) (o : ActionOption) : ActionOption :=
  if o.name.isEmpty then { o with name := key } else o

end ActionOption

namespace OptionType

/-- The type that a list of types writes: there has to be exactly one. -/
def ofItems : List OptionType → Reading OptionType
  | [item] => .ok (.list item)
  | items => .error (.rule (.invalidType ""
      s!"list type must have exactly one element, got {items.length}"))

/-- Reads a type. A fault inside a list or a nested shape has no reason of its own. -/
def ofNode (n : Node) : Reading OptionType :=
  match _h : n with
  | .text s =>
    match PrimitiveType.parse s with
    | .ok p => .ok (.primitive p)
    | .error e => .error (.rule e)
  | .list _ _ => do
    ofItems (← Node.withoutReason (n.asListOfParts fun v _ => ofNode v))
  | .map _ _ => do
    let fields ← Node.withoutReason <| n.asMapOfParts fun v _ =>
      ActionOption.ofNodeWith v fun w _ => ofNode w
    return .hash (fields.map fun (key, o) => (key, o.namedBy key))
  | _ => .error .misshapen
termination_by sizeOf n
decreasing_by
  · simp_all
  · simp_all; omega

end OptionType

def ActionOption.ofNode (n : Node) : Reading ActionOption :=
  ActionOption.ofNodeWith n fun v _ => OptionType.ofNode v

end ActionCatalogue
