import ActionCatalogue.Typing.OptionType

/-!
Type descriptions as they are written by hand or derived from a schema: a type name, a list, or
fields with their texts, values and functions. Nothing in them is checked; the normalizer turns them
into types and options.
-/

namespace ActionCatalogue

open Json

mutual

inductive TypeDescription where
  | named (name : String)
  | list (items : List TypeDescription)
  | fields (fields : List (String × FieldDescription))

structure FieldDescription where
  displayName : Option String := none
  shortDescription : Option String := none
  description : Option String := none
  type : TypeDescription
  defaultValue : Option Value := none
  exampleValue : Option Value := none
  allowedValues : List AllowedValue := []
  getAllowedValues : Option (ActionContext → Inquiry String (List AllowedValue)) := none
  getDependentOptions : Option (ActionContext → Inquiry String (List (String × ActionOption))) :=
    none
  dependsOn : List String := []
  required : Bool := false
  preselected : Bool := false

end

namespace TypeDescription

def kind : TypeDescription → String
  | .named _ => "named"
  | .list _ => "list"
  | .fields _ => "fields"

mutual

def toJson : TypeDescription → Value
  | .named name => .text name
  | .list items => .list (itemsToJson items)
  | .fields fs => .object (fieldsToJson fs)

def itemsToJson : List TypeDescription → List Value
  | [] => []
  | d :: rest => d.toJson :: itemsToJson rest

def fieldsToJson : List (String × FieldDescription) → List (String × Value)
  | [] => []
  | (name, f) :: rest => (name, fieldToJson f) :: fieldsToJson rest

def fieldToJson : FieldDescription → Value
  | { displayName, shortDescription, description, type, defaultValue, exampleValue, allowedValues,
      dependsOn, required, preselected, .. } =>
    .object (
      Value.entry? "display_name" (displayName.map .text) ++
      Value.entry? "short_desc" (shortDescription.map .text) ++
      Value.entry? "desc" (description.map .text) ++
      [("type", type.toJson)] ++
      Value.entry? "default_value" defaultValue ++
      Value.entry? "example_value" exampleValue ++
      (if allowedValues.isEmpty then []
        else [("allowed_values", .list (allowedValues.map AllowedValue.toJson))]) ++
      (if dependsOn.isEmpty then [] else [("depends_on", Value.texts dependsOn)]) ++
      [("required", .bool required), ("preselected", .bool preselected)])

end

end TypeDescription

namespace FieldDescription

def toJson (f : FieldDescription) : Value := TypeDescription.fieldToJson f

def fieldNames : List String :=
  ["display_name", "short_desc", "desc", "type", "default_value", "example_value",
    "allowed_values", "depends_on", "required", "preselected"]

/-- Reads a field; `type` reads the part that is its type. -/
def ofNodeWith (n : Node) (type : (v : Node) → sizeOf v < sizeOf n → Reading TypeDescription) :
    Reading FieldDescription :=
  n.asRecord fieldNames fun r =>
    (fun displayName shortDescription description type defaultValue exampleValue allowedValues
        dependsOn required preselected =>
      { displayName, shortDescription, description, type, defaultValue, exampleValue,
        allowedValues, dependsOn, required, preselected : FieldDescription })
      <$> r.optional "display_name" Node.asText <*> r.optional "short_desc" Node.asText
      <*> r.optional "desc" Node.asText
      <*> r.requiredPart "type" type
      <*> r.optional "default_value" Node.asValue <*> r.optional "example_value" Node.asValue
      <*> r.orDefault "allowed_values" [] (Node.asListOf AllowedValue.ofNode)
      <*> r.texts "depends_on" <*> r.flag "required" <*> r.flag "preselected"

end FieldDescription

/-- Reads a description by its shape. A fault inside it has no reason of its own. -/
def TypeDescription.ofNode (n : Node) : Reading TypeDescription :=
  match _h : n with
  | .text s => .ok (.named s)
  | .list _ _ => do
    return .list (← Node.withoutReason (n.asListOfParts fun v _ => ofNode v))
  | .map _ _ => do
    return .fields (← Node.withoutReason <| n.asMapOfParts fun v _ =>
      FieldDescription.ofNodeWith v fun w _ => ofNode w)
  | _ => .error .misshapen
termination_by sizeOf n
decreasing_by
  · simp_all
  · simp_all; omega

def FieldDescription.ofNode (n : Node) : Reading FieldDescription :=
  FieldDescription.ofNodeWith n fun v _ => TypeDescription.ofNode v

end ActionCatalogue
