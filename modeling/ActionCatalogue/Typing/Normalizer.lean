import ActionCatalogue.Text.Blank
import ActionCatalogue.Text.Naming
import ActionCatalogue.Typing.Description

/-!
The normalizer turns descriptions into types and options. It checks type names and the arity of
lists, keeps keys, flags, values and functions as they are, and gives every option its three texts:
from the description, else from the translator, else from one another, and in the end from the name.
Each level of nesting counts, and too many of them are refused.
-/

namespace ActionCatalogue

/-- The text of a locale under a key, if there is one. -/
abbrev Translator := String → String → Option String

structure Translation where
  locale : String
  key : String
  text : String

/-- A table of translations; a later one replaces an earlier one for the same locale and key. -/
abbrev Translations := List Translation

def Translations.lookup (table : Translations) : Translator := fun locale key =>
  (table.reverse.find? fun t => t.locale == locale && t.key == key).map (·.text)

structure Normalizer where
  locale : String := "en"
  /-- What stands before the path in the keys of translations. -/
  scope : Option String := none
  /-- The table of the translator, where no other translator is given. -/
  translations : Translations := []
  translator : Translator := translations.lookup
  maxDepth : Nat := 64

namespace Normalizer

def within (n : Normalizer) (segment : String) : Normalizer :=
  { n with scope := some (match n.scope with
      | some scope => scope ++ "." ++ segment
      | none => segment) }

/-- The translation of one of the texts of the field at a path; an empty one does not count. -/
def translated? (n : Normalizer) (path what : String) : Option String :=
  let key := match n.scope with
    | some scope => scope ++ "." ++ path ++ "." ++ what
    | none => path ++ "." ++ what
  (n.translator n.locale key).filter (!·.isEmpty)

structure Labels where
  displayName : String
  shortDescription : String
  description : String

def labels (n : Normalizer) (path name : String)
    (displayName shortDescription description : Option String) : Labels :=
  let display := (displayName.bind Text.nonBlank?).orElse
    (fun _ => n.translated? path "display_name") |>.getD (Naming.label name)
  let long := (description.bind Text.nonBlank?).orElse fun _ => n.translated? path "desc"
  let short := ((shortDescription.bind Text.nonBlank?).orElse
    (fun _ => n.translated? path "short_desc")).orElse (fun _ => long) |>.getD display
  ⟨display, short, long.getD short⟩

/-- An allowed value with the texts that it lacks: the value itself, then one from the other. -/
def fillAllowedValue (v : AllowedValue) : AllowedValue :=
  let display := if v.displayName.isEmpty then v.valueText else v.displayName
  let short := if v.shortDescription.isEmpty then display else v.shortDescription
  let long := if v.description.isEmpty then short else v.description
  ⟨v.value, display, short, long⟩

def joinPath (parent name : String) : String :=
  if parent.isEmpty then name else parent ++ "." ++ name

def describedOption (n : Normalizer) (name path : String) (field : FieldDescription)
    (type : OptionType) : ActionOption :=
  let texts := n.labels path name field.displayName field.shortDescription field.description
  { name, type
    displayName := texts.displayName
    shortDescription := texts.shortDescription
    description := texts.description
    defaultValue := field.defaultValue
    exampleValue := field.exampleValue
    allowedValues := field.allowedValues.map fillAllowedValue
    getAllowedValues := field.getAllowedValues
    getDependentOptions := field.getDependentOptions
    dependsOn := field.dependsOn
    required := field.required
    preselected := field.preselected }

def tooDeep (n : Normalizer) (path : String) : DataError :=
  .invalidType path s!"nesting deeper than {n.maxDepth} levels"

mutual

/-- The type of a description at a path, `depth` levels below the root. -/
def typeAt (n : Normalizer) (path : String) (depth : Nat) :
    TypeDescription → Except DataError OptionType
  | .named name =>
    if n.maxDepth < depth then .error (n.tooDeep path)
    else match PrimitiveType.ofName? name with
      | some p => .ok (.primitive p)
      | none => .error (.unknownType name path)
  | .list items =>
    if n.maxDepth < depth then .error (n.tooDeep path)
    else match items with
      | [item] => do return .list (← n.typeAt (path ++ "[]") (depth + 1) item)
      | items => .error (.invalidType path
          s!"list type must have exactly one element, got {items.length}")
  | .fields fields =>
    if n.maxDepth < depth then .error (n.tooDeep path)
    else do return .hash (← n.optionsAt path (depth + 1) fields)

/-- The options of fields whose types stand `depth` levels below the root. -/
def optionsAt (n : Normalizer) (parent : String) (depth : Nat) :
    List (String × FieldDescription) → Except DataError (Entries ActionOption)
  | [] => .ok []
  | (name, field) :: rest => do
    let o ← n.optionAt name (joinPath parent name) depth field
    return (name, o) :: (← n.optionsAt parent depth rest)

def optionAt (n : Normalizer) (name path : String) (depth : Nat) :
    FieldDescription → Except DataError ActionOption
  | { displayName, shortDescription, description, type, defaultValue, exampleValue, allowedValues,
      getAllowedValues, getDependentOptions, dependsOn, required, preselected } => do
    return n.describedOption name path
      { displayName, shortDescription, description, type, defaultValue, exampleValue,
        allowedValues, getAllowedValues, getDependentOptions, dependsOn, required, preselected }
      (← n.typeAt path depth type)

end

def normalizeType (n : Normalizer) (description : TypeDescription) : Except DataError OptionType :=
  n.typeAt "" 0 description

def normalize (n : Normalizer) (name : String) (description : TypeDescription) :
    Except DataError ActionOption := do
  let type ← n.typeAt name 0 description
  return n.describedOption name name { type := description } type

def normalizeField (n : Normalizer) (name : String) (field : FieldDescription) :
    Except DataError ActionOption :=
  n.optionAt name name 0 field

def normalizeFields (n : Normalizer) (fields : Entries FieldDescription) :
    Except DataError (Entries ActionOption) :=
  n.optionsAt "" 0 fields

end Normalizer

end ActionCatalogue
