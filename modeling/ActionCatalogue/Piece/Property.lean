import ActionCatalogue.Typing.Description

/-!
Properties of a piece's actions. A property has a kind, which fixes the type of its value; two kinds
only show a text, and dynamic ones stand for further properties that are known when the properties
they refresh on have values.
-/

namespace ActionCatalogue.Piece

open Json

structure FetchContext where
  auth : Object
  propsValue : Object

def FetchContext.toJson (c : FetchContext) : Value :=
  .object [("auth", .object c.auth), ("props_value", .object c.propsValue)]

structure DropdownOption where
  label : String
  value : Value

namespace DropdownOption

def toAllowedValue (o : DropdownOption) : AllowedValue := .labelled o.value o.label

def ofNode (n : Node) : Reading DropdownOption :=
  n.asRecord ["label", "value"] fun r =>
    DropdownOption.mk <$> r.required "label" Node.asText <*> r.required "value" Node.asValue

end DropdownOption

structure DropdownState where
  disabled : Bool := false
  placeholder : Option String := none
  options : List DropdownOption := []

def DropdownState.ofNode (n : Node) : Reading DropdownState :=
  n.asRecord ["disabled", "placeholder", "options"] fun r =>
    DropdownState.mk <$> r.flag "disabled" <*> r.optional "placeholder" Node.asText
      <*> r.orDefault "options" [] (Node.asListOf DropdownOption.ofNode)

mutual

inductive PropertyKind where
  | shortText | longText | checkbox | number | file | json | object | array | dateTime
  | staticDropdown (options : List DropdownOption)
  | dropdown (fetch : FetchContext → Inquiry String DropdownState)
  | dynamic (fetch : FetchContext → Inquiry String (List (String × Property)))
  | markdown (text : String)
  | info (text : String)

structure Property where
  displayName : String
  description : Option String := none
  required : Bool := false
  defaultValue : Option Value := none
  /-- The properties on whose values this one depends. -/
  refreshers : List String := []
  kind : PropertyKind

end

abbrev PropertiesFetcher := FetchContext → Inquiry String (List (String × Property))

namespace PropertyKind

def name : PropertyKind → String
  | .shortText => "short_text"
  | .longText => "long_text"
  | .checkbox => "checkbox"
  | .number => "number"
  | .file => "file"
  | .json => "json"
  | .object => "object"
  | .array => "array"
  | .dateTime => "date_time"
  | .staticDropdown _ => "static_dropdown"
  | .dropdown _ => "dropdown"
  | .dynamic _ => "dynamic"
  | .markdown _ => "markdown"
  | .info _ => "info"

def baseType : PropertyKind → BaseType
  | .shortText | .longText | .markdown _ | .info _ => .string
  | .checkbox => .bool
  | .number => .number
  | .file => .binary
  | .json | .object | .dynamic _ => .hash
  | .array => .list
  | .dateTime => .date
  | .staticDropdown _ | .dropdown _ => .any

def fetcher? : PropertyKind → Option PropertiesFetcher
  | .dynamic fetch => some fetch
  | _ => none

end PropertyKind

namespace Property

def isDisplayOnly (p : Property) : Bool :=
  match p.kind with
  | .markdown _ | .info _ => true
  | _ => false

def isDynamic (p : Property) : Bool := p.kind.fetcher?.isSome

end Property

end ActionCatalogue.Piece
