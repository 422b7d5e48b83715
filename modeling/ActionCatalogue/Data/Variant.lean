import ActionCatalogue.Data.Record

/-!
Choices among a few names. A name stands for its choice; so does a settled map of the name alone to
null, and in YAML a tag of one's own with nothing after it.
-/

namespace ActionCatalogue.Node

/-- The name under which a node makes a choice. -/
def variantName? : Node → Option String
  | .text s => some s
  | .map .settled [(.text k, .null)] => some k
  | .scalar s => match s.tag with
    | some tag =>
      if tag.startsWith "!" then
        if s.style = .plain && (s.text.isEmpty || Yaml.isNullWord s.text) then
          some (String.ofList (tag.toList.drop 1))
        else none
      else some s.text
    | none => some s.text
  | _ => none

def asVariant {α : Type} (table : List (String × α)) (n : Node) : Reading α :=
  match n.variantName?.bind (Entries.lookup · table) with
  | some a => .ok a
  | none => .error .misshapen

end ActionCatalogue.Node
