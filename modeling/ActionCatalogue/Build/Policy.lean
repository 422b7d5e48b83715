import ActionCatalogue.Data.Variant

/-!
What happens when a name is defined twice: the later definition takes the place of the earlier one,
or it is dropped.
-/

namespace ActionCatalogue

inductive CollisionPolicy where
  /-- The last definition wins, and the collision is a warning. -/
  | overwrite
  /-- The first definition wins, and the collision is an error. -/
  | reject
deriving DecidableEq, Repr, Inhabited

namespace CollisionPolicy

def name : CollisionPolicy → String
  | overwrite => "overwrite"
  | reject => "reject"

def table : List (String × CollisionPolicy) := [("overwrite", overwrite), ("reject", reject)]

/-- The policy with a name in any ASCII case. -/
def parse (s : String) : Except DataError CollisionPolicy :=
  let lower := Ascii.lower s
  match Entries.lookup lower table with
  | some p => .ok p
  | none => .error (.invalid s!"unknown collision policy '{lower}'")

def ofNode (n : Node) : Reading CollisionPolicy := n.asVariant table

def toJson (p : CollisionPolicy) : Json.Value := .text p.name

end CollisionPolicy

end ActionCatalogue
