import ActionCatalogue.Data.Variant

/-!
The methods of HTTP that operations use, in the order in which the operations of a path are visited.
-/

namespace ActionCatalogue

inductive Method where
  | get | put | post | delete | options | head | patch
deriving DecidableEq, Repr

namespace Method

/-- All methods in visiting order. -/
def all : List Method := [get, put, post, delete, options, head, patch]

def name : Method → String
  | get => "GET"
  | put => "PUT"
  | post => "POST"
  | delete => "DELETE"
  | options => "OPTIONS"
  | head => "HEAD"
  | patch => "PATCH"

/-- The method with a name in any ASCII case. -/
def ofName? (s : String) : Option Method :=
  all.find? fun m => Ascii.lower m.name == Ascii.lower s

def parse (s : String) : Except DataError Method :=
  match ofName? s with
  | some m => .ok m
  | none => .error (.invalid s!"unsupported HTTP method '{s}'")

/-- The spellings in data: upper case or lower case throughout. -/
def spellings : List (String × Method) :=
  all.map (fun m => (m.name, m)) ++ all.map fun m => (Ascii.lower m.name, m)

def ofNode (n : Node) : Reading Method := n.asVariant spellings

def toJson (m : Method) : Json.Value := .text m.name

theorem mem_all (m : Method) : m ∈ all := by
  cases m <;> simp [all]

theorem parse_name (m : Method) : parse m.name = .ok m := by
  cases m <;> rfl

theorem slash_not_mem_name (m : Method) : '/' ∉ m.name.toList := by
  cases m <;> decide

end Method

end ActionCatalogue
