import ActionCatalogue.Data.Entries
import ActionCatalogue.Decimal.Double

/-!
JSON values. A number is an integer of 64 bits, signed or not, or a finite double; an object keeps
its entries in the order in which their keys first came.
-/

namespace ActionCatalogue.Json

inductive Number where
  | int (value : Int)
  | double (value : Decimal.Double)
deriving DecidableEq, Repr, Inhabited

inductive Value where
  | null
  | bool (value : Bool)
  | number (value : Number)
  | text (value : String)
  | list (items : List Value)
  | object (entries : List (String × Value))
deriving Repr, Inhabited

namespace Value

/-- Integers that stay integers: those of 64 bits, signed or unsigned. -/
def fitsInt (n : Int) : Bool := -(Nat.pow 2 63 : Int) ≤ n && n < (Nat.pow 2 64 : Int)

def ofNat (n : Nat) : Value := .number (.int n)

def text? : Value → Option String
  | .text s => some s
  | _ => none

def list? : Value → Option (List Value)
  | .list items => some items
  | _ => none

def entries? : Value → Option (Entries Value)
  | .object entries => some entries
  | _ => none

def get? (key : String) : Value → Option Value
  | .object entries => Entries.lookup key entries
  | _ => none

def entry? (key : String) (value : Option Value) : List (String × Value) :=
  match value with
  | some v => [(key, v)]
  | none => []

def texts (items : List String) : Value := .list (items.map .text)

end Value

abbrev Object := Entries Value

end ActionCatalogue.Json
