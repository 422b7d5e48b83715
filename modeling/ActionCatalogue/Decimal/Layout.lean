import ActionCatalogue.Decimal.Shortest

/-!
How a number is written once its digits are chosen: positionally for middling exponents, with a
power of ten otherwise, and always so that it cannot be taken for an integer. JSON and YAML differ
in the sign of a positive exponent.
-/

namespace ActionCatalogue.Decimal

structure Layout where
  /-- The first exponent of the leading digit that is written positionally. -/
  plainFrom : Int
  /-- The first exponent above it that is not. -/
  plainBelow : Int
  plusSign : Bool
deriving DecidableEq, Repr

namespace Layout

/-- JSON text: `1e-6`, `0.00001`, `1000000000000000.0`, `1e+16`. -/
def json : Layout := ⟨-5, 16, true⟩

/-- YAML text: the same with `1e16`. -/
def yaml : Layout := ⟨-5, 16, false⟩

def zeros (n : Nat) : String := String.ofList (List.replicate n '0')

def pointAfter (n : Nat) (digits : List Char) : String :=
  String.ofList (digits.take n ++ '.' :: digits.drop n)

def exponentText (layout : Layout) (e : Int) : String :=
  if e < 0 then "e-" ++ toString (-e).toNat
  else if layout.plusSign then "e+" ++ toString e.toNat
  else "e" ++ toString e.toNat

def magnitudeText (layout : Layout) (s : Shortest) : String :=
  if s.digits = 0 then "0.0"
  else
    let digits := (toString s.digits).toList
    let e := s.exponent + digits.length - 1
    if e < layout.plainFrom ∨ layout.plainBelow ≤ e then
      let mantissa :=
        if digits.length = 1 then String.ofList digits else pointAfter 1 digits
      mantissa ++ layout.exponentText e
    else if e < 0 then "0." ++ zeros (-e - 1).toNat ++ String.ofList digits
    else if digits.length ≤ e.toNat + 1 then
      String.ofList digits ++ zeros (e.toNat + 1 - digits.length) ++ ".0"
    else pointAfter (e.toNat + 1) digits

def text (layout : Layout) (d : Double) : String :=
  (if d.negative then "-" else "") ++ layout.magnitudeText d.shortest

end Layout

end ActionCatalogue.Decimal
