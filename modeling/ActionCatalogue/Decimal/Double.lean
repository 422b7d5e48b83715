/-!
Finite binary floating-point numbers of 64 bits, held as a sign and a magnitude: the exponent field
followed by the fraction field. Each is a natural number times a power of two, so that reading,
rounding and printing are arithmetic on natural numbers. Rounding goes to the nearest number, a tie
to the even one, and fails where the nearest would be infinite.
-/

namespace ActionCatalogue.Decimal

/-- The first magnitude that is not finite. -/
def infiniteMagnitude : Nat := 0x7ff0000000000000

structure Double where
  negative : Bool
  magnitude : Nat
  finite : magnitude < infiniteMagnitude
deriving DecidableEq, Repr

namespace Double

def zero (negative : Bool) : Double := ⟨negative, 0, by decide⟩

instance : Inhabited Double := ⟨zero false⟩

def ofMagnitude? (negative : Bool) (magnitude : Nat) : Option Double :=
  if h : magnitude < infiniteMagnitude then some ⟨negative, magnitude, h⟩ else none

def exponentField (d : Double) : Nat := d.magnitude / Nat.pow 2 52

/-- The number is `significand * 2 ^ exponent`, up to its sign. -/
def significand (d : Double) : Nat :=
  if d.exponentField = 0 then d.magnitude else d.magnitude % Nat.pow 2 52 + Nat.pow 2 52

def exponent (d : Double) : Int :=
  (max d.exponentField 1 : Nat) - 1075

def isZero (d : Double) : Bool := d.magnitude == 0

def neg (d : Double) : Double := { d with negative := !d.negative }

def numerator (d : Double) : Nat := d.significand * Nat.pow 2 d.exponent.toNat

def denominator (d : Double) : Nat := Nat.pow 2 (-d.exponent).toNat

end Double

/-- The quotient `num / den` rounded to a natural number, a half to the even neighbour. -/
def roundHalfEven (num den : Nat) : Nat :=
  let q := num / den
  match compare (2 * (num % den)) den with
  | .lt => q
  | .gt => q + 1
  | .eq => q + q % 2

/-- The largest `k` with `2 ^ k ≤ num / den`, for positive `num` and `den`. -/
def floorLog2 (num den : Nat) : Int :=
  let k : Int := (Nat.log2 num : Int) - Nat.log2 den
  if den * Nat.pow 2 k.toNat ≤ num * Nat.pow 2 (-k).toNat then k else k - 1

namespace Double

/-- The number nearest to `num / den`; `none` if that is beyond all finite numbers. The exponent of
the last place is 52 below that of the leading bit, and not below `-1074`. -/
def ofRatio? (negative : Bool) (num den : Nat) : Option Double :=
  if num = 0 ∨ den = 0 then some (zero negative)
  else
    let place := max (floorLog2 num den - 52) (-1074)
    let rounded := roundHalfEven (num * Nat.pow 2 (-place).toNat) (den * Nat.pow 2 place.toNat)
    if rounded < Nat.pow 2 52 then ofMagnitude? negative rounded
    else ofMagnitude? negative ((place + 1075).toNat * Nat.pow 2 52 + (rounded - Nat.pow 2 52))

def ofNat? (negative : Bool) (n : Nat) : Option Double :=
  ofRatio? negative n 1

def mul? (a b : Double) : Option Double :=
  ofRatio? (a.negative != b.negative) (a.numerator * b.numerator) (a.denominator * b.denominator)

def div? (a b : Double) : Option Double :=
  ofRatio? (a.negative != b.negative) (a.numerator * b.denominator) (a.denominator * b.numerator)

/-- The number nearest to `digits * 10 ^ exponent`. Beyond the range of all finite numbers and below
half of the smallest one no power is computed. -/
def ofDecimal? (negative : Bool) (digits : Nat) (exponent : Int) : Option Double :=
  if digits = 0 then some (zero negative)
  else if 400 < exponent then none
  else if (Nat.log2 digits : Int) + 3 * exponent < -1300 then some (zero negative)
  else ofRatio? negative (digits * Nat.pow 10 exponent.toNat) (Nat.pow 10 (-exponent).toNat)

example : (ofDecimal? false 1 (-1)).map (·.magnitude) = some 0x3fb999999999999a := by
  decide +kernel
example : (ofDecimal? false 5 (-324)).map (·.magnitude) = some 1 := by decide +kernel
example : (ofDecimal? false 24 (-325)).map (·.magnitude) = some 0 := by decide +kernel
example : ofDecimal? false 18 307 = none := by decide +kernel

end Double

end ActionCatalogue.Decimal
