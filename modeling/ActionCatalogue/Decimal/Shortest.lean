import ActionCatalogue.Decimal.Double

/-!
The fewest decimal digits that read back to a number. A decimal reads back if it lies in the
interval of reals that round to the number; the ends belong to it exactly when the significand is
even. Grids of one digit, two digits and so on are tried in turn: on each only the two neighbours of
the number can hit, and of two hits the nearer is taken.
-/

namespace ActionCatalogue.Decimal

/-- The decimal `digits * 10 ^ exponent`. -/
structure Shortest where
  digits : Nat
  exponent : Int
deriving DecidableEq, Repr

def digitCount (n : Nat) : Nat := (Nat.toDigits 10 n).length

/-- The largest `k` with `10 ^ k ≤ num / den`, for positive `num` and `den`. -/
def floorLog10 (num den : Nat) : Int :=
  if den ≤ num then (digitCount (num / den) : Int) - 1
  else
    let k := digitCount (den / num)
    if den ≤ num * Nat.pow 10 (k - 1) then -((k - 1 : Nat) : Int) else -(k : Int)

/-- Four times the significand, and the ends of the interval that rounds to it in the same unit. The
gap below a power of two is half the gap above it. -/
def roundingInterval (d : Double) : Nat × Nat × Nat :=
  let m := d.significand
  let low := if m = Nat.pow 2 52 ∧ 1 < d.exponentField then 4 * m - 1 else 4 * m - 2
  (low, 4 * m, 4 * m + 2)

def gridHit? (d : Double) (place : Int) : Option Nat :=
  let (low, value, high) := roundingInterval d
  let binary := d.exponent - 2
  let scale (x : Nat) := x * Nat.pow 2 binary.toNat * Nat.pow 10 (-place).toNat
  let unit := Nat.pow 10 place.toNat * Nat.pow 2 (-binary).toNat
  let readsBack (c : Nat) :=
    if d.significand % 2 = 0 then scale low ≤ c * unit && c * unit ≤ scale high
    else scale low < c * unit && c * unit < scale high
  let below := scale value / unit
  let above := below + 1
  match readsBack below, readsBack above with
  | true, false => some below
  | false, true => some above
  | false, false => none
  | true, true =>
    match compare (2 * (scale value % unit)) unit with
    | .lt => some below
    | .gt => some above
    | .eq => some (below + below % 2)

/-- Moves trailing zeros into the exponent; `room` bounds how many. -/
def stripZeros : Nat → Shortest → Shortest
  | 0, s => s
  | room + 1, s =>
    if s.digits ≠ 0 ∧ s.digits % 10 = 0 then stripZeros room ⟨s.digits / 10, s.exponent + 1⟩ else s

/-- The shortest decimal that reads back to the absolute value of a number. Seventeen digits are
enough for every number. -/
def Double.shortest (d : Double) : Shortest :=
  if d.isZero then ⟨0, 0⟩
  else
    let top := floorLog10 d.numerator d.denominator
    let hit := (List.range 17).findSome? fun (n : Nat) =>
      let place := top - n
      (gridHit? d place).map fun digits => (⟨digits, place⟩ : Shortest)
    match hit with
    | some s => stripZeros 17 s
    | none => ⟨d.numerator / d.denominator, 0⟩

end ActionCatalogue.Decimal
