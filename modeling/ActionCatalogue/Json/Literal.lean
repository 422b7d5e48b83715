import ActionCatalogue.Json.Value
import ActionCatalogue.Text.Ascii

/-!
Number literals of JSON. An integer of 64 bits stays an integer; minus zero and everything else is a
double. Digits are taken up while they fit into 64 bits; later ones only move the point. The double
is the significand times or divided by a power of ten, each rounded on its own, so a long literal
may differ from the nearest double in its last place. A literal beyond the largest double has no
value.
-/

namespace ActionCatalogue.Json

/-- A literal taken apart: sign, digits before and after the point, exponent if one is written. -/
structure Literal where
  negative : Bool
  whole : List Nat
  fraction : List Nat
  exponent : Option (Bool × List Nat)
  isDouble : Bool
deriving DecidableEq, Repr

namespace Literal

def digitValues (cs : List Char) : List Nat := cs.map fun c => c.toNat - '0'.toNat

/-- The part after the point: `none` if a point is there and no digit follows. -/
def fractionPart? : List Char → Option (List Char × List Char)
  | '.' :: rest =>
    let ds := rest.takeWhile Ascii.isDigit
    if ds.isEmpty then none else some (ds, rest.dropWhile Ascii.isDigit)
  | rest => some ([], rest)

/-- The exponent, which has to take up all the rest. -/
def exponentPart? : List Char → Option (Option (Bool × List Char))
  | [] => some none
  | e :: rest =>
    if e = 'e' ∨ e = 'E' then
      let (negative, ds) := match rest with
        | '+' :: ds => (false, ds)
        | '-' :: ds => (true, ds)
        | ds => (false, ds)
      if ds.isEmpty || !ds.all Ascii.isDigit then none else some (some (negative, ds))
    else none

def parse? (cs : List Char) : Option Literal :=
  let (negative, cs) := match cs with
    | '-' :: rest => (true, rest)
    | _ => (false, cs)
  let whole := cs.takeWhile Ascii.isDigit
  if whole.isEmpty || (whole.head? = some '0' && 1 < whole.length) then none
  else do
    let (fraction, rest) ← fractionPart? (cs.dropWhile Ascii.isDigit)
    let exponent ← exponentPart? rest
    return {
      negative
      whole := digitValues whole
      fraction := digitValues fraction
      exponent := exponent.map fun (sign, ds) => (sign, digitValues ds)
      isDouble := !fraction.isEmpty || exponent.isSome }

/-- Takes up digits while the significand stays below `2 ^ 64`; the digits that are left over. -/
def takeUp (significand : Nat) : List Nat → Nat × List Nat
  | [] => (significand, [])
  | d :: rest =>
    if significand * 10 + d < Nat.pow 2 64 then takeUp (significand * 10 + d) rest
    else (significand, d :: rest)

def exponentLimit : Nat := Nat.pow 2 31 - 1

/-- The written exponent; one that is larger than can be counted is infinite. -/
def exponentValue (digits : List Nat) : Option Nat :=
  digits.foldlM (fun n d => if n * 10 + d ≤ exponentLimit then some (n * 10 + d) else none) 0

/-- Divides by the largest power of ten a double has, until the exponent is one it has too. -/
def divideDown : Nat → Decimal.Double → Nat → Option (Decimal.Double × Nat)
  | 0, f, e => some (f, e)
  | room + 1, f, e =>
    if e ≤ 308 ∨ f.isZero then some (f, e)
    else do
      let power ← Decimal.Double.ofDecimal? false 1 308
      divideDown room (← f.div? power) (e - 308)

/-- `significand * 10 ^ exponent` by one rounding for each operation. -/
def scale? (significand : Nat) (exponent : Int) : Option Decimal.Double := do
  let f ← Decimal.Double.ofNat? false significand
  if f.isZero then return f
  else if 0 ≤ exponent then
    if 308 < exponent then none
    else f.mul? (← Decimal.Double.ofDecimal? false 1 exponent)
  else
    let (f, e) ← divideDown 4 f (-exponent).toNat
    if f.isZero ∨ 308 < e then return .zero false
    else f.div? (← Decimal.Double.ofDecimal? false 1 e)

/-- The double that a literal writes; `none` beyond the largest one. -/
def double? (l : Literal) : Option Decimal.Double := do
  let (significand, wholeRest) := takeUp 0 l.whole
  let (significand, fractionRest) := takeUp significand l.fraction
  let start := (wholeRest.length : Int) - ((l.fraction.length - fractionRest.length : Nat) : Int)
  let magnitude ← match l.exponent with
    | none => scale? significand start
    | some (negative, digits) =>
      match exponentValue digits with
      | some e => scale? significand (if negative then start - Int.ofNat e else start + Int.ofNat e)
      | none => if significand = 0 ∨ negative then some (.zero false) else none
  return if l.negative then magnitude.neg else magnitude

def number? (l : Literal) : Option Number :=
  let n : Nat := l.whole.foldl (fun n d => n * 10 + d) 0
  if l.isDouble then l.double?.map .double
  else if !l.negative && n < Nat.pow 2 64 then some (.int (n : Int))
  else if l.negative && 0 < n && n ≤ Nat.pow 2 63 then some (.int (-(n : Int)))
  else l.double?.map .double

end Literal

end ActionCatalogue.Json
