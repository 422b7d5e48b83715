import ActionCatalogue.Json.Value
import ActionCatalogue.Text.Ascii

/-!
Scalars of YAML and what they mean where no type is asked for. A plain scalar is null, a truth
value, an integer, a floating-point number or text, by its spelling alone; any other scalar is text,
unless a tag of the standard fixes its type.
-/

namespace ActionCatalogue.Yaml

inductive Style where
  | plain | singleQuoted | doubleQuoted | literal | folded
deriving DecidableEq, Repr

structure Scalar where
  text : String
  style : Style
  tag : Option String := none
deriving DecidableEq, Repr

inductive Meaning where
  | null
  | bool (value : Bool)
  | int (value : Int)
  | float (value : Decimal.Double)
  /-- An infinity or no number at all. -/
  | nonFinite
  | text (value : String)
  /-- An integer too large for 64 bits, or a text that its tag does not allow. -/
  | refused
deriving DecidableEq, Repr

def standardTag (name : String) : String := "tag:yaml.org,2002:" ++ name

def isNullWord (s : String) : Bool :=
  s == "null" || s == "Null" || s == "NULL" || s == "~"

def boolWord? (s : String) : Option Bool :=
  if s == "true" || s == "True" || s == "TRUE" then some true
  else if s == "false" || s == "False" || s == "FALSE" then some false
  else none

/-! ### Integers -/

/-- A row of digits with a mark of its base in front; without one the base is ten. -/
def magnitude? : List Char → Option Nat
  | '0' :: 'x' :: rest => Ascii.digits? 16 rest
  | '0' :: 'o' :: rest => Ascii.digits? 8 rest
  | '0' :: 'b' :: rest => Ascii.digits? 2 rest
  | cs => Ascii.digits? 10 cs

/-- Zeros in front of more digits: neither an integer nor a float, but text. -/
def isZeroPadded (cs : List Char) : Bool :=
  let unsigned := match cs with
    | '+' :: rest => rest
    | '-' :: rest => rest
    | _ => cs
  match unsigned with
  | '0' :: rest => !rest.isEmpty && rest.all Ascii.isDigit
  | _ => false

def integer? (cs : List Char) : Option Int :=
  if isZeroPadded cs then none
  else match cs with
    | '+' :: rest => (magnitude? rest).map Int.ofNat
    | '-' :: rest => (magnitude? rest).map fun n => -(n : Int)
    | _ => (magnitude? cs).map Int.ofNat

/-- The integer as a meaning. Past 128 bits an integer is read as a float; between 64 and 128 it is
refused. -/
def integerMeaning? (n : Int) : Option Meaning :=
  if Json.Value.fitsInt n then some (.int n)
  else if -(Nat.pow 2 127 : Int) ≤ n ∧ n < (Nat.pow 2 128 : Int) then some .refused
  else none

/-! ### Floating-point numbers -/

/-- The exponent after a mantissa, which has to take up all the rest. -/
def exponentPart? : List Char → Option Int
  | [] => some 0
  | e :: rest =>
    if e = 'e' ∨ e = 'E' then
      match rest with
      | '-' :: ds => (Ascii.digits? 10 ds).map fun n => -(n : Int)
      | '+' :: ds => (Ascii.digits? 10 ds).map Int.ofNat
      | ds => (Ascii.digits? 10 ds).map Int.ofNat
    else none

def decimal? (cs : List Char) : Option (Nat × Int) :=
  let whole := cs.takeWhile Ascii.isDigit
  let (fraction, rest) := match cs.dropWhile Ascii.isDigit with
    | '.' :: after => (after.takeWhile Ascii.isDigit, after.dropWhile Ascii.isDigit)
    | other => ([], other)
  match Ascii.digits? 10 (whole ++ fraction), exponentPart? rest with
  | some digits, some exponent => some (digits, exponent - fraction.length)
  | _, _ => none

/-- The float that a scalar writes: infinities, the non-number, or a decimal that is finite. -/
def float? (s : String) : Option Meaning :=
  if s ∈ [".inf", ".Inf", ".INF", "+.inf", "+.Inf", "+.INF", "-.inf", "-.Inf", "-.INF",
      ".nan", ".NaN", ".NAN"] then some .nonFinite
  else
    let (negative, unsigned) := match s.toList with
      | '-' :: rest => (true, rest)
      | '+' :: rest => (false, rest)
      | cs => (false, cs)
    (decimal? unsigned).bind fun (digits, exponent) =>
      (Decimal.Double.ofDecimal? negative digits exponent).map .float

/-! ### Meanings -/

def plainMeaning (s : String) : Meaning :=
  if s.isEmpty || isNullWord s then .null
  else match boolWord? s with
    | some b => .bool b
    | none =>
      match (integer? s.toList).bind integerMeaning? with
      | some m => m
      | none =>
        if isZeroPadded s.toList then .text s
        else (float? s).getD (.text s)

namespace Scalar

/-- What a scalar means where no type is asked for. A tag of one's own is refused. -/
def meaning (s : Scalar) : Meaning :=
  match s.tag with
  | none => if s.style = .plain then plainMeaning s.text else .text s.text
  | some tag =>
    if tag.startsWith "!" then .refused
    else if tag = standardTag "bool" then ((boolWord? s.text).map .bool).getD .refused
    else if tag = standardTag "int" then
      ((integer? s.text.toList).bind integerMeaning?).getD .refused
    else if tag = standardTag "float" then (float? s.text).getD .refused
    else if tag = standardTag "null" then if isNullWord s.text then .null else .refused
    else .text s.text

/-- Nothing is written, or only a tag. -/
def isEmptyPlain (s : Scalar) : Bool := s.style = .plain && s.text.isEmpty

def bool? (s : Scalar) : Option Bool :=
  if s.style = .plain ∨ (s.style = .literal ∧ s.tag = some (standardTag "bool")) then
    boolWord? s.text
  else none

end Scalar

end ActionCatalogue.Yaml
