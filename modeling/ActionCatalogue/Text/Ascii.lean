/-!
Letters and digits of ASCII, the values of digits, and the ASCII case maps. The letters and digits
are three ranges of codes, and a case map moves one of them onto another.
-/

namespace ActionCatalogue.Ascii

def isUpper (c : Char) : Bool := 'A' ≤ c && c ≤ 'Z'

def isLower (c : Char) : Bool := 'a' ≤ c && c ≤ 'z'

def isDigit (c : Char) : Bool := '0' ≤ c && c ≤ '9'

def isAlphanumeric (c : Char) : Bool := isUpper c || isLower c || isDigit c

def isNameStart (c : Char) : Bool := isUpper c || isLower c || c == '_'

def isNameChar (c : Char) : Bool := isAlphanumeric c || c == '_'

def digitValue? (c : Char) : Option Nat :=
  if isDigit c then some (c.toNat - '0'.toNat)
  else if 'a' ≤ c ∧ c ≤ 'f' then some (c.toNat - 'a'.toNat + 10)
  else if 'A' ≤ c ∧ c ≤ 'F' then some (c.toNat - 'A'.toNat + 10)
  else none

def digits? (base : Nat) (cs : List Char) : Option Nat :=
  if cs.isEmpty then none
  else cs.foldlM (fun n c => do
    let d ← digitValue? c
    if d < base then some (n * base + d) else none) 0

def lower (s : String) : String := String.ofList (s.toList.map Char.toLower)

variable {c : Char}

/-! ### Ranges of codes -/

theorem isDigit_eq (c : Char) : isDigit c = c.isDigit := rfl

theorem isUpper_iff : isUpper c = true ↔ 65 ≤ c.toNat ∧ c.toNat ≤ 90 := by
  simp [isUpper, Char.le_def, UInt32.le_iff_toNat_le]

theorem isLower_iff : isLower c = true ↔ 97 ≤ c.toNat ∧ c.toNat ≤ 122 := by
  simp [isLower, Char.le_def, UInt32.le_iff_toNat_le]

theorem isDigit_iff : isDigit c = true ↔ 48 ≤ c.toNat ∧ c.toNat ≤ 57 :=
  Char.isDigit_iff_toNat

theorem isAlphanumeric_iff : isAlphanumeric c = true ↔
    (65 ≤ c.toNat ∧ c.toNat ≤ 90) ∨ (97 ≤ c.toNat ∧ c.toNat ≤ 122) ∨
      48 ≤ c.toNat ∧ c.toNat ≤ 57 := by
  simp only [isAlphanumeric, Bool.or_eq_true, isUpper_iff, isLower_iff, isDigit_iff, or_assoc]

theorem not_isUpper_of_low (low : (isLower c || isDigit c) = true) : isUpper c = false := by
  simp only [Bool.or_eq_true, isLower_iff, isDigit_iff] at low
  rw [Bool.eq_false_iff, ne_eq, isUpper_iff]
  omega

/-! ### Case maps -/

/-- A capital stands thirty-two places before its small letter. -/
theorem toNat_toLower (c : Char) :
    c.toLower.toNat = if isUpper c then c.toNat + 32 else c.toNat := by
  have range : isUpper c = true ↔ c.val ≥ 'A'.val ∧ c.val ≤ 'Z'.val := by
    simp [isUpper, Char.le_def]
  by_cases upper : isUpper c = true
  · have bound := (isUpper_iff.mp upper).2
    have moved : c.toLower = _ := dif_pos (range.mp upper)
    have distance : ('a'.val - 'A'.val).toNat = 32 := by decide
    rw [if_pos upper, moved, ← Char.toNat_val, UInt32.toNat_add, distance, Char.toNat_val]
    omega
  · have kept : c.toLower = c := dif_neg fun bounds => upper (range.mpr bounds)
    rw [if_neg upper, kept]

theorem toNat_toUpper (c : Char) :
    c.toUpper.toNat = if isLower c then c.toNat - 32 else c.toNat := by
  have range : isLower c = true ↔ c.val ≥ 'a'.val ∧ c.val ≤ 'z'.val := by
    simp [isLower, Char.le_def]
  by_cases lower : isLower c = true
  · have bounds := isLower_iff.mp lower
    have moved : c.toUpper = _ := dif_pos (range.mp lower)
    -- the way back is added too, and wraps around
    have distance : ('A'.val - 'a'.val).toNat = 4294967264 := by decide
    rw [if_pos lower, moved, ← Char.toNat_val, UInt32.toNat_add, distance, Char.toNat_val]
    omega
  · have kept : c.toUpper = c := dif_neg fun bounds => lower (range.mpr bounds)
    rw [if_neg lower, kept]

theorem toLower_of_not_isUpper (small : isUpper c = false) : c.toLower = c :=
  Char.toNat_inj.mp (by simp [toNat_toLower, small])

theorem isUpper_toLower (c : Char) : isUpper c.toLower = false := by
  rw [Bool.eq_false_iff, ne_eq, isUpper_iff, toNat_toLower]
  grind [isUpper_iff]

theorem isAlphanumeric_toLower (c : Char) : isAlphanumeric c.toLower = isAlphanumeric c := by
  rw [Bool.eq_iff_iff, isAlphanumeric_iff, isAlphanumeric_iff, toNat_toLower]
  grind [isUpper_iff]

theorem isAlphanumeric_toUpper (c : Char) : isAlphanumeric c.toUpper = isAlphanumeric c := by
  rw [Bool.eq_iff_iff, isAlphanumeric_iff, isAlphanumeric_iff, toNat_toUpper]
  grind [isLower_iff]

theorem toLower_toLower (c : Char) : c.toLower.toLower = c.toLower :=
  toLower_of_not_isUpper (isUpper_toLower c)

theorem toUpper_toLower (c : Char) : c.toLower.toUpper = c.toUpper := by
  apply Char.toNat_inj.mp
  simp only [toNat_toUpper, toNat_toLower, isLower_iff, isUpper_iff]
  grind

theorem toLower_toUpper (c : Char) : c.toUpper.toLower = c.toLower := by
  apply Char.toNat_inj.mp
  simp only [toNat_toUpper, toNat_toLower, isLower_iff, isUpper_iff]
  grind

end ActionCatalogue.Ascii
