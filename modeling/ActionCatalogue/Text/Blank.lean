/-!
Blank characters: the twenty-five characters that have the Unicode property White_Space, and the
texts made of them alone. Trimming takes blanks off both ends and nothing else.
-/

namespace ActionCatalogue.Text

/-- First and last code point of each run of characters with the property White_Space. -/
def blankRuns : List (Nat × Nat) :=
  [(0x09, 0x0d), (0x20, 0x20), (0x85, 0x85), (0xa0, 0xa0), (0x1680, 0x1680), (0x2000, 0x200a),
    (0x2028, 0x2029), (0x202f, 0x202f), (0x205f, 0x205f), (0x3000, 0x3000)]

def isBlankChar (c : Char) : Bool :=
  blankRuns.any fun run => run.1 ≤ c.toNat && c.toNat ≤ run.2

def isBlank (s : String) : Bool :=
  s.toList.all isBlankChar

def dropBlanks (cs : List Char) : List Char :=
  cs.dropWhile isBlankChar

def trim (s : String) : String :=
  String.ofList (dropBlanks (dropBlanks s.toList).reverse).reverse

def nonBlank? (s : String) : Option String :=
  if isBlank s then none else some s

theorem isBlank_empty : isBlank "" = true := by
  simp [isBlank]

theorem nonBlank?_eq_some {s t : String} : nonBlank? s = some t ↔ isBlank s = false ∧ t = s := by
  unfold nonBlank?
  by_cases h : isBlank s = true
  · simp [h]
  · simp [h, eq_comm]

end ActionCatalogue.Text
