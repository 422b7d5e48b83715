import ActionCatalogue.Text.Ascii

/-!
The characters of a YAML text with the places where they stand. Every way to break a line counts as
one line feed, apart from the two separators of Unicode, which keep their character. A text with a
character that YAML does not allow has no places.
-/

namespace ActionCatalogue.Yaml

def isBlank (c : Char) : Bool := c == ' ' || c == '\t'

/-- Line breaks, once the ways to write a line feed are one. -/
def isBreak (c : Char) : Bool := c == '\n' || c.toNat == 0x2028 || c.toNat == 0x2029

def isGap (c : Char) : Bool := isBlank c || isBreak c

def isAllowed (c : Char) : Bool :=
  let n := c.toNat
  n == 0x09 || n == 0x0a || n == 0x0d || (0x20 ≤ n && n ≤ 0x7e) || n == 0x85
    || (0xa0 ≤ n && n ≤ 0xd7ff) || (0xe000 ≤ n && n ≤ 0xfffd) || 0x10000 ≤ n

def unifyBreaks : List Char → List Char
  | '\r' :: '\n' :: rest => '\n' :: unifyBreaks rest
  | c :: rest => (if c = '\r' ∨ c.toNat = 0x85 then '\n' else c) :: unifyBreaks rest
  | [] => []

structure Place where
  char : Char
  index : Nat
  line : Nat
  column : Nat

namespace Place

def placesFrom (index line column : Nat) : List Char → List Place
  | [] => []
  | c :: rest =>
    ⟨c, index, line, column⟩ ::
      if isBreak c then placesFrom (index + 1) (line + 1) 0 rest
      else placesFrom (index + 1) line (column + 1) rest

def ofText? (text : String) : Option (List Place) :=
  if text.toList.all isAllowed then some (placesFrom 0 0 0 (unifyBreaks text.toList)) else none

def endsWord : List Place → Bool
  | [] => true
  | p :: _ => isGap p.char

/-- Whether a line starts here with a character three times and nothing else in the word. -/
def startsMark (c : Char) : List Place → Bool
  | p :: q :: r :: rest =>
    p.column == 0 && p.char == c && q.char == c && r.char == c && endsWord rest
  | _ => false

def startsDocumentMark (ps : List Place) : Bool := startsMark '-' ps || startsMark '.' ps

def span (property : Char → Bool) (ps : List Place) : List Char × List Place :=
  ((ps.takeWhile fun p => property p.char).map Place.char, ps.dropWhile fun p => property p.char)

def dropBlanks (ps : List Place) : List Place := ps.dropWhile fun p => isBlank p.char

/-- What follows the rest of a line that says nothing more: blanks, a comment and the break. -/
def restOfLine? (ps : List Place) : Option (List Place) :=
  let ps := dropBlanks ps
  let ps := match ps with
    | p :: _ => if p.char = '#' then ps.dropWhile fun (q : Place) => !isBreak q.char else ps
    | [] => []
  match ps with
  | [] => some []
  | p :: rest => if isBreak p.char then some rest else none

end Place

end ActionCatalogue.Yaml
