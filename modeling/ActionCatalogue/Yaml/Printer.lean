import ActionCatalogue.Json.Printer
import ActionCatalogue.Yaml.Scalar

/-!
YAML text of a JSON value. Collections are in block style, two spaces a level; the items of a list
under a key are not indented. A text is plain if it reads back as itself, in single quotes if it
does not, in double quotes if it holds characters that are not printed, and a literal block if it
holds line feeds. Lines are not folded.
-/

namespace ActionCatalogue.Yaml.Printer

open Json

def isBreak (c : Char) : Bool :=
  c == '\n' || c == '\r' || c.toNat == 0x85 || c.toNat == 0x2028 || c.toNat == 0x2029

def isPrintable (c : Char) : Bool :=
  let n := c.toNat
  n == 0x0a || (0x20 ≤ n && n ≤ 0x7e) || (0xa0 ≤ n && n ≤ 0xd7ff)
    || (0xe000 ≤ n && n ≤ 0xfffd && n != 0xfeff) || 0x10000 ≤ n

def isGap (c : Char) : Bool := c == ' ' || c == '\t' || isBreak c

def endsWord : List Char → Bool
  | [] => true
  | c :: _ => isGap c

def startMarks : List Char := "#,[]\x7b\x7d&*!|>'\"%@\x60".toList

/-- Whether a mark inside a text, after its first character, has a meaning of its own. -/
def hasInnerMark : Char → List Char → Bool
  | _, [] => false
  | before, c :: rest =>
    (c == ':' && endsWord rest) || (c == '#' && isGap before) || hasInnerMark c rest

def hasMark (cs : List Char) : Bool :=
  "---".toList.isPrefixOf cs || "...".toList.isPrefixOf cs ||
  match cs with
  | [] => false
  | c :: rest =>
    startMarks.contains c || ((c == '?' || c == ':' || c == '-') && endsWord rest)
      || hasInnerMark c rest

def hasPair (first second : Char → Bool) : List Char → Bool
  | a :: b :: rest => (first a && second b) || hasPair first second (b :: rest)
  | _ => false

def isSpace (c : Char) : Bool := c == ' '

def allowsPlain (cs : List Char) : Bool :=
  !(cs.any isBreak || cs.head?.any isSpace || cs.getLast?.any isSpace || !cs.all isPrintable
    || hasMark cs)

def allowsSingle (cs : List Char) : Bool :=
  !(hasPair isBreak isSpace cs || hasPair isSpace isBreak cs || !cs.all isPrintable)

def allowsBlock (cs : List Char) : Bool :=
  !(cs.getLast?.any isSpace || hasPair isSpace isBreak cs || !cs.all isPrintable)

/-- Whether a plain scalar would be read as something else than this text. -/
def isAmbiguous (s : String) : Bool :=
  isZeroPadded s.toList || match plainMeaning s with
    | .text _ => false
    | _ => true

def styleOf (s : String) : Style :=
  let cs := s.toList
  let quoted := if allowsSingle cs then Style.singleQuoted else .doubleQuoted
  if cs.contains '\n' then (if allowsBlock cs then .literal else .doubleQuoted)
  else if isAmbiguous s || !allowsPlain cs then quoted
  else .plain

/-! ### Scalars -/

def spaces (n : Nat) : List Char := List.replicate n ' '

/-- A text whose lines after the first are indented. -/
def indentLines (indent : Nat) (atStart : Bool) : List Char → List Char
  | [] => []
  | c :: rest =>
    if isBreak c then c :: indentLines indent true rest
    else (if atStart then spaces indent else []) ++ c :: indentLines indent false rest

def singleQuoted (indent : Nat) (cs : List Char) : List Char :=
  let body := indentLines indent false (cs.flatMap fun c => if c = '\'' then ['\'', '\''] else [c])
  let last := if cs.getLast?.any isBreak then spaces indent else []
  '\'' :: body ++ last ++ ['\'']

def upperHexDigit (n : Nat) : Char := "0123456789ABCDEF".toList.getD n '0'

/-- The last so many digits of a code, highest first. -/
def hexDigits : Nat → Nat → List Char
  | 0, _ => []
  | k + 1, n => hexDigits k (n / 16) ++ [upperHexDigit (n % 16)]

def escapeLetter? (n : Nat) : Option Char :=
  match n with
  | 0x00 => some '0'
  | 0x07 => some 'a'
  | 0x08 => some 'b'
  | 0x09 => some 't'
  | 0x0a => some 'n'
  | 0x0b => some 'v'
  | 0x0c => some 'f'
  | 0x0d => some 'r'
  | 0x1b => some 'e'
  | 0x22 => some '"'
  | 0x5c => some '\\'
  | 0x85 => some 'N'
  | 0xa0 => some '_'
  | 0x2028 => some 'L'
  | 0x2029 => some 'P'
  | _ => none

def escapeChar (c : Char) : List Char :=
  if isPrintable c && !isBreak c && c != '"' && c != '\\' then [c]
  else match escapeLetter? c.toNat with
    | some letter => ['\\', letter]
    | none =>
      if c.toNat ≤ 0xff then '\\' :: 'x' :: hexDigits 2 c.toNat
      else if c.toNat ≤ 0xffff then '\\' :: 'u' :: hexDigits 4 c.toNat
      else '\\' :: 'U' :: hexDigits 8 c.toNat

/-- What the head of a literal block says about the breaks at its end. -/
def chompMark (cs : List Char) : List Char :=
  match cs.reverse with
  | a :: b :: _ => if !isBreak a then ['-'] else if isBreak b then ['+'] else []
  | [a] => if isBreak a then ['+'] else ['-']
  | [] => ['-']

/-- A literal block with its head. It ends with a line break. -/
def literal (indent : Nat) (cs : List Char) : List Char :=
  let startMark := if cs.head?.any fun c => c = ' ' || isBreak c then ['2'] else []
  '|' :: startMark ++ chompMark cs ++ '\n' :: indentLines indent true cs ++
    (if cs.getLast?.any isBreak then [] else ['\n'])

/-- A text up to the end of its line, its further lines at an indent. -/
def textLine (indent : Nat) (s : String) : String :=
  String.ofList <| match styleOf s with
    | .plain => s.toList ++ ['\n']
    | .singleQuoted => singleQuoted indent s.toList ++ ['\n']
    | .doubleQuoted => '"' :: s.toList.flatMap escapeChar ++ ['"', '\n']
    | .literal | .folded => literal indent s.toList

/-- How many bytes a key may have that stands on the line of its value. -/
def maxKeySize : Nat := 128

def isSimpleKey (s : String) : Bool := !s.toList.any isBreak && s.utf8ByteSize ≤ maxKeySize

def keyText (s : String) : String :=
  String.ofList <| match styleOf s with
    | .plain => s.toList
    | .singleQuoted => singleQuoted 0 s.toList
    | _ => '"' :: s.toList.flatMap escapeChar ++ ['"']

/-! ### Values -/

def padding (level : Nat) : String := String.ofList (spaces level)

def plainLine (indent : Nat) : Value → String
  | .bool b => if b then "true\n" else "false\n"
  | .number n => n.textWith .yaml ++ "\n"
  | .text s => textLine indent s
  | _ => "null\n"

/-- What stands before a line: nothing where the line has been begun. -/
def lineStart (level : Nat) (begun : Bool) : String := if begun then "" else padding level

mutual

/-- A value after the mark of an item, at a level. A collection goes on in the same line. -/
def afterMark (level : Nat) : Value → String
  | .list [] => " []\n"
  | .list items => " " ++ itemLines (level + 2) true items
  | .object [] => " \x7b\x7d\n"
  | .object entries => " " ++ entryLines (level + 2) true entries
  | v => " " ++ plainLine (level + 2) v

def afterKey (level : Nat) : Value → String
  | .list [] => " []\n"
  | .list items => "\n" ++ itemLines level false items
  | .object [] => " \x7b\x7d\n"
  | .object entries => "\n" ++ entryLines (level + 2) false entries
  | v => " " ++ plainLine (level + 2) v

def itemLines (level : Nat) (begun : Bool) : List Value → String
  | [] => ""
  | v :: rest => lineStart level begun ++ "-" ++ afterMark level v ++ itemLines level false rest

def entryLines (level : Nat) (begun : Bool) : List (String × Value) → String
  | [] => ""
  | (k, v) :: rest =>
    lineStart level begun ++
    (if isSimpleKey k then keyText k ++ ":" ++ afterKey level v
      else "? " ++ textLine (level + 2) k ++ padding level ++ ":" ++ afterMark level v) ++
    entryLines level false rest

end

def text : Value → String
  | .list [] => "[]\n"
  | .list items => itemLines 0 false items
  | .object [] => "\x7b\x7d\n"
  | .object entries => entryLines 0 false entries
  | v => plainLine 2 v

end ActionCatalogue.Yaml.Printer
