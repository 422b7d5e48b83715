import ActionCatalogue.Yaml.Lexeme
import ActionCatalogue.Yaml.Scalar

/-!
Tokens of YAML text. Collections in block style are recognised by their indents: a deeper indent
opens one, a shallower indent closes it. What a key is shows only at the colon after it, so the
start of every possible key is remembered for the rest of its line, and the tokens that open the key
and its map are put in there. Each token takes up at least one character.
-/

namespace ActionCatalogue.Yaml

open Place

inductive Token where
  | version (major minor : Nat)
  | handle (handle expansion : String)
  | documentStart
  | documentEnd
  | streamEnd
  | blockListStart
  | blockMapStart
  | blockEnd
  | flowListStart
  | flowListEnd
  | flowMapStart
  | flowMapEnd
  | dash
  | comma
  | key
  | value
  | alias (name : String)
  | anchor (name : String)
  | tag (handle suffix : String)
  | scalar (style : Style) (text : String)
deriving DecidableEq, Repr

structure PossibleKey where
  place : Place
  /-- The number of tokens before it. -/
  position : Nat
  /-- Whether nothing else than a key can stand there. -/
  required : Bool

def keyLimit : Nat := 1024

/-- A key that lies on an earlier line or too far back is none. -/
def PossibleKey.isStaleAt (p : Place) (k : PossibleKey) : Bool :=
  k.place.line < p.line || k.place.index + keyLimit < p.index

structure Scan where
  places : List Place
  /-- The tokens so far, last first. -/
  tokens : List Token := []
  /-- The columns of the open block collections, innermost first. -/
  indents : List Nat := []
  keyAllowed : Bool := true
  key : Option PossibleKey := none
  /-- The possible keys outside each open flow collection, innermost first. -/
  outerKeys : List (Option PossibleKey) := []

namespace Scan

def inFlow (s : Scan) : Bool := !s.outerKeys.isEmpty

def push (t : Token) (s : Scan) : Scan := { s with tokens := t :: s.tokens }

def insertAt (position : Nat) (t : Token) (s : Scan) : Scan :=
  let later := s.tokens.length - position
  { s with tokens := s.tokens.take later ++ t :: s.tokens.drop later }

def take (t : Token) (after : List Place) (keyAllowed : Bool) (s : Scan) : Scan :=
  { s.push t with places := after, keyAllowed }

/-- Gives up the possible key, unless it is required. -/
def forgetKey? (s : Scan) : Option Scan :=
  if s.key.any (·.required) then none else some { s with key := none }

def saveKey? (p : Place) (s : Scan) : Option Scan :=
  if s.keyAllowed then do
    let required := !s.inFlow && s.indents.head? = some p.column
    return { ← s.forgetKey? with key := some ⟨p, s.tokens.length, required⟩ }
  else some s

def expireKeys? (p : Place) (s : Scan) : Option Scan :=
  let keep := fun (k : Option PossibleKey) => k.filter fun k => !k.isStaleAt p
  if (s.key :: s.outerKeys).any (·.any fun k => k.required && k.isStaleAt p) then none
  else some { s with key := keep s.key, outerKeys := s.outerKeys.map keep }

def closeWhile (property : Nat → Bool) (s : Scan) : Scan :=
  if s.inFlow then s
  else
    { s with
      tokens := List.replicate (s.indents.takeWhile property).length .blockEnd ++ s.tokens
      indents := s.indents.dropWhile property }

def closeDeeper (column : Nat) (s : Scan) : Scan := s.closeWhile (column < ·)

def closeAll (s : Scan) : Scan := s.closeWhile fun _ => true

/-- Opens a block collection at a column that is deeper than all others; its token goes behind so
many others. -/
def openAt (column position : Nat) (t : Token) (s : Scan) : Scan :=
  if s.inFlow || s.indents.head?.any (column ≤ ·) then s
  else { s.insertAt position t with indents := column :: s.indents }

/-- Passes over blanks, comments and line breaks. A new line of a block may start a key; a tab may
not stand where a key may start. -/
def skipIdle (inFlow keyAllowed inComment : Bool) : List Place → Bool × List Place
  | [] => (keyAllowed, [])
  | p :: rest =>
    if isBreak p.char then skipIdle inFlow (keyAllowed || !inFlow) false rest
    else if inComment then skipIdle inFlow keyAllowed true rest
    else if p.char = ' ' || (p.char = '\t' && (inFlow || !keyAllowed))
        || (p.index = 0 && p.char.toNat = 0xfeff) then skipIdle inFlow keyAllowed false rest
    else if p.char = '#' then skipIdle inFlow keyAllowed true rest
    else (keyAllowed, p :: rest)

/-! ### Single tokens -/

def directive? (rest : List Place) (s : Scan) : Option Scan := do
  let s ← s.closeAll.forgetKey?
  match ← Yaml.directive? rest with
  | (.version major minor, after) => return s.take (.version major minor) after false
  | (.handle handle expansion, after) => return s.take (.handle handle expansion) after false

def documentMark? (t : Token) (s : Scan) : Option Scan := do
  return (← s.closeAll.forgetKey?).take t (s.places.drop 3) false

def flowStart? (t : Token) (p : Place) (rest : List Place) (s : Scan) : Option Scan := do
  let s ← s.saveKey? p
  return { s.take t rest true with key := none, outerKeys := s.key :: s.outerKeys }

def flowEnd? (t : Token) (rest : List Place) (s : Scan) : Option Scan := do
  let s := (← s.forgetKey?).take t rest false
  match s.outerKeys with
  | [] => return s
  | key :: outerKeys => return { s with key, outerKeys }

def comma? (rest : List Place) (s : Scan) : Option Scan := do
  return (← s.forgetKey?).take .comma rest true

def dash? (p : Place) (rest : List Place) (s : Scan) : Option Scan := do
  if !s.inFlow && !s.keyAllowed then none
  else
    let s ← (s.openAt p.column s.tokens.length .blockListStart).forgetKey?
    return s.take .dash rest true

def key? (p : Place) (rest : List Place) (s : Scan) : Option Scan := do
  if !s.inFlow && !s.keyAllowed then none
  else
    let s ← (s.openAt p.column s.tokens.length .blockMapStart).forgetKey?
    return s.take .key rest (!s.inFlow)

/-- A colon: after a key on its line, or on its own. -/
def value? (p : Place) (rest : List Place) (s : Scan) : Option Scan :=
  match s.key with
  | some k =>
    let s := (s.insertAt k.position .key).openAt k.place.column k.position .blockMapStart
    some { s.take .value rest false with key := none }
  | none =>
    if !s.inFlow && !s.keyAllowed then none
    else some ((s.openAt p.column s.tokens.length .blockMapStart).take .value rest (!s.inFlow))

def alias? (p : Place) (rest : List Place) (s : Scan) : Option Scan := do
  let (name, after) ← anchorName? rest
  return (← s.saveKey? p).take (.alias name) after false

def anchor? (p : Place) (rest : List Place) (s : Scan) : Option Scan := do
  let (name, after) ← anchorName? rest
  return (← s.saveKey? p).take (.anchor name) after false

def tag? (p : Place) (rest : List Place) (s : Scan) : Option Scan := do
  let (handle, suffix, after) ← Yaml.tag? s.inFlow rest
  return (← s.saveKey? p).take (.tag handle suffix) after false

def blockScalar? (style : Style) (rest : List Place) (s : Scan) : Option Scan := do
  let (text, after) ← Yaml.blockScalar? (style = .literal) s.indents.head? rest
  return (← s.forgetKey?).take (.scalar style text) after true

def quotedScalar? (style : Style) (p : Place) (rest : List Place) (s : Scan) : Option Scan := do
  let (text, after) ← quotedFrom p.char [] {} none rest
  return (← s.saveKey? p).take (.scalar style (String.ofList text.reverse)) after false

def plainScalar? (p : Place) (s : Scan) : Option Scan := do
  let indent := (s.indents.head?.map (· + 1)).getD 0
  let (text, broken, after) ← plainFrom s.inFlow indent [] {} s.places
  return (← s.saveKey? p).take (.scalar .plain (String.ofList text.reverse)) after broken

def indicators : List Char := "-?:,[]\x7b\x7d#&*!|>'\"%@\x60".toList

def startsPlain (inFlow : Bool) (p : Place) (rest : List Place) : Bool :=
  (!isGap p.char && !indicators.contains p.char)
    || (p.char == '-' && !(match rest with
      | q :: _ => isBlank q.char
      | [] => false))
    || (!inFlow && (p.char == '?' || p.char == ':') && !endsWord rest)

def next? (p : Place) (rest : List Place) (s : Scan) : Option Scan :=
  if p.column = 0 ∧ p.char = '%' then s.directive? rest
  else if startsMark '-' s.places then s.documentMark? .documentStart
  else if startsMark '.' s.places then s.documentMark? .documentEnd
  else if p.char = '[' then s.flowStart? .flowListStart p rest
  else if p.char = '\x7b' then s.flowStart? .flowMapStart p rest
  else if p.char = ']' then s.flowEnd? .flowListEnd rest
  else if p.char = '\x7d' then s.flowEnd? .flowMapEnd rest
  else if p.char = ',' then s.comma? rest
  else if p.char = '-' ∧ endsWord rest then s.dash? p rest
  else if p.char = '?' ∧ (s.inFlow ∨ endsWord rest) then s.key? p rest
  else if p.char = ':' ∧ (s.inFlow ∨ endsWord rest) then s.value? p rest
  else if p.char = '*' then s.alias? p rest
  else if p.char = '&' then s.anchor? p rest
  else if p.char = '!' then s.tag? p rest
  else if p.char = '|' ∧ !s.inFlow then s.blockScalar? .literal rest
  else if p.char = '>' ∧ !s.inFlow then s.blockScalar? .folded rest
  else if p.char = '\'' then s.quotedScalar? .singleQuoted p rest
  else if p.char = '"' then s.quotedScalar? .doubleQuoted p rest
  else if startsPlain s.inFlow p rest then s.plainScalar? p
  else none

def run? : Nat → Scan → Option (List Token)
  | 0, _ => none
  | room + 1, s =>
    let (keyAllowed, places) := skipIdle s.inFlow s.keyAllowed false s.places
    let s := { s with keyAllowed, places }
    match places with
    | [] => do return (.streamEnd :: (← s.closeAll.forgetKey?).tokens).reverse
    | p :: rest => do run? room (← ((← s.expireKeys? p).closeDeeper p.column).next? p rest)

end Scan

/-- The tokens of a text; `none` if something in it is no token. -/
def Token.scan? (text : String) : Option (List Token) := do
  let places ← Place.ofText? text
  Scan.run? (places.length + 1) { places }

end ActionCatalogue.Yaml
