import ActionCatalogue.Yaml.Place

/-!
The parts of a YAML text that take more than one character: scalars in their five styles, the names
of anchors, tags and directives. Each reader starts after the character by which the part is
recognised, and gives what it has read and the places that follow.

A gap inside a scalar is folded: one line break becomes a space, and of several the first is left
out. Texts that are being read are kept last character first.
-/

namespace ActionCatalogue.Yaml

open Place

/-- Blanks and line breaks between two words of a scalar. -/
structure Gap where
  /-- The blanks on a line, last first. -/
  blanks : List Char := []
  /-- The first line break; one that is escaped leaves no character. -/
  first : Option (Option Char) := none
  /-- The further line breaks, last first. -/
  further : List Char := []

namespace Gap

def isBroken (g : Gap) : Bool := g.first.isSome

def isEmpty (g : Gap) : Bool := g.blanks.isEmpty && g.first.isNone

/-- The gap with one more blank or break. Blanks beside a break do not count. -/
def add (g : Gap) (c : Char) : Gap :=
  if isBlank c then (if g.isBroken then g else { g with blanks := c :: g.blanks })
  else if g.isBroken then { g with further := c :: g.further }
  else { first := some (some c) }

def folded (g : Gap) : List Char :=
  match g.first with
  | none => g.blanks
  | some none => g.further
  | some (some c) => if c = '\n' then (if g.further.isEmpty then [' '] else g.further)
    else g.further ++ [c]

end Gap

/-! ### Plain scalars -/

def isFlowMark (c : Char) : Bool :=
  c == ',' || c == '[' || c == ']' || c == '\x7b' || c == '\x7d'

/-- Whether a plain scalar ends before a character, given the gap before it. -/
def endsPlain (inFlow : Bool) (indent : Nat) (gap : Gap) (p : Place) (rest : List Place) : Bool :=
  (!gap.isEmpty && ((!inFlow && p.column < indent) || p.char == '#'))
    || startsDocumentMark (p :: rest)
    || (p.char == ':' && endsWord rest)
    || (inFlow && isFlowMark p.char)

/-- A colon that belongs to no key: in a flow, right before a mark of the flow. -/
def isLostColon (inFlow : Bool) (p : Place) (rest : List Place) : Bool :=
  inFlow && p.char == ':' && match rest with
    | q :: _ => isFlowMark q.char || q.char == '?'
    | [] => false

/-- A plain scalar, and whether a line break follows it. -/
def plainFrom (inFlow : Bool) (indent : Nat) (text : List Char) (gap : Gap) :
    List Place → Option (List Char × Bool × List Place)
  | [] => some (text, gap.isBroken, [])
  | p :: rest =>
    if isGap p.char then
      if p.char = '\t' ∧ gap.isBroken ∧ p.column < indent then none
      else plainFrom inFlow indent text (gap.add p.char) rest
    else if isLostColon inFlow p rest then none
    else if endsPlain inFlow indent gap p rest then some (text, gap.isBroken, p :: rest)
    else plainFrom inFlow indent (p.char :: gap.folded ++ text) {} rest

/-! ### Quoted scalars -/

inductive Escape where
  | char (c : Char)
  | code (digits : Nat)

def escape? (c : Char) : Option Escape :=
  match c with
  | '0' => some (.char (Char.ofNat 0))
  | 'a' => some (.char '\x07')
  | 'b' => some (.char '\x08')
  | 't' | '\t' => some (.char '\t')
  | 'n' => some (.char '\n')
  | 'v' => some (.char '\x0b')
  | 'f' => some (.char '\x0c')
  | 'r' => some (.char '\r')
  | 'e' => some (.char '\x1b')
  | ' ' => some (.char ' ')
  | '"' => some (.char '"')
  | '/' => some (.char '/')
  | '\\' => some (.char '\\')
  | 'N' => some (.char (Char.ofNat 0x85))
  | '_' => some (.char (Char.ofNat 0xa0))
  | 'L' => some (.char (Char.ofNat 0x2028))
  | 'P' => some (.char (Char.ofNat 0x2029))
  | 'x' => some (.code 2)
  | 'u' => some (.code 4)
  | 'U' => some (.code 8)
  | _ => none

/-- The character with a code; half of a surrogate pair is none. -/
def charOfCode? (n : Nat) : Option Char :=
  if n.isValidChar then some (Char.ofNat n) else none

/-- A quoted scalar. `code` holds how many digits of a code are still to come, and its value so
far. -/
def quotedFrom (quote : Char) (text : List Char) (gap : Gap) (code : Option (Nat × Nat)) :
    List Place → Option (List Char × List Place)
  | [] => none
  | p :: rest =>
    match code with
    | some (left, value) =>
      match Ascii.digitValue? p.char with
      | none => none
      | some d =>
        if left ≤ 1 then
          match charOfCode? (value * 16 + d) with
          | some c => quotedFrom quote (c :: text) {} none rest
          | none => none
        else quotedFrom quote text {} (some (left - 1, value * 16 + d)) rest
    | none =>
      if isGap p.char then quotedFrom quote text (gap.add p.char) none rest
      else if startsDocumentMark (p :: rest) then none
      else if p.char = quote then
        match rest with
        | q :: after =>
          if quote = '\'' ∧ q.char = quote then
            quotedFrom quote (quote :: gap.folded ++ text) {} none after
          else some (gap.folded ++ text, q :: after)
        | [] => some (gap.folded ++ text, [])
      else if p.char = '\\' ∧ quote = '"' then
        match rest with
        | [] => none
        | e :: after =>
          if isBreak e.char then
            quotedFrom quote (gap.folded ++ text) { first := some none } none after
          else match escape? e.char with
            | some (.char c) => quotedFrom quote (c :: gap.folded ++ text) {} none after
            | some (.code digits) =>
              quotedFrom quote (gap.folded ++ text) {} (some (digits, 0)) after
            | none => none
      else quotedFrom quote (p.char :: gap.folded ++ text) {} none rest

/-! ### Block scalars -/

inductive Chomping where
  | strip | clip | keep
deriving DecidableEq

def chomping? : List Place → Option (Chomping × List Place)
  | p :: rest =>
    if p.char = '+' then some (.keep, rest) else if p.char = '-' then some (.strip, rest) else none
  | [] => none

/-- The indent that the header of a block scalar asks for, if any; zero is refused. -/
def increment? : List Place → Option (Option Nat × List Place)
  | p :: rest =>
    if p.char = '0' then none
    else if Ascii.isDigit p.char then some (some (p.char.toNat - '0'.toNat), rest)
    else some (none, p :: rest)
  | [] => some (none, [])

/-- The header of a block scalar: which breaks to keep and the indent, in any order. -/
def blockHeader? (ps : List Place) : Option (Chomping × Option Nat × List Place) := do
  match chomping? ps with
  | some (chomping, ps) =>
    let (increment, ps) ← increment? ps
    return (chomping, increment, ← restOfLine? ps)
  | none =>
    let (increment, ps) ← increment? ps
    let (chomping, ps) := (chomping? ps).getD (.clip, ps)
    return (chomping, increment, ← restOfLine? ps)

/-- The deepest column that spaces reach up to the first text or to the end. A tab among them is
refused. -/
def deepest? (reached : Nat) : List Place → Option Nat
  | [] => some reached
  | p :: rest =>
    if p.char = ' ' then deepest? (max reached (p.column + 1)) rest
    else if p.char = '\t' then none
    else if isBreak p.char then deepest? reached rest
    else some reached

structure Block where
  text : List Char := []
  /-- Whether a line is being read, or the space before one. -/
  inLine : Bool := false
  /-- Whether the last line started with a blank, which keeps its breaks from folding. -/
  blankStart : Bool := false
  lineBreak : Option Char := none
  /-- The breaks of empty lines after it, last first. -/
  breaks : List Char := []

namespace Block

/-- What stands between the last line and one that starts with a character, last character first. -/
def between (literal : Bool) (b : Block) (start : Char) : List Char :=
  if !literal && b.lineBreak = some '\n' && !b.blankStart && !isBlank start then
    if b.breaks.isEmpty then [' '] else b.breaks
  else b.breaks ++ b.lineBreak.toList

def chomped (chomping : Chomping) (b : Block) : List Char :=
  match chomping with
  | .strip => b.text
  | .clip => b.lineBreak.toList ++ b.text
  | .keep => b.breaks ++ b.lineBreak.toList ++ b.text

end Block

def blockFrom (literal : Bool) (indent : Nat) (b : Block) :
    List Place → Option (Block × List Place)
  | [] => some (b, [])
  | p :: rest =>
    if b.inLine then
      if isBreak p.char then
        blockFrom literal indent
          { b with inLine := false, lineBreak := some p.char, breaks := [] } rest
      else blockFrom literal indent { b with text := p.char :: b.text } rest
    else if p.column < indent ∧ p.char = ' ' then blockFrom literal indent b rest
    else if p.column < indent ∧ p.char = '\t' then none
    else if isBreak p.char then
      blockFrom literal indent { b with breaks := p.char :: b.breaks } rest
    else if p.column = indent then
      blockFrom literal indent
        { text := p.char :: b.between literal p.char ++ b.text
          inLine := true, blankStart := isBlank p.char } rest
    else some (b, p :: rest)

/-- A block scalar inside a collection at an indent, after the character that announces it. -/
def blockScalar? (literal : Bool) (outer : Option Nat) (ps : List Place) :
    Option (String × List Place) := do
  let (chomping, increment, ps) ← blockHeader? ps
  let indent ← match increment with
    | some k => some ((outer.getD 0) + k)
    | none => (deepest? 0 ps).map fun reached => max (max reached ((outer.map (· + 1)).getD 0)) 1
  let (b, after) ← blockFrom literal indent {} ps
  return (String.ofList (b.chomped chomping).reverse, after)

/-! ### Names, tags and directives -/

def isNameChar (c : Char) : Bool := Ascii.isAlphanumeric c || c == '_' || c == '-'

def anchorName? (ps : List Place) : Option (String × List Place) :=
  let (name, after) := span isNameChar ps
  let ended := endsWord after || match after with
    | p :: _ => "?:,]\x7d%@\x60".toList.contains p.char
    | [] => true
  if name.isEmpty || !ended then none else some (String.ofList name, after)

def isUriChar (inVerbatim : Bool) (c : Char) : Bool :=
  isNameChar c || ";/?:@&=+$.!~*'()%".toList.contains c || (inVerbatim && ",[]".toList.contains c)

/-- How many characters of a percent code follow the one with a value, and the bits it gives. -/
def leadingOctet? (octet : Nat) : Option (Nat × Nat) :=
  if octet < 0x80 then some (0, octet)
  else if 0xc0 ≤ octet ∧ octet < 0xe0 then some (1, octet % 0x20)
  else if 0xe0 ≤ octet ∧ octet < 0xf0 then some (2, octet % 0x10)
  else if 0xf0 ≤ octet ∧ octet < 0xf8 then some (3, octet % 0x08)
  else none

/-- Puts characters in the place of their percent codes. `pending` holds how many octets of a
character are still to come, and its bits so far. -/
def decodePercent (pending : Option (Nat × Nat)) : List Char → Option (List Char)
  | '%' :: a :: b :: rest => do
    let octet := (← Ascii.digitValue? a) * 16 + (← Ascii.digitValue? b)
    let (left, bits) ← match pending with
      | none => leadingOctet? octet
      | some (left, bits) =>
        if 0x80 ≤ octet ∧ octet < 0xc0 then some (left - 1, bits * 64 + octet % 64) else none
    if left = 0 then return Char.ofNat bits :: (← decodePercent none rest)
    else decodePercent (some (left, bits)) rest
  | c :: rest =>
    if pending.isSome ∨ c = '%' then none else (decodePercent none rest).map (c :: ·)
  | [] => if pending.isSome then none else some []

/-- A handle after its first exclamation mark: a name and whether a second mark closes it. -/
def handlePart (ps : List Place) : List Char × Bool × List Place :=
  match span isNameChar ps with
  | (name, p :: after) => if p.char = '!' then (name, true, after) else (name, false, p :: after)
  | (name, []) => (name, false, [])

/-- A tag as handle and suffix, after its first exclamation mark. A verbatim tag has no handle, and
neither has the mark on its own. -/
def tagParts? (ps : List Place) : Option (String × String × List Place) :=
  match ps with
  | p :: rest =>
    if p.char = '<' then
      match span (isUriChar true) rest with
      | (uri, q :: after) => do
        if uri.isEmpty || q.char ≠ '>' then none
        else return ("", String.ofList (← decodePercent none uri), after)
      | _ => none
    else
      let (name, closed, after) := handlePart ps
      let (uri, after) := span (isUriChar false) after
      do
        let suffix ← decodePercent none uri
        if closed then
          if suffix.isEmpty then none
          else return (String.ofList ('!' :: name ++ ['!']), String.ofList suffix, after)
        else if (name ++ suffix).isEmpty then return ("", "!", after)
        else return ("!", String.ofList (name ++ suffix), after)
  | [] => some ("", "!", [])

/-- A tag, which a gap has to follow, or a comma in a flow. -/
def tag? (inFlow : Bool) (ps : List Place) : Option (String × String × List Place) := do
  let (handle, suffix, after) ← tagParts? ps
  let inComma := inFlow && match after with
    | p :: _ => p.char == ','
    | [] => false
  if inComma || endsWord after then return (handle, suffix, after) else none

inductive Directive where
  | version (major minor : Nat)
  | handle (handle expansion : String)

/-- A number of a version, which has one to nine digits. -/
def versionNumber? (ps : List Place) : Option (Nat × List Place) := do
  let (digits, after) := span Ascii.isDigit ps
  if 9 < digits.length then none else return (← Ascii.digits? 10 digits, after)

def versionDirective? (ps : List Place) : Option (Directive × List Place) := do
  match ← versionNumber? (dropBlanks ps) with
  | (major, p :: after) =>
    if p.char ≠ '.' then none
    else
      let (minor, after) ← versionNumber? after
      return (.version major minor, after)
  | (_, []) => none

def handleDirective? (ps : List Place) : Option (Directive × List Place) := do
  match dropBlanks ps with
  | p :: rest =>
    let (name, closed, after) := handlePart rest
    if p.char ≠ '!' ∨ (!closed ∧ !name.isEmpty) then none
    else match after with
      | q :: _ =>
        if !isBlank q.char then none
        else
          let (uri, after) := span (isUriChar true) (dropBlanks after)
          if uri.isEmpty || !endsWord after then none
          else
            let handle := String.ofList ('!' :: name ++ if closed then ['!'] else [])
            return (.handle handle (String.ofList (← decodePercent none uri)), after)
      | [] => none
  | [] => none

/-- A directive, after its percent sign and up to the end of its line. -/
def directive? (ps : List Place) : Option (Directive × List Place) := do
  let (name, after) := span isNameChar ps
  if !endsWord after then none
  else
    let (directive, after) ←
      if name = "YAML".toList then versionDirective? after
      else if name = "TAG".toList then handleDirective? after
      else none
    return (directive, ← restOfLine? after)

end ActionCatalogue.Yaml
