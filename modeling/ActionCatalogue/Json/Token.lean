import ActionCatalogue.Json.Literal

/-!
Tokens of JSON text. A number beyond the doubles and a text with half of a surrogate pair are
tokens, since a reader that passes over them does not mind; everything else that JSON does not have
is no token. Each token takes up at least one character.
-/

namespace ActionCatalogue.Json

inductive Token where
  | openList | closeList | openMap | closeMap | comma | colon
  | null
  | bool (value : Bool)
  /-- A number, `none` if it has no value. -/
  | number (value : Option Number)
  /-- A text, `none` if it holds half of a surrogate pair. -/
  | text (value : Option String)
deriving DecidableEq, Repr

namespace Token

/-- A part of a quoted text: a character, or one of the 16-bit units that escapes write. -/
inductive Piece where
  | char (c : Char)
  | unit (u : Nat)

def hexUnit? (a b c d : Char) : Option Nat := Ascii.digits? 16 [a, b, c, d]

def shortEscape? (c : Char) : Option Char :=
  match c with
  | '"' => some '"'
  | '\\' => some '\\'
  | '/' => some '/'
  | 'b' => some '\x08'
  | 'f' => some '\x0c'
  | 'n' => some '\n'
  | 'r' => some '\r'
  | 't' => some '\t'
  | _ => none

/-- The pieces of a text after its opening quote, and what follows its closing one. -/
def pieces? : List Char → Option (List Piece × List Char)
  | [] => none
  | '"' :: rest => some ([], rest)
  | '\\' :: 'u' :: a :: b :: c :: d :: rest => do
    let u ← hexUnit? a b c d
    let (ps, after) ← pieces? rest
    return (.unit u :: ps, after)
  | '\\' :: c :: rest => do
    let e ← shortEscape? c
    let (ps, after) ← pieces? rest
    return (.char e :: ps, after)
  | c :: rest => do
    if c.toNat < 0x20 ∨ c = '\\' then none
    else
      let (ps, after) ← pieces? rest
      return (.char c :: ps, after)

theorem length_pieces? {cs : List Char} {ps : List Piece} {after : List Char}
    (h : pieces? cs = some (ps, after)) : after.length < cs.length := by
  induction cs using pieces?.induct generalizing ps with
  | case1 => simp [pieces?] at h
  | case2 rest =>
      simp only [pieces?, Option.some.injEq, Prod.mk.injEq] at h
      simp [h.2]
  | case3 a b c d rest ih =>
      simp only [pieces?, Option.bind_eq_bind, Option.bind_eq_some_iff] at h
      obtain ⟨u, _, ⟨qs, tail⟩, hq, e⟩ := h
      simp only [Option.pure_def, Option.some.injEq, Prod.mk.injEq] at e
      have := ih (e.2 ▸ hq)
      simp only [List.length_cons]
      omega
  | case4 c rest hu ih =>
      rw [pieces?.eq_4 _ _ hu] at h
      simp only [Option.bind_eq_bind, Option.bind_eq_some_iff] at h
      obtain ⟨u, _, ⟨qs, tail⟩, hq, e⟩ := h
      simp only [Option.pure_def, Option.some.injEq, Prod.mk.injEq] at e
      have := ih (e.2 ▸ hq)
      simp only [List.length_cons]
      omega
  | case5 c rest h1 h2 h3 hc =>
      rw [pieces?.eq_5 _ _ h1 h2 h3] at h
      simp [hc] at h
  | case6 c rest h1 h2 h3 hc ih =>
      rw [pieces?.eq_5 _ _ h1 h2 h3] at h
      simp only [hc, if_false, Option.bind_eq_bind, Option.bind_eq_some_iff] at h
      obtain ⟨⟨qs, tail⟩, hq, e⟩ := h
      simp only [Option.pure_def, Option.some.injEq, Prod.mk.injEq] at e
      have := ih (e.2 ▸ hq)
      simp only [List.length_cons]
      omega

/-- The characters that pieces write: two units that form a pair are one character, and half of a
pair is none. -/
def joinPieces? : List Piece → Option (List Char)
  | [] => some []
  | .char c :: rest => (joinPieces? rest).map (c :: ·)
  | .unit u :: .unit v :: rest =>
    if 0xd800 ≤ u ∧ u < 0xdc00 then
      if 0xdc00 ≤ v ∧ v < 0xe000 then
        (joinPieces? rest).map (Char.ofNat (0x10000 + (u - 0xd800) * 0x400 + (v - 0xdc00)) :: ·)
      else none
    else if 0xdc00 ≤ u ∧ u < 0xe000 then none
    else (joinPieces? (.unit v :: rest)).map (Char.ofNat u :: ·)
  | .unit u :: rest =>
    if 0xd800 ≤ u ∧ u < 0xe000 then none else (joinPieces? rest).map (Char.ofNat u :: ·)

def isSpace (c : Char) : Bool := c == ' ' || c == '\t' || c == '\n' || c == '\r'

def isNumberChar (c : Char) : Bool :=
  Ascii.isDigit c || c == '-' || c == '+' || c == '.' || c == 'e' || c == 'E'

/-- The tokens of a text; `none` if something in it is no token. -/
def scan? (cs : List Char) : Option (List Token) :=
  match cs with
  | [] => some []
  | '[' :: rest => (scan? rest).map (.openList :: ·)
  | ']' :: rest => (scan? rest).map (.closeList :: ·)
  | '\x7b' :: rest => (scan? rest).map (.openMap :: ·)
  | '\x7d' :: rest => (scan? rest).map (.closeMap :: ·)
  | ',' :: rest => (scan? rest).map (.comma :: ·)
  | ':' :: rest => (scan? rest).map (.colon :: ·)
  | 'n' :: 'u' :: 'l' :: 'l' :: rest => (scan? rest).map (.null :: ·)
  | 't' :: 'r' :: 'u' :: 'e' :: rest => (scan? rest).map (.bool true :: ·)
  | 'f' :: 'a' :: 'l' :: 's' :: 'e' :: rest => (scan? rest).map (.bool false :: ·)
  | '"' :: rest =>
    match h : pieces? rest with
    | none => none
    | some (ps, after) =>
      have := length_pieces? h
      (scan? after).map (.text ((joinPieces? ps).map String.ofList) :: ·)
  | c :: rest =>
    if isSpace c then scan? rest
    else if isNumberChar c then
      have := (List.dropWhile_sublist (l := rest) isNumberChar).length_le
      match Literal.parse? (c :: rest.takeWhile isNumberChar) with
      | none => none
      | some l => (scan? (rest.dropWhile isNumberChar)).map (.number l.number? :: ·)
    else none
termination_by cs.length
decreasing_by all_goals (simp_wf; try omega)

end Token

end ActionCatalogue.Json
