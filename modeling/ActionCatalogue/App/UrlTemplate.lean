import ActionCatalogue.App.Context
import ActionCatalogue.Json.Printer
import ActionCatalogue.Text.Ascii
import ActionCatalogue.Text.Blank

/-!
Addresses with placeholders. A placeholder is a name in double braces, with blanks around it at
will; the leftmost one is taken first and they do not overlap. Rendering puts the values of options
in their places and does not look at what it has put in; it fails with the names, in order and as
often as they occur, of the placeholders that have no value.
-/

namespace ActionCatalogue.UrlTemplate

open Json
open Ascii (isNameStart isNameChar)

inductive Part where
  | char (c : Char)
  | placeholder (name : String)
deriving DecidableEq, Repr

/-- The placeholder at the start of a text, and what follows it. -/
def token? : List Char → Option (String × List Char)
  | '\x7b' :: '\x7b' :: rest =>
    match Text.dropBlanks rest with
    | c :: more =>
      if isNameStart c then
        match Text.dropBlanks (more.dropWhile isNameChar) with
        | '\x7d' :: '\x7d' :: after =>
          some (String.ofList (c :: more.takeWhile isNameChar), after)
        | _ => none
      else none
    | [] => none
  | _ => none

theorem length_dropBlanks_le (cs : List Char) : (Text.dropBlanks cs).length ≤ cs.length :=
  (List.dropWhile_sublist _).length_le

theorem length_token? {cs after : List Char} {name : String} (h : token? cs = some (name, after)) :
    after.length < cs.length := by
  unfold token? at h
  split at h
  · rename_i rest
    split at h
    · rename_i c more hm
      split at h
      · split at h
        · rename_i tail ht
          simp only [Option.some.injEq, Prod.mk.injEq] at h
          have h1 := length_dropBlanks_le rest
          have h2 := length_dropBlanks_le (more.dropWhile isNameChar)
          have h3 := (List.dropWhile_sublist (l := more) isNameChar).length_le
          rw [hm] at h1
          rw [ht] at h2
          simp only [List.length_cons] at h1 h2 ⊢
          rw [← h.2]
          omega
        · cases h
      · cases h
    · cases h
  · cases h

def parts (cs : List Char) : List Part :=
  match _h : token? cs with
  | some (name, after) => .placeholder name :: parts after
  | none => match cs with
    | [] => []
    | c :: rest => .char c :: parts rest
termination_by cs.length
decreasing_by
  · exact length_token? ‹_›
  · simp

def Part.name? : Part → Option String
  | .placeholder name => some name
  | .char _ => none

def addNew (names : List String) (name : String) : List String :=
  if names.contains name then names else names ++ [name]

/-- The names of the placeholders, each once, in order of their first appearance. -/
def placeholders (url : String) : List String :=
  ((parts url.toList).filterMap Part.name?).foldl addNew []

/-- The text that an option puts into the place of a placeholder; null counts as no value. -/
def optionText? (options : Object) (name : String) : Option String :=
  match Entries.lookup name options with
  | none | some .null => none
  | some v => some v.plainText

def renderPart (options : Object) : Part → List Char
  | .char c => [c]
  | .placeholder name => ((optionText? options name).getD "").toList

def missing (options : Object) (ps : List Part) : List String :=
  (ps.filterMap Part.name?).filter fun name => (optionText? options name).isNone

def render (url : String) (options : Object) : Except DataError String :=
  let ps := parts url.toList
  let absent := missing options ps
  if absent.isEmpty then .ok (String.ofList (ps.flatMap (renderPart options)))
  else
    let names := ", ".intercalate absent
    .error (.invalid s!"url '{url}' is missing options: {names}")

end ActionCatalogue.UrlTemplate
