import ActionCatalogue.Decimal.Layout
import ActionCatalogue.Json.Value

/-!
JSON text of a value: compact, without any blank, or indented by two spaces a level. Only quotes,
backslashes and control characters below the space are escaped.
-/

namespace ActionCatalogue.Json

def hexDigit (n : Nat) : Char := "0123456789abcdef".toList.getD n '0'

def escapeChar (c : Char) : List Char :=
  if c = '"' then ['\\', '"']
  else if c = '\\' then ['\\', '\\']
  else if c.toNat = 8 then ['\\', 'b']
  else if c.toNat = 9 then ['\\', 't']
  else if c.toNat = 10 then ['\\', 'n']
  else if c.toNat = 12 then ['\\', 'f']
  else if c.toNat = 13 then ['\\', 'r']
  else if c.toNat < 0x20 then
    ['\\', 'u', '0', '0', hexDigit (c.toNat / 16), hexDigit (c.toNat % 16)]
  else [c]

def quote (s : String) : String :=
  String.ofList ('"' :: s.toList.flatMap escapeChar ++ ['"'])

namespace Number

def textWith (layout : Decimal.Layout) : Number → String
  | .int n => toString n
  | .double d => layout.text d

def text (n : Number) : String := n.textWith .json

end Number

namespace Value

mutual

def compact : Value → String
  | .null => "null"
  | .bool b => if b then "true" else "false"
  | .number n => n.text
  | .text s => quote s
  | .list items => "[" ++ compactItems items ++ "]"
  | .object entries => "\x7b" ++ compactEntries entries ++ "\x7d"

def compactItems : List Value → String
  | [] => ""
  | [v] => v.compact
  | v :: rest => v.compact ++ "," ++ compactItems rest

def compactEntries : List (String × Value) → String
  | [] => ""
  | [(k, v)] => quote k ++ ":" ++ v.compact
  | (k, v) :: rest => quote k ++ ":" ++ v.compact ++ "," ++ compactEntries rest

end

def newline (level : Nat) : String :=
  String.ofList ('\n' :: List.replicate (2 * level) ' ')

mutual

/-- The text of a value over lines, each level of nesting indented by two spaces. -/
def prettyAt (level : Nat) : Value → String
  | .null => "null"
  | .bool b => if b then "true" else "false"
  | .number n => n.text
  | .text s => quote s
  | .list [] => "[]"
  | .list items => "[" ++ prettyItems (level + 1) items ++ newline level ++ "]"
  | .object [] => "\x7b\x7d"
  | .object entries => "\x7b" ++ prettyEntries (level + 1) entries ++ newline level ++ "\x7d"

def prettyItems (level : Nat) : List Value → String
  | [] => ""
  | [v] => newline level ++ v.prettyAt level
  | v :: rest => newline level ++ v.prettyAt level ++ "," ++ prettyItems level rest

def prettyEntries (level : Nat) : List (String × Value) → String
  | [] => ""
  | [(k, v)] => newline level ++ quote k ++ ": " ++ v.prettyAt level
  | (k, v) :: rest =>
    newline level ++ quote k ++ ": " ++ v.prettyAt level ++ "," ++ prettyEntries level rest

end

def pretty (v : Value) : String := v.prettyAt 0

/-- The text that stands for a value in a label or an address: a text itself, else its JSON. -/
def plainText : Value → String
  | .text s => s
  | v => v.compact

end Value

end ActionCatalogue.Json
