import ActionCatalogue.Text.Hidden

/-!
Texts between quotes for messages that show what was given. Quotes, backslashes and the usual
control characters have an escape of their own; every other character that does not show by itself
is written by its code in braces.
-/

namespace ActionCatalogue.Text

/-- The code of a character in braces, in lower-case hexadecimal digits. -/
def codeText (c : Char) : List Char :=
  ['\\', 'u', '\x7b'] ++ Nat.toDigits 16 c.toNat ++ ['\x7d']

def shownChar (c : Char) : List Char :=
  if c = '"' then ['\\', '"']
  else if c = '\\' then ['\\', '\\']
  else if c = '\t' then ['\\', 't']
  else if c = '\n' then ['\\', 'n']
  else if c = '\r' then ['\\', 'r']
  else if c.toNat = 0 then ['\\', '0']
  else if isHidden c then codeText c
  else [c]

def quoted (s : String) : String :=
  String.ofList ('"' :: s.toList.flatMap shownChar ++ ['"'])

def quotedList (texts : List String) : String :=
  "[" ++ ", ".intercalate (texts.map quoted) ++ "]"

end ActionCatalogue.Text
