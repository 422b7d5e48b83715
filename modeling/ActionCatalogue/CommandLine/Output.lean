import ActionCatalogue.Json.Printer
import ActionCatalogue.Yaml.Printer

/-!
How commands write: formats of values, colours, columns and shortened texts. Where colours are on, a
text stands between two escapes, and so do the blanks that fill its column.
-/

namespace ActionCatalogue.CommandLine

open Json

inductive OutputFormat where
  | table | pretty | json | yaml
deriving DecidableEq, Repr

namespace OutputFormat

def name : OutputFormat → String
  | table => "table"
  | pretty => "pretty"
  | json => "json"
  | yaml => "yaml"

def all : List OutputFormat := [table, pretty, json, yaml]

def ofName? (s : String) : Option OutputFormat := all.find? (·.name == s)

/-- The text of a value. A value has no table of its own and is written over lines instead. -/
def render (f : OutputFormat) (v : Value) : String :=
  match f with
  | table | pretty => v.pretty
  | json => v.compact
  | yaml => Yaml.Printer.text v

end OutputFormat

/-! ### Colours -/

inductive Role where
  | success | error | warning | info | dim | highlight
deriving DecidableEq, Repr

def Role.codes : Role → String
  | success => "1;32"
  | error => "1;31"
  | warning => "1;33"
  | info => "34"
  | dim => "2"
  | highlight => "1;36"

def paint (colored : Bool) (role : Role) (text : String) : String :=
  if colored then "\x1b[" ++ role.codes ++ "m" ++ text ++ "\x1b[0m" else text

/-! ### Columns -/

def padRight (width : Nat) (text : String) : String :=
  text ++ String.ofList (List.replicate (width - text.length) ' ')

/-- A text of at most so many characters, dots in the place of what is left out. The three dots
stand even where there is less room. -/
def truncate (text : String) (limit : Nat) : String :=
  if text.length ≤ limit then text
  else String.ofList (text.toList.take (limit - 3)) ++ "..."

def row (columns : List (Nat × String)) : String :=
  " ".intercalate (columns.map fun (width, text) => padRight width text)

def headRow (colored : Bool) (columns : List (Nat × String)) : String :=
  " ".intercalate (columns.map fun (width, title) =>
    paint colored .highlight (padRight width title))

def rule (width : Nat) : String := String.ofList (List.replicate width '-')

end ActionCatalogue.CommandLine
