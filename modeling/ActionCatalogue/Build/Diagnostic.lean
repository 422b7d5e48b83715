import ActionCatalogue.Data.Variant

/-!
Reports of a build: what was skipped, and what did not map cleanly. They are kept in the order in
which they were made.
-/

namespace ActionCatalogue

open Json

inductive Severity where
  | warning | error
deriving DecidableEq, Repr

namespace Severity

def name : Severity → String
  | warning => "warning"
  | error => "error"

def table : List (String × Severity) := [("warning", warning), ("error", error)]

end Severity

structure Diagnostic where
  severity : Severity
  source : String
  app : Option String := none
  action : Option String := none
  message : String
deriving DecidableEq, Repr

abbrev Diagnostics := List Diagnostic

namespace Diagnostic

/-- Where it belongs: nothing, an app, or an action of an app. An action alone does not count. -/
def location (d : Diagnostic) : String :=
  match d.app, d.action with
  | some app, some action => " " ++ app ++ "." ++ action
  | some app, none => " " ++ app
  | none, _ => ""

def text (d : Diagnostic) : String :=
  d.severity.name ++ " [" ++ d.source ++ "]" ++ d.location ++ ": " ++ d.message

def fieldNames : List String := ["severity", "source", "app", "action", "message"]

def ofNode (n : Node) : Reading Diagnostic :=
  n.asRecord fieldNames fun r =>
    Diagnostic.mk <$> r.required "severity" (Node.asVariant Severity.table)
      <*> r.required "source" Node.asText <*> r.optional "app" Node.asText
      <*> r.optional "action" Node.asText <*> r.required "message" Node.asText

def toJson (d : Diagnostic) : Value :=
  .object (
    [("severity", .text d.severity.name), ("source", .text d.source)] ++
    Value.entry? "app" (d.app.map .text) ++
    Value.entry? "action" (d.action.map .text) ++
    [("message", .text d.message)])

def isError (d : Diagnostic) : Bool := d.severity = .error

end Diagnostic

namespace Diagnostics

def errors (ds : Diagnostics) : Diagnostics := ds.filter Diagnostic.isError

def warnings (ds : Diagnostics) : Diagnostics := ds.filter fun d => d.severity = .warning

def hasErrors (ds : Diagnostics) : Bool := ds.any Diagnostic.isError

end Diagnostics

end ActionCatalogue
