import ActionCatalogue.App.App
import ActionCatalogue.App.SwaggerPath
import ActionCatalogue.Text.Blank
import ActionCatalogue.Text.Naming
import ActionCatalogue.Typing.OptionType

/-!
Actions of apps: what they are called, what they take and answer, and what the host does when one
runs. An action is a function of its own or stands for one operation of a swagger document.
-/

namespace ActionCatalogue

open Json

/-- A function behind an action: input, call options and context to a result. -/
abbrev ActionFunction := Object → Object → ActionContext → Inquiry String Value

inductive ActionKind where
  | function (run : ActionFunction)
  | swagger (path : SwaggerPath)

/-- The code under which the host runs actions that call an interface. -/
def actionCode : Nat := 2

structure Action where
  app : String
  name : String
  displayName : String
  shortDescription : String
  description : String
  kind : ActionKind
  options : Entries ActionOption := []
  responseType : Option OptionType := none
  /-- A hint for the host, in seconds. -/
  timeout : Option Nat := none

namespace Action

/-- An action all of whose texts are the label of its name. -/
def ofKind (app name : String) (kind : ActionKind) : Action where
  app := app
  name := name
  displayName := Naming.label name
  shortDescription := Naming.label name
  description := Naming.label name
  kind := kind

/-- Sets the texts. A blank one counts as none; the short text falls back to the long one, then to
the display name, and the long one to the short one. -/
def withLabels (a : Action) (displayName shortDescription description : Option String) : Action :=
  let display := (displayName.bind Text.nonBlank?).getD a.displayName
  let long := description.bind Text.nonBlank?
  let short := ((shortDescription.bind Text.nonBlank?).orElse fun _ => long).getD display
  { a with displayName := display, shortDescription := short, description := long.getD short }

def function? (a : Action) : Option ActionFunction :=
  match a.kind with
  | .function run => some run
  | .swagger _ => none

def swaggerPath? (a : Action) : Option SwaggerPath :=
  match a.kind with
  | .function _ => none
  | .swagger path => some path

def isSwagger (a : Action) : Bool := a.swaggerPath?.isSome

def qualifiedName (a : Action) : String := a.app ++ "." ++ a.name

def kindMembers : ActionKind → Object
  | .function _ => [("kind", .text "function")]
  | .swagger path => [("kind", .text "swagger"), ("swagger_path", path.toJson)]

/-- An action without its functions. -/
def toJson (a : Action) : Value :=
  .object (
    [("app", .text a.app), ("action", .text a.name), ("display_name", .text a.displayName),
      ("short_desc", .text a.shortDescription), ("desc", .text a.description),
      ("action_code", .ofNat actionCode)] ++
    kindMembers a.kind ++
    [("options", .object (Entries.mapValues ActionOption.toJson a.options))] ++
    Value.entry? "response_type" (a.responseType.map OptionType.toJson) ++
    Value.entry? "io_timeout_secs" (a.timeout.map Value.ofNat))

end Action

end ActionCatalogue
