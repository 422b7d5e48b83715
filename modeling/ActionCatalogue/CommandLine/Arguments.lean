import ActionCatalogue.CommandLine.Output
import ActionCatalogue.Manifest.Expansion

/-!
The command line. Arguments are taken from left to right; the first one that asks for help, or that
does not belong where it stands, ends the reading. Options that every command has may stand before
or after its name, and count where they stand last.
-/

namespace ActionCatalogue.CommandLine

inductive Usage where
  | asked
  | wrong
deriving DecidableEq, Repr

def Usage.exitCode : Usage → Nat
  | asked => 0
  | wrong => 2

inductive Command where
  | build (dump : Bool)
  | listApps (format : OutputFormat)
  | listActions (app : Option String) (format : OutputFormat)
  | show (app : String) (action : Option String) (format : OutputFormat)
  | swagger (file : String) (allowedPaths : List String) (format : OutputFormat)
deriving DecidableEq, Repr

structure Invocation where
  manifest : String
  verbose : Bool
  colorless : Bool
  command : Command
deriving DecidableEq, Repr

inductive Level where
  | root | build | list | listApps | listActions | show | swagger
deriving DecidableEq, Repr

def Level.below : Level → List (String × Level)
  | root => [("build", .build), ("list", .list), ("show", .show), ("swagger", .swagger)]
  | list => [("apps", .listApps), ("actions", .listActions)]
  | _ => []

inductive Switch where
  | manifest | verbose | colorless | help | version | dump | format | app | allow
deriving DecidableEq, Repr

namespace Switch

def takesValue : Switch → Bool
  | manifest | format | app | allow => true
  | _ => false

def long? (level : Level) (name : String) : Option Switch :=
  match name with
  | "manifest" => some manifest
  | "verbose" => some verbose
  | "no-color" => some colorless
  | "help" => some help
  | "version" => if level = .root then some version else none
  | "dump" => if level = .build then some dump else none
  | "format" => match level with
    | .listApps | .listActions | .show | .swagger => some format
    | _ => none
  | "app" => if level = .listActions then some app else none
  | "allow" => if level = .swagger then some allow else none
  | _ => none

def short? (level : Level) (letter : Char) : Option Switch :=
  match letter with
  | 'v' => some verbose
  | 'h' => some help
  | 'V' => if level = .root then some version else none
  | 'a' => if level = .listActions then some app else none
  | _ => none

end Switch

structure Draft where
  level : Level := .root
  /-- The switches of this level that may not come again. -/
  used : List Switch := []
  /-- Whether only texts may follow. -/
  trailing : Bool := false
  texts : List String := []
  manifest : Option String := none
  verbose : Bool := false
  colorless : Bool := false
  dump : Bool := false
  format : Option OutputFormat := none
  app : Option String := none
  allowedPaths : List String := []

namespace Draft

/-- Notes that a switch is used, unless it has been before. -/
def use (p : Draft) (s : Switch) : Except Usage Draft :=
  if p.used.contains s then .error .wrong else .ok { p with used := s :: p.used }

def setValue (p : Draft) (s : Switch) (value : String) : Except Usage Draft :=
  match s with
  | .allow => .ok { p with allowedPaths := p.allowedPaths ++ [value] }
  | .app => do return { ← p.use s with app := some value }
  | .manifest => do
    if value.isEmpty then .error .wrong else return { ← p.use s with manifest := some value }
  | .format => do
    match OutputFormat.ofName? value with
    | some format => return { ← p.use s with format := some format }
    | none => .error .wrong
  | _ => .error .wrong

def set (p : Draft) (s : Switch) : Except Usage Draft :=
  match s with
  | .help | .version => .error .asked
  | .verbose => do return { ← p.use s with verbose := true }
  | .colorless => do return { ← p.use s with colorless := true }
  | .dump => do return { ← p.use s with dump := true }
  | _ => .error .wrong

def maxTexts : Level → Nat
  | .show => 2
  | .swagger => 1
  | _ => 0

/-- Takes a text that stands on its own. The name of a file is not empty. -/
def addText (p : Draft) (text : String) : Except Usage Draft :=
  if maxTexts p.level ≤ p.texts.length || (p.level = .swagger && text.isEmpty) then .error .wrong
  else .ok { p with texts := p.texts ++ [text] }

/-- What follows a request for help: the names that lead to a level. -/
def helpOn (level : Level) : List String → Usage
  | [] => .asked
  | name :: rest =>
    match Entries.lookup name level.below with
    | some below => helpOn below rest
    | none => if name = "help" ∧ !level.below.isEmpty ∧ rest.isEmpty then .asked else .wrong

def enter (p : Draft) (level : Level) : Draft := { p with level, used := [] }

/-- The letters of short switches, the last of which may have its value in the same argument.
Gives the switch whose value has to follow. -/
def setShort (p : Draft) : List Char → Except Usage (Draft × Option Switch)
  | [] => .ok (p, none)
  | letter :: rest =>
    match Switch.short? p.level letter with
    | none => .error .wrong
    | some s =>
      if s.takesValue then
        match rest with
        | [] => .ok (p, some s)
        | '=' :: value => do return (← p.setValue s (String.ofList value), none)
        | value => do return (← p.setValue s (String.ofList value), none)
      else do setShort (← p.set s) rest

/-- A long switch, with its value behind an equals sign if it has one there. Gives the switch whose
value has to follow. -/
def setLong (p : Draft) (argument : List Char) : Except Usage (Draft × Option Switch) :=
  let name := String.ofList (argument.takeWhile (· ≠ '='))
  match Switch.long? p.level name, argument.dropWhile (· ≠ '=') with
  | none, _ => .error .wrong
  | some s, [] => if s.takesValue then .ok (p, some s) else do return (← p.set s, none)
  | some s, _ :: value =>
    if s.takesValue then do return (← p.setValue s (String.ofList value), none) else .error .wrong

/-- A state of reading, and the switch whose value the next argument is. -/
abbrev Step := Except Usage (Draft × Option Switch)

def step (p : Draft) (argument : String) (rest : List String) : Step :=
  match argument.toList with
  | '-' :: '-' :: [] => .ok ({ p with trailing := true }, none)
  | '-' :: '-' :: name => p.setLong name
  | '-' :: letter :: letters => p.setShort (letter :: letters)
  | _ =>
    match Entries.lookup argument p.level.below with
    | some level => .ok (p.enter level, none)
    | none =>
      if argument = "help" ∧ !p.level.below.isEmpty then .error (helpOn p.level rest)
      else do return (← p.addText argument, none)

def isSwitch (argument : String) : Bool :=
  match argument.toList with
  | '-' :: _ :: _ => true
  | _ => false

def read (p : Draft) (awaiting : Option Switch) : List String → Except Usage Draft
  | [] => if awaiting.isSome then .error .wrong else .ok p
  | argument :: rest =>
    match awaiting with
    | some s =>
      if isSwitch argument then .error .wrong
      else do read (← p.setValue s argument) none rest
    | none =>
      if p.trailing then do read (← p.addText argument) none rest
      else do
        let (p, awaiting) ← p.step argument rest
        read p awaiting rest

def command (p : Draft) : Except Usage Command :=
  match p.level, p.texts with
  | .build, _ => .ok (.build p.dump)
  | .listApps, _ => .ok (.listApps (p.format.getD .table))
  | .listActions, _ => .ok (.listActions p.app (p.format.getD .table))
  | .show, app :: rest => .ok (.show app rest.head? (p.format.getD .pretty))
  | .swagger, file :: _ => .ok (.swagger file p.allowedPaths (p.format.getD .table))
  | _, _ => .error .wrong

end Draft

def manifestVariable : String := "CATALOGUE_MANIFEST"

def defaultManifest : String := "./catalogue.yaml"

def Invocation.read (env : Environment) (arguments : List String) : Except Usage Invocation := do
  let p ← Draft.read {} none arguments
  let command ← p.command
  let manifest := (p.manifest.orElse fun _ => env manifestVariable).getD defaultManifest
  if manifest.isEmpty then throw .wrong
  return { manifest, verbose := p.verbose, colorless := p.colorless, command }

end ActionCatalogue.CommandLine
