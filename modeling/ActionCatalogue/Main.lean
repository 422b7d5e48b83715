import ActionCatalogue.CommandLine.Run

/-!
The program. What a command may read is found out beforehand: the file that it names, the documents
that a manifest names in turn, and the variables to which texts refer, round by round.
-/

namespace ActionCatalogue.CommandLine

def faultOf : IO.Error → FileFault
  | .noFileOrDirectory _ _ _ => .notFound
  | .inappropriateType _ code _ => if code = 21 then .isDirectory else .notDirectory
  | .invalidArgument _ _ _ => .nameTooLong
  | .permissionDenied _ _ _ => .other "Permission denied (os error 13)"
  | e => .other (toString e)

def readFile (path : String) : IO (Except FileFault String) := do
  try
    match String.fromUTF8? (← IO.FS.readBinFile path) with
    | some text => return .ok text
    | none => return .error (.other "stream did not contain valid UTF-8")
  catch e =>
    return .error (faultOf e)

abbrev ReadFiles := List (String × Except FileFault String)

def ReadFiles.files (read : ReadFiles) : Files := fun path =>
  (Entries.lookup path read).getD (.error .notFound)

abbrev Variables := List (String × String)

def Variables.environment (set : Variables) : Environment := fun name =>
  Entries.lookup name set

/-- Looks variables up, and in so many rounds those to which they refer. -/
def lookUp (known : Variables) (names : List String) : Nat → IO Variables
  | 0 => return known
  | rounds + 1 => do
    let fresh := names.filter fun name => !Entries.has name known
    let found ← fresh.filterMapM fun name => do
      return (← IO.getEnv name).map fun text => (name, text)
    lookUp (Entries.putAll known found)
      (found.flatMap fun (_, text) => Expansion.variablesIn text) rounds

/-- The variables to which texts of a manifest refer. The search is in the value, not in the file,
where a reference may be written with escapes. -/
def variablesNamed (path : String) (read : Except FileFault String) : List String :=
  let value := do
    let format ← FileFormat.ofPath path
    Manifest.readText format (← read.mapError .file)
  match value with
  | .ok v => Expansion.variablesIn v.compact
  | .error _ => []

/-- The variables that a manifest may read: those to which its texts refer, and the client secrets
of its apps. -/
def variablesFor (path : String) (read : Except FileFault String) : IO Variables := do
  let rounds := ({} : Expansion.Rules).maxDepth + 1
  let known ← lookUp [] (variablesNamed path read) rounds
  match Manifest.ofFile (ReadFiles.files [(path, read)]) known.environment path with
  | .error _ => return known
  | .ok m => lookUp known (m.apps.map fun d => Manifest.secretVariable d.app.name) 1

def documentsOf (path : String) (read : Except FileFault String) (env : Environment) :
    IO ReadFiles := do
  match Manifest.ofFile (ReadFiles.files [(path, read)]) env path with
  | .error _ => return []
  | .ok m =>
    let references := m.apps.filterMap (·.app.swagger)
    references.mapM fun reference => do
      let document := FilePath.join (FilePath.parent path) reference.file
      return (document, ← readFile document)

def surroundings (invocation : Invocation) (colored : Bool) : IO Surroundings := do
  match invocation.command with
  | .swagger file _ _ =>
    return { files := ReadFiles.files [(file, ← readFile file)], env := fun _ => none, colored }
  | _ =>
    let path := invocation.manifest
    let read ← readFile path
    let env := (← variablesFor path read).environment
    let documents ← documentsOf path read env
    return { files := ReadFiles.files ((path, read) :: documents), env, colored }

/-- Whether colours are on: on a terminal, unless they are not wanted. -/
def wantsColor : IO Bool := do
  return (← (← IO.getStdout).isTty) && (← IO.getEnv "NO_COLOR").isNone

def usageText : String :=
  "Usage: catalogue [--manifest FILE] [-v] [--no-color] build|list|show|swagger ..."

def start (arguments : List String) : IO UInt32 := do
  let known ← lookUp [] [manifestVariable] 1
  match Invocation.read known.environment arguments with
  | .error usage =>
    if usage = .asked then IO.println usageText else IO.eprintln usageText
    return usage.exitCode.toUInt32
  | .ok invocation =>
    let colored ← wantsColor
    let report := invocation.run (← surroundings invocation colored)
    for text in report.errors (colored && !invocation.colorless) do
      IO.eprintln text
    for text in report.out do
      IO.println text
    return report.exitCode.toUInt32

end ActionCatalogue.CommandLine

def main (arguments : List String) : IO UInt32 :=
  ActionCatalogue.CommandLine.start arguments
