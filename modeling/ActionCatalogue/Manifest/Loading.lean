import ActionCatalogue.Data.Files
import ActionCatalogue.Json.Reader
import ActionCatalogue.Manifest.Declaration
import ActionCatalogue.Manifest.Expansion
import ActionCatalogue.Yaml.Reader

/-!
Loading manifests. The text is read as a value, references to variables in it are expanded, and the
result is read as a manifest and checked. Each app that the text names may read variables of its
own; an app that authenticates by OAuth2 and declares no client secret gets it from one of them.
How a text is read is a parameter of loading. The readers of JSON and YAML in this library stand for
parsers of others, and what is said of loading holds for any reader in their place.
-/

namespace ActionCatalogue

open Json

inductive FileFormat where
  | yaml | json
deriving DecidableEq, Repr

def FileFormat.name : FileFormat → String
  | yaml => "yaml"
  | json => "json"

inductive ManifestError where
  | file (fault : FileFault)
  | yaml (refusal : Refusal)
  | json (refusal : Refusal)
  | expansion (error : ExpansionError)
  | invalid (fault : ManifestFault)
  | unsupportedFormat (what : String)
deriving DecidableEq, Repr

namespace ManifestError

def message : ManifestError → String
  | file fault => "IO error: " ++ fault.message
  | yaml refusal => "YAML parsing error: " ++ refusal.message
  | json refusal => "JSON parsing error: " ++ refusal.message
  | expansion error => "Environment resolution error: " ++ error.message
  | invalid fault => "Validation error: " ++ fault.message
  | unsupportedFormat what => "Unsupported file format: " ++ what

def toDataError (e : ManifestError) : DataError :=
  match e with
  | file fault => .invalid fault.message
  | yaml refusal | json refusal => refusal.toDataError
  | expansion _ | invalid _ | unsupportedFormat _ => .invalid e.message

end ManifestError

/-- The format that the extension of a path says, in lower case only. -/
def FileFormat.ofPath (path : String) : Except ManifestError FileFormat :=
  match FilePath.extension? path with
  | none => .error (.unsupportedFormat s!"no extension on {path}")
  | some extension =>
    if extension = "yaml" ∨ extension = "yml" then .ok .yaml
    else if extension = "json" then .ok .json
    else .error (.unsupportedFormat extension)

namespace Manifest

def variablePrefix (app : String) : String :=
  String.ofList (app.toList.map (fun c => if Ascii.isAlphanumeric c then c.toUpper else '_') ++
    ['_'])

def appNames (v : Value) : List String :=
  (((v.get? "apps").bind Value.list?).getD []).filterMap fun app =>
    (app.get? "name").bind Value.text?

def rulesFor (r : Expansion.Rules) (v : Value) : Expansion.Rules :=
  (appNames v).foldl (fun r name => r.allow (variablePrefix name)) r

def automaticSecret : String := "auto"

def secretVariable (app : String) : String := variablePrefix app ++ "CLIENT_SECRET"

/-- The app with a client secret, if it authenticates by OAuth2. -/
def fillSecret (env : Environment) (app : App) : App :=
  match app.rest with
  | none => app
  | some rest =>
    if rest.isOAuth2 && rest.clientSecret.isNone then
      let secret := (env (secretVariable app.name)).getD automaticSecret
      { app with rest := some { rest with clientSecret := some secret } }
    else app

def fillSecrets (env : Environment) (m : Manifest) : Manifest :=
  { m with apps := m.apps.map fun d => { d with app := fillSecret env d.app } }

/-- What reads the value that a text is in a format. -/
abbrev TextReader := FileFormat → String → Except ManifestError Value

def readText : TextReader := fun format text =>
  match format with
  | .json => (Reader.readValue text).mapError .json
  | .yaml => ((Yaml.Reader.readDocument text).bind Node.asValue).mapError .yaml

def ofValue (rules : Expansion.Rules) (env : Environment) (v : Value) :
    Except ManifestError Manifest := do
  let expanded ← (Expansion.expandValue (rulesFor rules v) env v).mapError .expansion
  let m ← (Manifest.ofNode (Node.ofValue expanded)).mapError .json
  m.validate.mapError .invalid
  return m.fillSecrets env

def ofTextBy (read : TextReader) (rules : Expansion.Rules) (env : Environment)
    (format : FileFormat) (text : String) : Except ManifestError Manifest := do
  ofValue rules env (← read format text)

def ofText (rules : Expansion.Rules) (env : Environment) (format : FileFormat) (text : String) :
    Except ManifestError Manifest :=
  ofTextBy readText rules env format text

def ofFile (files : Files) (env : Environment) (path : String) :
    Except ManifestError Manifest := do
  let format ← FileFormat.ofPath path
  let text ← (files path).mapError .file
  ofText {} env format text

end Manifest

end ActionCatalogue
