import ActionCatalogue.Build.Provider
import ActionCatalogue.Piece.Plugin

/-!
Pieces as apps of the catalogue. The properties of an action become its options, except those that
only show a text and the dynamic ones: these are reached through the options they refresh on. An
action that does not map is reported and left out.
-/

namespace ActionCatalogue.Piece

inductive MappingError where
  | unsupportedAuth (kind : String)
  | property (name : String) (cause : DataError)
  | responseType (cause : DataError)
deriving DecidableEq, Repr

namespace MappingError

def message : MappingError → String
  | unsupportedAuth kind => s!"unsupported auth kind '{kind}'"
  | property name cause =>
    let reason := cause.message
    s!"property '{name}': {reason}"
  | responseType cause =>
    let reason := cause.message
    s!"response type: {reason}"

def toDataError : MappingError → DataError
  | property _ cause => cause
  | responseType cause => cause
  | e@(unsupportedAuth _) => .invalid e.message

end MappingError

def diagnosticSource : String := "pieces"

def infoKey : String := "info"

def isOption (key : String) (p : Property) : Bool :=
  !(key == infoKey || p.isDisplayOnly || p.isDynamic)

/-- The fetchers of the dynamic properties that refresh on a key, in order. -/
def dependentFetchers (key : String) (props : Entries Property) : List PropertiesFetcher :=
  ((Entries.values props).filter fun p => p.refreshers.contains key).filterMap (·.kind.fetcher?)

def fetchAllowedValues (fetch : FetchContext → Inquiry String DropdownState) :
    Deferred (List AllowedValue) := fun context => do
  return (← fetch (.ofAction context)).options.map DropdownOption.toAllowedValue

def fieldOf (p : Property) (dependents : Option (Deferred (Entries ActionOption))) :
    FieldDescription :=
  let text := (p.description.bind Text.nonBlank?).getD p.displayName
  { type := .named (PrimitiveType.text ⟨p.kind.baseType, false, false⟩)
    displayName := if p.displayName.isEmpty then none else some p.displayName
    shortDescription := some text
    description := some text
    defaultValue := p.defaultValue
    exampleValue := p.defaultValue
    allowedValues := match p.kind with
      | .staticDropdown options => options.map DropdownOption.toAllowedValue
      | _ => []
    getAllowedValues := match p.kind with
      | .dropdown fetch => some (fetchAllowedValues fetch)
      | _ => none
    getDependentOptions := dependents
    dependsOn := p.refreshers
    required := p.required }

def optionOf (n : Normalizer) (key : String) (p : Property)
    (dependents : Option (Deferred (Entries ActionOption))) : Except DataError ActionOption :=
  n.normalizeField key (fieldOf p dependents)

def addFetched (n : Normalizer) (options : Entries ActionOption) :
    List (String × Property) → Except String (Entries ActionOption)
  | [] => .ok options
  | (key, p) :: rest =>
    if p.isDisplayOnly || p.isDynamic then addFetched n options rest
    else do
      let o ← (optionOf n key p none).mapError DataError.message
      addFetched n (Entries.put key o options) rest

/-- Runs fetchers one after the other on one context; a later option takes the place of an earlier
one under the same key. -/
def runFetchers (n : Normalizer) (context : FetchContext) (options : Entries ActionOption) :
    List PropertiesFetcher → Inquiry String (Entries ActionOption)
  | [] => return options
  | fetch :: rest => do
    let options ← addFetched n options (← fetch context)
    runFetchers n context options rest

/-- The function behind the dependent options of a key, if some fetcher depends on it. -/
def dependentOptions (n : Normalizer) (fetchers : List PropertiesFetcher) :
    Option (Deferred (Entries ActionOption)) :=
  if fetchers.isEmpty then none
  else some fun context => runFetchers n (.ofAction context) [] fetchers

def optionsOf (n : Normalizer) (all : Entries Property) :
    List (String × Property) → Except MappingError (Entries ActionOption)
  | [] => .ok []
  | (key, p) :: rest =>
    if isOption key p then do
      let dependents := dependentOptions n (dependentFetchers key all)
      let o ← (optionOf n key p dependents).mapError (MappingError.property key)
      return (key, o) :: (← optionsOf n all rest)
    else optionsOf n all rest

def responseTypeOf (n : Normalizer) : Option TypeDescription →
    Except MappingError (Option OptionType)
  | none => .ok none
  | some d => match n.normalizeType d with
    | .ok t => .ok (some t)
    | .error e => .error (.responseType e)

def mapAction (n : Normalizer) (app name : String) (action : PieceAction) :
    Except MappingError Action := do
  let key := Naming.key name
  let n := (n.within app).within key
  let options ← optionsOf n action.props action.props
  let responseType ← responseTypeOf n action.responseType
  let description := (Text.nonBlank? action.description).getD action.displayName
  let run : ActionFunction := fun input callOptions context =>
    action.run (.ofAction input callOptions context)
  let mapped := (Action.ofKind app key (.function run)).withLabels (some action.displayName)
    (some description) (some description)
  return { mapped with options, responseType }

def restOf : Auth → Option RestConfig
  | .oauth2 auth => some {
      url := auth.url
      grantType := some RestConfig.authorizationCode
      authUrl := some auth.authUrl
      tokenUrl := some auth.tokenUrl
      scopes := auth.scope
      authArguments := auth.extra
      tokenUsesBasicAuth := auth.tokenUsesBasicAuth
      pingMethod := auth.pingMethod
      pingPath := auth.pingPath }
  | _ => none

def appOf (name : String) (piece : Plugin) : App :=
  let app := App.named (Naming.appName name) piece.displayName
  { app with
    shortDescription := piece.description
    description := piece.description
    logo := (piece.logo.filter (!·.isEmpty)).getD app.logo
    rest := restOf piece.auth }

def authDiagnostics (app : String) (auth : Auth) : Diagnostics :=
  if auth.isUnsupported then
    [{ severity := .warning, source := diagnosticSource, app := some app,
       message := (MappingError.unsupportedAuth auth.kind).message }]
  else []

/-- Maps actions: those that map, and a report of each that does not. -/
def mapActions (n : Normalizer) (app : String) :
    List (String × PieceAction) → List Action × Diagnostics
  | [] => ([], [])
  | (name, action) :: rest =>
    let (actions, diagnostics) := mapActions n app rest
    match mapAction n app name action with
    | .ok mapped => (mapped :: actions, diagnostics)
    | .error e =>
      (actions, { severity := .error, source := diagnosticSource, app := some app,
                  action := some (Naming.key name), message := e.message } :: diagnostics)

def mapPiece (n : Normalizer) (name : String) (piece : Plugin) : AppWithActions × Diagnostics :=
  let app := appOf name piece
  let (actions, diagnostics) := mapActions n app.name piece.actions
  ({ app, actions }, authDiagnostics app.name piece.auth ++ diagnostics)

def provider (pieces : Entries Plugin) : Provider where
  name := "pieces"
  provide context :=
    let mapped := pieces.map fun (name, piece) => mapPiece context.normalizer name piece
    { apps := mapped.map (·.1), diagnostics := mapped.flatMap (·.2) }

end ActionCatalogue.Piece
