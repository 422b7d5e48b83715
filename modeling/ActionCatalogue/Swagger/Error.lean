import ActionCatalogue.App.Method
import ActionCatalogue.Data.Files

/-!
What can go wrong between a swagger document and the actions derived from it. Each error can be told
as an error of the catalogue's data.
-/

namespace ActionCatalogue

inductive SwaggerError where
  | file (fault : FileFault)
  | json (refusal : Refusal)
  | yaml (refusal : Refusal)
  | unsupportedVersion (version : String)
  | unresolved (reason : String)
  | operationNotFound (path : String) (method : Method)
  | duplicateAction (name : String)
  | data (error : DataError)
deriving DecidableEq, Repr

namespace SwaggerError

def message : SwaggerError → String
  | file fault => "IO error: " ++ fault.message
  | json refusal => "JSON parsing error: " ++ refusal.message
  | yaml refusal => "YAML parsing error: " ++ refusal.message
  | unsupportedVersion version => s!"unsupported swagger version '{version}', expected 2.0"
  | unresolved reason => "schema resolution failed: " ++ reason
  | operationNotFound path method => s!"operation {method.name} {path} not found"
  | duplicateAction name => s!"duplicate action '{name}'"
  | data error => error.message

def toDataError (e : SwaggerError) : DataError :=
  match e with
  | data error => error
  | unresolved reason => .unresolved reason
  | operationNotFound path method => .notFound s!"operation {method.name} {path}"
  | duplicateAction name => .conflict s!"duplicate action '{name}'"
  | json refusal | yaml refusal => refusal.toDataError
  | file _ | unsupportedVersion _ => .invalid e.message

end SwaggerError

end ActionCatalogue
