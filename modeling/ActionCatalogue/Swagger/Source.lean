import ActionCatalogue.Data.Files
import ActionCatalogue.Json.Reader
import ActionCatalogue.Swagger.Error
import ActionCatalogue.Swagger.Reader
import ActionCatalogue.Yaml.Reader

/-!
Where swagger documents come from: texts in JSON or YAML, or files, whose extension tells the
format. A document has to say that its version is a second one.
-/

namespace ActionCatalogue.Swagger.Document

def supported (d : Document) : Except SwaggerError Document :=
  if d.version.toList.head? = some '2' then .ok d else .error (.unsupportedVersion d.version)

def ofJsonText (text : String) : Except SwaggerError Document :=
  match (Json.Reader.readDocument text).bind Document.ofNode with
  | .ok d => d.supported
  | .error refusal => .error (.json refusal)

def ofYamlText (text : String) : Except SwaggerError Document :=
  match (Yaml.Reader.readDocument text).bind Document.ofNode with
  | .ok d => d.supported
  | .error refusal => .error (.yaml refusal)

def isYamlPath (path : String) : Bool :=
  ((FilePath.extension? path).map Ascii.lower).any fun e => e == "yaml" || e == "yml"

def ofFile (files : Files) (path : String) : Except SwaggerError Document :=
  match files path with
  | .error fault => .error (.file fault)
  | .ok text => if isYamlPath path then ofYamlText text else ofJsonText text

end ActionCatalogue.Swagger.Document
