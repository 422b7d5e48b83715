import ActionCatalogue.Text.Ascii

/-!
File paths as texts of segments between slashes. Empty segments and single dots mean nothing, except
a dot that comes first; the name of a file is the last segment that means something, unless that is
a way up.
-/

namespace ActionCatalogue.FilePath

def segmentsFrom (current : List Char) : List Char → List (List Char)
  | [] => [current.reverse]
  | c :: rest =>
    if c = '/' then current.reverse :: segmentsFrom [] rest else segmentsFrom (c :: current) rest

def segments (path : String) : List String :=
  (segmentsFrom [] path.toList).map String.ofList

def isAbsolute (path : String) : Bool := path.toList.head? = some '/'

/-- Takes off the segments at the end that mean nothing; the first segment stays. The segments come
last first. -/
def dropIdle : List String → List String
  | [] => []
  | [first] => [first]
  | last :: rest => if last = "" ∨ last = "." then dropIdle rest else last :: rest

def lastSegment? (path : String) : Option String :=
  (dropIdle (segments path).reverse).head?

def fileName? (path : String) : Option String :=
  (lastSegment? path).filter fun s => s != "" && s != "." && s != ".."

/-- A name before and after its last dot, unless that comes first. -/
def splitName (name : String) : String × Option String :=
  let cs := name.toList.reverse
  let after := cs.takeWhile (· ≠ '.')
  match cs.dropWhile (· ≠ '.') with
  | _ :: before =>
    if before.isEmpty then (name, none)
    else (String.ofList before.reverse, some (String.ofList after.reverse))
  | [] => (name, none)

def extension? (path : String) : Option String := do (splitName (← fileName? path)).2

def stem? (path : String) : Option String := do return (splitName (← fileName? path)).1

/-- The directory that holds what the path names; empty where there is none. -/
def parent (path : String) : String :=
  match dropIdle (segments path).reverse with
  | [] | [_] => ""
  | _ :: rest =>
    let above := "/".intercalate (dropIdle rest).reverse
    if above.isEmpty && isAbsolute path then "/" else above

def join (directory path : String) : String :=
  if isAbsolute path then path
  else if directory.isEmpty then path
  else if directory.toList.getLast? = some '/' then directory ++ path
  else directory ++ "/" ++ path

end ActionCatalogue.FilePath
