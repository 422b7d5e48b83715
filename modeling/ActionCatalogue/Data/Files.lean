import ActionCatalogue.Data.FilePath

/-!
Reading files. `Files` is what a program can find out: the text of a file, or why there is none.
`FileTree` is a directory with files below it, in which paths are followed segment by segment.
-/

namespace ActionCatalogue

inductive FileFault where
  | notFound
  | isDirectory
  | notDirectory
  | nameTooLong
  | other (text : String)
deriving DecidableEq, Repr

def FileFault.message : FileFault → String
  | notFound => "No such file or directory (os error 2)"
  | isDirectory => "Is a directory (os error 21)"
  | notDirectory => "Not a directory (os error 20)"
  | nameTooLong => "File name too long (os error 36)"
  | other text => text

abbrev Files := String → Except FileFault String

/-- Whether something stands at a path, be it a directory or a file that cannot be read. -/
def Files.exist (files : Files) (path : String) : Bool :=
  match files path with
  | .ok _ | .error .isDirectory | .error (.other _) => true
  | .error _ => false

/-- Files below a directory, under the segments of their paths. -/
abbrev FileTree := List (List String × String)

namespace FileTree

inductive Place where
  /-- The file or directory under some segments, last first. -/
  | inside (segments : List String)
  /-- A directory so many levels above the tree. -/
  | above (levels : Nat)

def isFile (tree : FileTree) (segments : List String) : Bool :=
  (tree.find? fun file => file.1 == segments).isSome

def isDirectory (tree : FileTree) (segments : List String) : Bool :=
  segments.isEmpty || tree.any fun file =>
    segments.isPrefixOf file.1 && segments.length < file.1.length

def follow (tree : FileTree) (place : Place) (segment : String) : Except FileFault Place :=
  match place with
  | .above levels =>
    if segment = "" ∨ segment = "." then .ok place
    else if segment = ".." then .ok (.above (levels + 1))
    else .error .notFound
  | .inside here =>
    if !tree.isDirectory here.reverse then .error .notDirectory
    else if segment = "" ∨ segment = "." then .ok place
    else if segment = ".." then
      match here with
      | [] => .ok (.above 1)
      | _ :: outer => .ok (.inside outer)
    else if 255 < segment.utf8ByteSize then .error .nameTooLong
    else
      let there := (segment :: here).reverse
      if tree.isFile there || tree.isDirectory there then .ok (.inside (segment :: here))
      else .error .notFound

def read (tree : FileTree) : Files := fun path => do
  if path.isEmpty then throw .notFound
  let start := if FilePath.isAbsolute path then Place.above 1 else .inside []
  match ← (FilePath.segments path).foldlM (follow tree) start with
  | .above _ => throw .isDirectory
  | .inside here =>
    match tree.find? fun file => file.1 == here.reverse with
    | some file => return file.2
    | none => throw .isDirectory

def ofFiles (files : List (String × String)) : FileTree :=
  files.map fun (path, text) =>
    ((FilePath.segments path).filter fun s => s != "" && s != ".", text)

end FileTree

end ActionCatalogue
