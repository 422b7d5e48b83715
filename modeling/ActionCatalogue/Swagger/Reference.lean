import ActionCatalogue.Swagger.Document
import ActionCatalogue.Swagger.Error

/-!
References inside a document. A pointer is `#/`, a section, a slash and a name without slashes; in
the name `~1` stands for a slash and `~0` for a tilde, the slashes being put back first. Every
other reference is refused.
-/

namespace ActionCatalogue.Swagger

namespace Pointer

/-- Puts a character back for the two that stand for it, a tilde and a digit. -/
def restore (digit meant : Char) : List Char → List Char
  | a :: b :: rest =>
    if a = '~' ∧ b = digit then meant :: restore digit meant rest
    else a :: restore digit meant (b :: rest)
  | cs => cs

def unescape (name : List Char) : List Char :=
  restore '0' '~' (restore '1' '/' name)

def splitAtSlash (cs : List Char) : List Char × Option (List Char) :=
  match cs with
  | [] => ([], none)
  | c :: rest =>
    if c = '/' then ([], some rest)
    else (c :: (splitAtSlash rest).1, (splitAtSlash rest).2)

def nameIn (sectionName reference : String) : Except SwaggerError String :=
  match reference.toList with
  | '#' :: '/' :: pointer =>
    let (found, name) := splitAtSlash pointer
    if found ≠ sectionName.toList then
      .error (.unresolved s!"reference '{reference}' points outside '#/{sectionName}'")
    else
      match name with
      | some (c :: cs) =>
        if '/' ∈ c :: cs then .error (.unresolved s!"unsupported reference pointer '{reference}'")
        else .ok (String.ofList (unescape (c :: cs)))
      | _ => .error (.unresolved s!"unsupported reference pointer '{reference}'")
  | _ => .error (.unresolved s!"external reference '{reference}' is not supported")

end Pointer

namespace Document

/-- What a reference points to among the entries of a section, and its name there. -/
def lookupIn {α : Type} (sectionName : String) (entries : Entries α) (reference : String) :
    Except SwaggerError (String × α) :=
  match Pointer.nameIn sectionName reference with
  | .error e => .error e
  | .ok name =>
    match Entries.lookup name entries with
    | some a => .ok (name, a)
    | none => .error (.unresolved s!"unresolved reference '{reference}'")

def definition (d : Document) (reference : String) : Except SwaggerError (String × Schema) :=
  lookupIn "definitions" d.definitions reference

/-- The thing itself, where it stands or where its pointer leads. -/
def resolve {α : Type} (sectionName : String) (entries : Entries α) :
    Shared α → Except SwaggerError α
  | .inline a => .ok a
  | .pointer reference =>
    match lookupIn sectionName entries reference with
    | .ok (_, a) => .ok a
    | .error e => .error e

def parameter (d : Document) (p : Shared Parameter) : Except SwaggerError Parameter :=
  resolve "parameters" d.parameters p

def response (d : Document) (r : Shared Response) : Except SwaggerError Response :=
  resolve "responses" d.responses r

theorem mem_definitions {d : Document} {reference name : String} {s : Schema}
    (resolved : d.definition reference = .ok (name, s)) : (name, s) ∈ d.definitions := by
  unfold definition lookupIn at resolved
  split at resolved
  · cases resolved
  · split at resolved
    · rename_i found
      cases resolved
      exact Entries.mem_of_lookup found
    · cases resolved

theorem mem_keys_of_definition {d : Document} {reference name : String} {s : Schema}
    (resolved : d.definition reference = .ok (name, s)) : name ∈ Entries.keys d.definitions :=
  List.mem_map_of_mem (mem_definitions resolved)

end Document

end ActionCatalogue.Swagger
