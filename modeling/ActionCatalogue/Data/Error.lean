/-!
What can be wrong with the catalogue's data, and how a value that cannot be read is refused. A
refusal gives its reason only where a rule of the catalogue is broken; a value of the wrong shape
has none.
-/

namespace ActionCatalogue

inductive DataError where
  /-- A type name outside the vocabulary, and the path of the field that has it. -/
  | unknownType (name path : String)
  | invalidType (path reason : String)
  | unresolved (reason : String)
  | notFound (what : String)
  | conflict (what : String)
  | invalid (reason : String)
  | unreadable (reason : String)
deriving DecidableEq, Repr

namespace DataError

def message : DataError → String
  | unknownType name path => s!"unknown type '{name}' at '{path}'"
  | invalidType path reason => s!"invalid type description at '{path}': {reason}"
  | unresolved reason => s!"schema resolution failed: {reason}"
  | notFound what => s!"not found: {what}"
  | conflict what => s!"conflict: {what}"
  | invalid reason => s!"invalid: {reason}"
  | unreadable reason => s!"serde error: {reason}"

end DataError

inductive Refusal where
  /-- It has another shape, or is no document at all. -/
  | misshapen
  | rule (error : DataError)
deriving DecidableEq, Repr

namespace Refusal

def message : Refusal → String
  | misshapen => "value does not have the expected shape"
  | rule error => error.message

def toDataError (r : Refusal) : DataError := .unreadable r.message

end Refusal

abbrev Reading := Except Refusal

/-- A sequence of two steps succeeds only through a success of the first. -/
theorem exists_of_bind_eq_ok {ε α β : Type} {first : Except ε α} {next : α → Except ε β} {b : β}
    (h : (first >>= next) = .ok b) : ∃ a, first = .ok a ∧ next a = .ok b := by
  cases first with
  | error e => cases h
  | ok a => exact ⟨a, rfl, h⟩

end ActionCatalogue
