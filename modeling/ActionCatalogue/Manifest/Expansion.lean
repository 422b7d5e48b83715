import ActionCatalogue.Json.Value
import ActionCatalogue.Text.Ascii
import ActionCatalogue.Text.Quoted

/-!
References to variables of the environment inside texts: a dollar sign and in braces the name of a
variable, with a default after a colon at will. Only variables with an allowed prefix may be read.
What a variable holds may refer to further variables, to a depth that is limited, and never to one
that is being expanded; what has been put in is not looked at again from outside.
-/

namespace ActionCatalogue

open Json

abbrev Environment := String → Option String

inductive ExpansionError where
  | notFound (name : String)
  | notAllowed (name : String) (prefixes : List String)
  | recursive (name : String)
  | depthExceeded (limit : Nat)
deriving DecidableEq, Repr

def ExpansionError.message : ExpansionError → String
  | notFound name => s!"Environment variable '{name}' not found and no default provided"
  | notAllowed name prefixes =>
    let shown := Text.quotedList prefixes
    s!"Environment variable '{name}' is not in whitelist. Allowed prefixes: {shown}"
  | recursive name => s!"Recursive variable reference detected through '{name}'"
  | depthExceeded limit => s!"Maximum substitution depth {limit} exceeded"

namespace Expansion

structure Rules where
  /-- What the names of variables may start with; anything where there are none. -/
  prefixes : List String := ["CATALOGUE_", "APP_"]
  maxDepth : Nat := 10

namespace Rules

/-- The rules with one more prefix. Where every variable is allowed, nothing changes. -/
def allow (r : Rules) (start : String) : Rules :=
  if r.prefixes.isEmpty || r.prefixes.contains start then r
  else { r with prefixes := r.prefixes ++ [start] }

def allows (r : Rules) (name : String) : Bool :=
  r.prefixes.isEmpty || r.prefixes.any fun start => start.toList.isPrefixOf name.toList

end Rules

inductive Part where
  | char (c : Char)
  | reference (name : String) (default : Option String)
deriving DecidableEq, Repr

def reference? : List Char → Option (String × Option String × List Char)
  | '$' :: '\x7b' :: c :: rest =>
    if Ascii.isNameStart c then
      let name := String.ofList (c :: rest.takeWhile Ascii.isNameChar)
      match rest.dropWhile Ascii.isNameChar with
      | '\x7d' :: after => some (name, none, after)
      | ':' :: more =>
        match more.dropWhile (· ≠ '\x7d') with
        | _ :: after => some (name, some (String.ofList (more.takeWhile (· ≠ '\x7d'))), after)
        | [] => none
      | _ => none
    else none
  | _ => none

theorem length_reference? {cs after : List Char} {name : String} {default : Option String}
    (h : reference? cs = some (name, default, after)) : after.length < cs.length := by
  unfold reference? at h
  split at h
  · rename_i c rest
    split at h
    · have h1 := (List.dropWhile_sublist (l := rest) Ascii.isNameChar).length_le
      simp only at h
      split at h
      · rename_i tail ht
        simp only [Option.some.injEq, Prod.mk.injEq] at h
        rw [ht] at h1
        simp only [List.length_cons] at h1 ⊢
        rw [← h.2.2]
        omega
      · rename_i more hm
        have h2 := (List.dropWhile_sublist (l := more) (· ≠ '\x7d')).length_le
        split at h
        · rename_i tail ht
          simp only [Option.some.injEq, Prod.mk.injEq] at h
          rw [hm] at h1
          rw [ht] at h2
          simp only [List.length_cons] at h1 h2 ⊢
          rw [← h.2.2]
          omega
        · cases h
      · cases h
    · cases h
  · cases h

/-- The parts of a text. The leftmost reference is taken first, and references do not overlap. -/
def parts (cs : List Char) : List Part :=
  match _h : reference? cs with
  | some (name, default, after) => .reference name default :: parts after
  | none => match cs with
    | [] => []
    | c :: rest => .char c :: parts rest
termination_by cs.length
decreasing_by
  · exact length_reference? ‹_›
  · simp

def mayRefer : List Char → Bool
  | '$' :: '\x7b' :: _ => true
  | _ :: rest => mayRefer rest
  | [] => false

def variablesIn (text : String) : List String :=
  (parts text.toList).filterMap fun part => match part with
    | .char _ => none
    | .reference name _ => some name

/-- What a variable holds, or its default; `active` are the variables that are being expanded. -/
def lookup (r : Rules) (env : Environment) (active : List String) (name : String)
    (default : Option String) : Except ExpansionError String :=
  if !r.allows name then .error (.notAllowed name r.prefixes)
  else if active.contains name then .error (.recursive name)
  else match (env name).orElse fun _ => default with
    | some value => .ok value
    | none => .error (.notFound name)

/-- Expands a text by references that may nest as deep as there is room. -/
def expandIn (r : Rules) (env : Environment) :
    Nat → List String → String → Except ExpansionError String
  | 0, _, text =>
    if mayRefer text.toList then .error (.depthExceeded r.maxDepth) else .ok text
  | room + 1, active, text => do
    let texts ← (parts text.toList).mapM fun part => match part with
      | .char c => .ok (String.ofList [c])
      | .reference name default => do
        expandIn r env room (name :: active) (← lookup r env active name default)
    return String.join texts

def expand (r : Rules) (env : Environment) (text : String) : Except ExpansionError String :=
  expandIn r env r.maxDepth [] text

mutual

/-- Expands every text of a value; keys and all other values stay as they are. -/
def expandValue (r : Rules) (env : Environment) : Value → Except ExpansionError Value
  | .text s => do return .text (← expand r env s)
  | .list items => do return .list (← expandItems r env items)
  | .object entries => do return .object (← expandEntries r env entries)
  | v => .ok v

def expandItems (r : Rules) (env : Environment) : List Value → Except ExpansionError (List Value)
  | [] => .ok []
  | v :: rest => do return (← expandValue r env v) :: (← expandItems r env rest)

def expandEntries (r : Rules) (env : Environment) :
    List (String × Value) → Except ExpansionError (List (String × Value))
  | [] => .ok []
  | (k, v) :: rest => do return (k, ← expandValue r env v) :: (← expandEntries r env rest)

end

end Expansion

end ActionCatalogue
