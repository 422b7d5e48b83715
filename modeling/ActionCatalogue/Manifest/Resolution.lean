import ActionCatalogue.Manifest.Expansion

/-!
The expansion of a text as a resolver with a state goes about it. The variables that are being
expanded stand on one stack: a name is pushed once its value has been found, and is popped when the
value has been expanded, to a text or to an error. After an error the remaining references of a text
are passed over. A resolution may go on for ever; what it does is what its substitutions do that are
nested no deeper than any given number.
-/

namespace ActionCatalogue.Expansion

structure Resolver where
  /-- The variables that are being expanded, the innermost first. -/
  stack : List String := []
  /-- What the stack has been, after each push and each pop. -/
  history : List (List String) := []
deriving DecidableEq, Repr

namespace Resolver

def push (name : String) (s : Resolver) : Resolver :=
  ⟨name :: s.stack, s.history ++ [name :: s.stack]⟩

def pop (s : Resolver) : Resolver :=
  ⟨s.stack.tail, s.history ++ [s.stack.tail]⟩

end Resolver

/-- A computation of a resolver, which is stopped if it goes too deep. -/
abbrev Resolution := StateT Resolver Option

namespace Resolution

abbrev Outcome := Except ExpansionError String

def tooDeep : Resolution Outcome := fun _ => none

variable (r : Rules) (env : Environment)

/-! In what follows `deeper` is the substitution one level deeper. -/

variable (deeper : String → Resolution Outcome)

/-- Expands the value of a variable, whose name is on the stack meanwhile. -/
def reference (name : String) (default : Option String) : Resolution Outcome := do
  match lookup r env (← get).stack name default with
  | .error e => return .error e
  | .ok value =>
    modify (Resolver.push name)
    let outcome ← deeper value
    modify Resolver.pop
    return outcome

/-- Puts the parts of a text behind one another, the references among them expanded; once one of
them has failed, the others are not looked at. -/
def replaceAll (output : String) (failure : Option ExpansionError) :
    List Part → Resolution Outcome
  | [] => return match failure with
    | some e => .error e
    | none => .ok output
  | .char c :: rest => replaceAll (output.push c) failure rest
  | .reference name default :: rest => do
    if failure.isSome then replaceAll output failure rest
    else match ← reference r env deeper name default with
      | .ok text => replaceAll (output ++ text) none rest
      | .error e => replaceAll output (some e) rest

def substitute (text : String) : Resolution Outcome := do
  if !mayRefer text.toList then return .ok text
  else if r.maxDepth ≤ (← get).stack.length then return .error (.depthExceeded r.maxDepth)
  else replaceAll r env deeper "" none (parts text.toList)

theorem run_reference (name : String) (default : Option String) (s : Resolver) :
    (reference r env deeper name default).run s =
      match lookup r env s.stack name default with
      | .error e => some (.error e, s)
      | .ok value =>
        ((deeper value).run (s.push name)).map fun after => (after.1, after.2.pop) := by
  change StateT.run (match lookup r env s.stack name default with
    | .error e => (return .error e : Resolution Outcome)
    | .ok value => do
      modify (Resolver.push name)
      let outcome ← deeper value
      modify Resolver.pop
      return outcome) s = _
  cases lookup r env s.stack name default with
  | error e => rfl
  | ok value =>
    change ((deeper value).run (s.push name)).bind (fun after => some (after.1, after.2.pop)) = _
    exact Option.map_eq_bind.symm

theorem run_substitute (text : String) (s : Resolver) :
    (substitute r env deeper text).run s =
      if mayRefer text.toList = false then some (.ok text, s)
      else if r.maxDepth ≤ s.stack.length then some (.error (.depthExceeded r.maxDepth), s)
      else (replaceAll r env deeper "" none (parts text.toList)).run s := by
  unfold substitute
  cases mayRefer text.toList with
  | false => rfl
  | true =>
    change StateT.run (if r.maxDepth ≤ s.stack.length then
      (return .error (.depthExceeded r.maxDepth) : Resolution Outcome)
      else replaceAll r env deeper "" none (parts text.toList)) s = _
    by_cases full : r.maxDepth ≤ s.stack.length
    · simp only [if_pos full, Bool.true_eq_false, if_false]
      rfl
    · simp only [if_neg full, Bool.true_eq_false, if_false]

end Resolution

/-- The resolution of a text, as far as its substitutions are nested no deeper than `depth`. -/
def resolve (r : Rules) (env : Environment) : Nat → String → Resolution Resolution.Outcome
  | 0, _ => Resolution.tooDeep
  | depth + 1, text => Resolution.substitute r env (resolve r env depth) text

end ActionCatalogue.Expansion
