import ActionCatalogue.Manifest.Expansion
import ActionCatalogue.Proofs.Passes

/-!
The expansion of a value is that of its texts. They are expanded one after the other in the order in
which they stand in the document, up to the first that cannot be; each result takes the place of its
text, and everything around the texts stays as it is, so variables cannot change what a value is
made of.
-/

namespace ActionCatalogue

namespace Json.Value

mutual

/-- The texts of a value in their order, keys aside. -/
def leaves : Value → List String
  | .text s => [s]
  | .list items => leavesOfItems items
  | .object entries => leavesOfEntries entries
  | _ => []

def leavesOfItems : List Value → List String
  | [] => []
  | v :: rest => leaves v ++ leavesOfItems rest

def leavesOfEntries : List (String × Value) → List String
  | [] => []
  | (_, v) :: rest => leaves v ++ leavesOfEntries rest

end

mutual

def mapLeaves (f : String → String) : Value → Value
  | .text s => .text (f s)
  | .list items => .list (mapItems f items)
  | .object entries => .object (mapEntries f entries)
  | v => v

def mapItems (f : String → String) : List Value → List Value
  | [] => []
  | v :: rest => mapLeaves f v :: mapItems f rest

def mapEntries (f : String → String) : List (String × Value) → List (String × Value)
  | [] => []
  | (k, v) :: rest => (k, mapLeaves f v) :: mapEntries f rest

end

/-- Values that differ in their texts alone: items and entries correspond one to one, with the same
keys in the same order. -/
inductive SameShape : Value → Value → Prop
  | null : SameShape .null .null
  | bool (b : Bool) : SameShape (.bool b) (.bool b)
  | number (n : Number) : SameShape (.number n) (.number n)
  | text (s t : String) : SameShape (.text s) (.text t)
  | list {items others : List Value} (each : List.Forall₂ SameShape items others) :
      SameShape (.list items) (.list others)
  | object {entries others : List (String × Value)}
      (keys : Entries.keys entries = Entries.keys others)
      (each : List.Forall₂ SameShape (Entries.values entries) (Entries.values others)) :
      SameShape (.object entries) (.object others)

theorem keys_mapEntries (f : String → String) (entries : List (String × Value)) :
    Entries.keys (mapEntries f entries) = Entries.keys entries := by
  induction entries with
  | nil => rfl
  | cons entry rest ih => exact congrArg (entry.1 :: ·) ih

mutual

theorem sameShape_mapLeaves (f : String → String) : (v : Value) → SameShape v (mapLeaves f v)
  | .null => .null
  | .bool b => .bool b
  | .number n => .number n
  | .text s => .text s (f s)
  | .list items => .list (sameItems_mapItems f items)
  | .object entries =>
    .object (keys_mapEntries f entries).symm (sameValues_mapEntries f entries)

theorem sameItems_mapItems (f : String → String) :
    (items : List Value) → List.Forall₂ SameShape items (mapItems f items)
  | [] => .nil
  | v :: rest => .cons (sameShape_mapLeaves f v) (sameItems_mapItems f rest)

theorem sameValues_mapEntries (f : String → String) :
    (entries : List (String × Value)) →
      List.Forall₂ SameShape (Entries.values entries) (Entries.values (mapEntries f entries))
  | [] => .nil
  | (_, v) :: rest => .cons (sameShape_mapLeaves f v) (sameValues_mapEntries f rest)

end

end Json.Value

namespace Expansion

open Json

variable {r : Rules} {env : Environment}

/-- The expansion of a text, if it has one. -/
def expanded (r : Rules) (env : Environment) (text : String) : String :=
  (expand r env text).toOption.getD text

theorem expand_expanded {text : String} (expands : ∃ out, expand r env text = .ok out) :
    expand r env text = .ok (expanded r env text) := by
  obtain ⟨out, success⟩ := expands
  rw [expanded, success]
  rfl

/-- Two passes one after the other, of which only their success matters. -/
theorem mapM_then {ε α β γ δ ζ : Type} (f : α → Except ε β) (first second : List α) (a : γ) (b : δ)
    (both : γ → δ → ζ) :
    (do return both (← (fun _ => a) <$> first.mapM f) (← (fun _ => b) <$> second.mapM f)) =
      (fun _ => both a b) <$> (first ++ second).mapM f := by
  rw [List.mapM_append]
  cases first.mapM f with
  | error e => rfl
  | ok results => cases second.mapM f <;> rfl

theorem expandValue_text (s : String) :
    expandValue r env (.text s) =
      (fun _ => .text (expanded r env s)) <$> [s].mapM (expand r env) := by
  rw [expandValue, List.mapM_cons, List.mapM_nil, expanded]
  cases expand r env s <;> rfl

mutual

theorem expandValue_eq : (v : Value) → expandValue r env v =
    (fun _ => v.mapLeaves (expanded r env)) <$> v.leaves.mapM (expand r env)
  | .null => rfl
  | .bool _ => rfl
  | .number _ => rfl
  | .text s => expandValue_text s
  | .list items => by
    rw [expandValue, expandItems_eq items, Value.leaves, Value.mapLeaves]
    cases (Value.leavesOfItems items).mapM (expand r env) <;> rfl
  | .object entries => by
    rw [expandValue, expandEntries_eq entries, Value.leaves, Value.mapLeaves]
    cases (Value.leavesOfEntries entries).mapM (expand r env) <;> rfl

theorem expandItems_eq : (items : List Value) → expandItems r env items =
    (fun _ => Value.mapItems (expanded r env) items) <$>
      (Value.leavesOfItems items).mapM (expand r env)
  | [] => rfl
  | v :: rest => by
    rw [expandItems, expandValue_eq v, expandItems_eq rest, mapM_then, Value.leavesOfItems,
      Value.mapItems]

theorem expandEntries_eq : (entries : List (String × Value)) → expandEntries r env entries =
    (fun _ => Value.mapEntries (expanded r env) entries) <$>
      (Value.leavesOfEntries entries).mapM (expand r env)
  | [] => rfl
  | (k, v) :: rest => by
    rw [expandEntries, expandValue_eq v, expandEntries_eq rest,
      mapM_then _ _ _ _ _ fun value others => (k, value) :: others, Value.leavesOfEntries,
      Value.mapEntries]

end

theorem expandValue_eq_ok_iff {v out : Value} :
    expandValue r env v = .ok out ↔
      (∀ s ∈ v.leaves, ∃ t, expand r env s = .ok t) ∧ out = v.mapLeaves (expanded r env) := by
  rw [expandValue_eq, ← Pass.mapM_succeeds_iff]
  cases v.leaves.mapM (expand r env) with
  | error e => simp
  | ok results =>
    simp only [Except.map_ok, Except.ok.injEq, exists_eq', true_and]
    exact eq_comm

theorem expandValue_eq_error_iff {v : Value} {e : ExpansionError} :
    expandValue r env v = .error e ↔ v.leaves.mapM (expand r env) = .error e := by
  rw [expandValue_eq]
  cases v.leaves.mapM (expand r env) with
  | error own => simp
  | ok results => simp

/-- A value can be expanded exactly if its texts can. Each of them is then replaced by its own
expansion, a text again, and nothing else has changed; otherwise the error is that of the first text
that cannot be expanded. -/
theorem expansion_keeps_structure (r : Rules) (env : Environment) (v : Value) :
    ((∃ out, expandValue r env v = .ok out) ↔ ∀ s ∈ v.leaves, ∃ t, expand r env s = .ok t) ∧
    (∀ out, expandValue r env v = .ok out → v.SameShape out ∧
      ∃ f : String → String, (∀ s ∈ v.leaves, expand r env s = .ok (f s)) ∧
        out = v.mapLeaves f) ∧
    (∀ e, expandValue r env v = .error e ↔
      ∃ earlier s later, v.leaves = earlier ++ s :: later ∧
        (∀ other ∈ earlier, ∃ t, expand r env other = .ok t) ∧ expand r env s = .error e) := by
  refine ⟨?_, fun out success => ?_, fun e => ?_⟩
  · simp only [expandValue_eq_ok_iff, exists_and_left, exists_eq, and_true]
  · obtain ⟨each, rfl⟩ := expandValue_eq_ok_iff.mp success
    exact ⟨Value.sameShape_mapLeaves _ v, expanded r env,
      fun s leaf => expand_expanded (each s leaf), rfl⟩
  · rw [expandValue_eq_error_iff, Pass.mapM_eq_error_iff]

end Expansion

end ActionCatalogue
