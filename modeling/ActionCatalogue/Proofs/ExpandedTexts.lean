import ActionCatalogue.Proofs.Passes
import ActionCatalogue.Proofs.References

/-!
What the expansion of a text is, and why there may be none. Where it ends, every reference has been
replaced by the expansion of its value, and all other characters stand as they did; there is only
one such text. Otherwise the error names a reference that the text leads to, through values that
refer to one another, and says what is wrong with it.
-/

namespace ActionCatalogue.Expansion

variable {r : Rules} {env : Environment}

/-- What a reference stands for: what the variable holds, else the default. -/
def valueAt (env : Environment) (name : String) (default : Option String) : Option String :=
  (env name).or default

/-! ### Expanded texts -/

/-- A text with all its references replaced, those in the values that are put in as well. -/
inductive Expands (env : Environment) : List Char → List Char → Prop
  | done : Expands env [] []
  | keep {c : Char} {rest out : List Char} (plain : ¬Begins (c :: rest))
      (later : Expands env rest out) : Expands env (c :: rest) (c :: out)
  | replace {name value : String} {default : Option String} {after inner out : List Char}
      (reference : IsReference name default) (holds : valueAt env name default = some value)
      (expansion : Expands env value.toList inner) (later : Expands env after out) :
      Expands env (written name default ++ after) (inner ++ out)

namespace Expands

variable {cs rest after out other : List Char} {c : Char} {name : String} {default : Option String}

theorem of_nil (expands : Expands env [] out) : out = [] := by
  generalize empty : [] = cs at expands
  cases expands with
  | done => rfl
  | keep => cases empty
  | replace => cases empty

theorem of_keep (plain : ¬Begins (c :: rest)) (expands : Expands env (c :: rest) out) :
    ∃ later, out = c :: later ∧ Expands env rest later := by
  generalize text : c :: rest = cs at expands
  cases expands with
  | done => cases text
  | keep _ later =>
    cases text
    exact ⟨_, rfl, later⟩
  | replace reference =>
    rw [text] at plain
    exact absurd ⟨_, _, _, reference, rfl⟩ plain

theorem of_replace (reference : IsReference name default)
    (expands : Expands env (written name default ++ after) out) :
    ∃ value inner later, valueAt env name default = some value ∧
      Expands env value.toList inner ∧ Expands env after later ∧ out = inner ++ later := by
  -- the text is read once more, as only one reference can begin there
  have found := reference?_written reference after
  generalize written name default ++ after = cs at found expands
  cases expands with
  | done => cases found
  | keep plain => exact absurd found (by simp [reference?_eq_none_iff.mpr plain])
  | replace own holds expansion later =>
    rw [reference?_written own] at found
    cases found
    exact ⟨_, _, _, holds, expansion, later, rfl⟩

theorem unique (expands : Expands env cs out) (again : Expands env cs other) : other = out := by
  induction expands generalizing other with
  | done => exact again.of_nil
  | keep plain _ ih =>
    obtain ⟨later, rfl, expands⟩ := again.of_keep plain
    rw [ih expands]
  | replace reference holds _ _ ihInner ihLater =>
    obtain ⟨value, inner, later, same, expansion, expands, rfl⟩ := again.of_replace reference
    rw [holds, Option.some.injEq] at same
    subst same
    rw [ihInner expansion, ihLater expands]

theorem of_plain (plain : Plain cs) : Expands env cs cs := by
  induction cs with
  | nil => exact .done
  | cons c rest ih =>
    obtain ⟨here, later⟩ := plain_cons_iff.mp plain
    exact .keep here (ih later)

end Expands

/-! ### One level of an expansion -/

section Level

variable {room : Nat} {active : List String} {name value : String} {default : Option String}
  {text out : String} {e : ExpansionError} {c : Char} {cs rest : List Char}

theorem lookup_eq_ok_iff :
    lookup r env active name default = .ok value ↔
      r.allows name = true ∧ name ∉ active ∧ valueAt env name default = some value := by
  unfold lookup valueAt
  cases allowed : r.allows name with
  | false => simp
  | true =>
    by_cases expanding : name ∈ active
    · simp [expanding]
    · cases env name <;> cases default <;> simp [expanding]

/-- Why a lookup fails: the name may not be read, or is being expanded, or stands for nothing. -/
theorem lookup_fails (failure : lookup r env active name default = .error e) :
    (e = .notAllowed name r.prefixes ∧ r.allows name = false) ∨
      (e = .recursive name ∧ name ∈ active) ∨
      (e = .notFound name ∧ r.allows name = true ∧ valueAt env name default = none) := by
  unfold lookup at failure
  unfold valueAt
  cases allowed : r.allows name with
  | false =>
    simp only [allowed, Bool.not_false, if_true] at failure
    cases failure
    exact .inl ⟨rfl, rfl⟩
  | true =>
    simp only [allowed, Bool.not_true, Bool.false_eq_true, if_false] at failure
    by_cases expanding : name ∈ active
    · rw [if_pos (by simpa using expanding)] at failure
      cases failure
      exact .inr (.inl ⟨rfl, expanding⟩)
    · rw [if_neg (by simpa using expanding)] at failure
      cases held : env name <;> cases default <;> simp [held] at failure
      exact .inr (.inr ⟨failure.symm, rfl, rfl⟩)

def expandPart (r : Rules) (env : Environment) (room : Nat) (active : List String) :
    Part → Except ExpansionError String
  | .char c => .ok (String.ofList [c])
  | .reference name default => do
    expandIn r env room (name :: active) (← lookup r env active name default)

def expandParts (r : Rules) (env : Environment) (room : Nat) (active : List String)
    (cs : List Char) : Except ExpansionError String :=
  String.join <$> (parts cs).mapM (expandPart r env room active)

theorem expandIn_zero :
    expandIn r env 0 active text =
      if mayRefer text.toList then .error (.depthExceeded r.maxDepth) else .ok text :=
  rfl

theorem expandIn_succ :
    expandIn r env (room + 1) active text = expandParts r env room active text.toList := by
  rw [expandIn, expandParts, ← bind_pure_comp]
  rfl

theorem expandParts_nil : expandParts r env room active [] = .ok "" := by
  rw [expandParts, parts_nil]
  rfl

theorem expandParts_keep (plain : ¬Begins (c :: rest)) :
    expandParts r env room active (c :: rest) =
      (String.ofList [c] ++ ·) <$> expandParts r env room active rest := by
  simp only [expandParts, parts_keep plain, List.mapM_cons, expandPart]
  cases (parts rest).mapM (expandPart r env room active) with
  | error e => rfl
  | ok texts => exact congrArg Except.ok String.join_cons

theorem expandParts_of_plain (plain : Plain cs) :
    expandParts r env room active cs = .ok (String.ofList cs) := by
  induction cs with
  | nil => exact expandParts_nil
  | cons c rest ih =>
    obtain ⟨here, later⟩ := plain_cons_iff.mp plain
    rw [expandParts_keep here, ih later]
    have joined : String.ofList [c] ++ String.ofList rest = String.ofList (c :: rest) := by
      rw [← String.ofList_append, List.singleton_append]
    exact congrArg Except.ok joined

theorem expandIn_of_not_mayRefer (never : mayRefer text.toList = false) :
    expandIn r env room active text = .ok text := by
  cases room with
  | zero => simp [expandIn_zero, never]
  | succ room =>
    rw [expandIn_succ, expandParts_of_plain (plain_of_not_mayRefer never), String.ofList_toList]

theorem expandParts_written (reference : IsReference name default) (after : List Char) :
    expandParts r env room active (written name default ++ after) = (do
      let inner ← expandPart r env room active (.reference name default)
      let later ← expandParts r env room active after
      return inner ++ later) := by
  simp only [expandParts, parts_written reference, List.mapM_cons]
  cases expandPart r env room active (.reference name default) with
  | error e => rfl
  | ok inner =>
    cases (parts after).mapM (expandPart r env room active) with
    | error e => rfl
    | ok texts => exact congrArg Except.ok String.join_cons

theorem expandPart_reference_eq_ok_iff :
    expandPart r env room active (.reference name default) = .ok out ↔
      r.allows name = true ∧ name ∉ active ∧ ∃ value, valueAt env name default = some value ∧
        expandIn r env room (name :: active) value = .ok out := by
  rw [expandPart]
  constructor
  · intro success
    obtain ⟨value, found, expanded⟩ := exists_of_bind_eq_ok success
    obtain ⟨allowed, fresh, holds⟩ := lookup_eq_ok_iff.mp found
    exact ⟨allowed, fresh, value, holds, expanded⟩
  · rintro ⟨allowed, fresh, value, holds, expanded⟩
    rw [lookup_eq_ok_iff.mpr ⟨allowed, fresh, holds⟩]
    exact expanded

/-- A reference that cannot be expanded cannot be looked up or has a value that cannot be. -/
theorem expandPart_reference_fails
    (failure : expandPart r env room active (.reference name default) = .error e) :
    lookup r env active name default = .error e ∨
      ∃ value, lookup r env active name default = .ok value ∧
        expandIn r env room (name :: active) value = .error e := by
  rw [expandPart] at failure
  cases found : lookup r env active name default with
  | error own =>
    rw [found] at failure
    exact .inl failure
  | ok value =>
    rw [found] at failure
    exact .inr ⟨value, rfl, failure⟩

theorem expandPart_succeeds {part : Part} (success : expandParts r env room active cs = .ok out)
    (member : part ∈ parts cs) : ∃ text, expandPart r env room active part = .ok text := by
  unfold expandParts at success
  cases passed : (parts cs).mapM (expandPart r env room active) with
  | error e =>
    rw [passed] at success
    cases success
  | ok texts => exact Pass.mapM_succeeds_iff.mp ⟨texts, passed⟩ part member

/-- In an expansion that ends, every reference has been looked up and there was room for it. -/
theorem expandIn_refers (success : expandIn r env room active text = .ok out)
    (refers : Part.reference name default ∈ parts text.toList) :
    ∃ less, room = less + 1 ∧ r.allows name = true ∧ name ∉ active ∧ ∃ value inner,
      valueAt env name default = some value ∧
        expandIn r env less (name :: active) value = .ok inner := by
  cases room with
  | zero =>
    rw [expandIn_zero, mayRefer_of_mem_parts refers] at success
    cases success
  | succ less =>
    rw [expandIn_succ] at success
    obtain ⟨inner, expanded⟩ := expandPart_succeeds success refers
    obtain ⟨allowed, fresh, value, holds, expanded⟩ := expandPart_reference_eq_ok_iff.mp expanded
    exact ⟨less, rfl, allowed, fresh, value, inner, holds, expanded⟩

/-- The parts fail as one of their references does. -/
theorem expandParts_fails (failure : expandParts r env room active cs = .error e) :
    ∃ name default, Part.reference name default ∈ parts cs ∧
      expandPart r env room active (.reference name default) = .error e := by
  unfold expandParts at failure
  cases passed : (parts cs).mapM (expandPart r env room active) with
  | ok texts =>
    rw [passed] at failure
    cases failure
  | error own =>
    rw [passed] at failure
    cases failure
    obtain ⟨earlier, part, later, split, -, fails⟩ := Pass.mapM_eq_error_iff.mp passed
    cases part with
    | char c => cases fails
    | reference name default => exact ⟨name, default, by simp [split], fails⟩

end Level

theorem expands_of_expandParts {room : Nat} {active : List String}
    (deeper : ∀ active text out, expandIn r env room active text = .ok out →
      Expands env text.toList out.toList)
    (cs : List Char) {out : String} (success : expandParts r env room active cs = .ok out) :
    Expands env cs out.toList := by
  induction cs using text_induction generalizing out with
  | done =>
    rw [expandParts_nil] at success
    cases success
    exact .done
  | keep c rest plain ih =>
    rw [expandParts_keep plain] at success
    cases followed : expandParts r env room active rest with
    | error e =>
      rw [followed] at success
      cases success
    | ok later =>
      rw [followed] at success
      cases success
      rw [String.toList_append, String.toList_ofList]
      exact .keep plain (ih followed)
  | replace name default after reference ih =>
    rw [expandParts_written reference] at success
    obtain ⟨inner, expanded, success⟩ := exists_of_bind_eq_ok success
    obtain ⟨later, followed, success⟩ := exists_of_bind_eq_ok success
    cases success
    obtain ⟨-, -, value, holds, expanded⟩ := expandPart_reference_eq_ok_iff.mp expanded
    rw [String.toList_append]
    exact .replace reference holds (deeper _ _ _ expanded) (ih followed)

theorem expands_of_expandIn {room : Nat} {active : List String} {text out : String}
    (success : expandIn r env room active text = .ok out) :
    Expands env text.toList out.toList := by
  induction room generalizing active text out with
  | zero =>
    rw [expandIn_zero] at success
    cases refers : mayRefer text.toList with
    | true => simp [refers] at success
    | false =>
      simp only [refers, Bool.false_eq_true, if_false, Except.ok.injEq] at success
      rw [← success]
      exact .of_plain (plain_of_not_mayRefer refers)
  | succ room ih =>
    rw [expandIn_succ] at success
    exact expands_of_expandParts (fun _ _ _ => ih) _ success

/-! ### What a text leads to -/

/-- Texts that stand for references, those of a text, of the values at them, and so on, each with
the variables it is reached through, the last one first. -/
inductive Reaches (r : Rules) (env : Environment) (text : String) : List String → String → Prop
  | here : Reaches r env text [] text
  | step {chain : List String} {t name value : String} {default : Option String}
      (before : Reaches r env text chain t) (refers : .reference name default ∈ parts t.toList)
      (allowed : r.allows name = true) (holds : valueAt env name default = some value) :
      Reaches r env text (name :: chain) value

/-- A text has a reference, itself or in one of the texts that it reaches. -/
def Leads (r : Rules) (env : Environment) (text name : String) (default : Option String) : Prop :=
  ∃ chain t, Reaches r env text chain t ∧ Part.reference name default ∈ parts t.toList

namespace Reaches

variable {text t name value : String} {default : Option String} {chain : List String}

theorem of_value (refers : Part.reference name default ∈ parts text.toList)
    (allowed : r.allows name = true) (holds : valueAt env name default = some value)
    (reached : Reaches r env value chain t) : Reaches r env text (chain ++ [name]) t := by
  induction reached with
  | here => exact .step .here refers allowed holds
  | step _ further allows own ih => exact .step ih further allows own

/-- A variable on the way to a text has been replaced by a value that reaches the text. -/
theorem through (reached : Reaches r env text chain t) (member : name ∈ chain) :
    ∃ outer u d value inner, Reaches r env text outer u ∧ Part.reference name d ∈ parts u.toList ∧
      valueAt env name d = some value ∧ Reaches r env value inner t := by
  induction reached with
  | here => cases member
  | step before refers allowed holds ih =>
    rcases List.mem_cons.mp member with rfl | earlier
    · exact ⟨_, _, _, _, [], before, refers, holds, .here⟩
    · obtain ⟨outer, u, d, value, inner, first, own, kept, rest⟩ := ih earlier
      exact ⟨outer, u, d, value, _, first, own, kept, .step rest refers allowed holds⟩

theorem exists_first (reached : Reaches r env text chain t)
    (refers : Part.reference name default ∈ parts t.toList) :
    ∃ first own, Part.reference first own ∈ parts text.toList := by
  induction reached generalizing name default with
  | here => exact ⟨name, default, refers⟩
  | step _ further _ _ ih => exact ih further

/-- From an expansion that ends, the texts on the way are expanded with as much less room as there
are variables on the way. -/
theorem expanded {room : Nat} {active : List String} {out : String}
    (reached : Reaches r env text chain t) (success : expandIn r env room active text = .ok out) :
    ∃ left inner, room = left + chain.length ∧
      expandIn r env left (chain ++ active) t = .ok inner := by
  induction reached with
  | here => exact ⟨room, out, rfl, success⟩
  | step _ refers _ holds ih =>
    obtain ⟨left, inner, total, expanded⟩ := ih
    obtain ⟨less, rfl, -, -, value, replacement, own, expanded⟩ := expandIn_refers expanded refers
    rw [holds, Option.some.injEq] at own
    subst own
    exact ⟨less, replacement, by rw [total, List.length_cons]; omega, expanded⟩

end Reaches

/-- A reference on the way back to its own variable stands for what the variable holds, because
nothing is reached from a default. -/
theorem Leads.held {name value t : String} {d default : Option String}
    (back : Leads r env value name default) (member : Part.reference name d ∈ parts t.toList)
    (holds : valueAt env name d = some value) : env name = some value := by
  obtain ⟨chain, u, reached, refers⟩ := back
  obtain ⟨first, own, among⟩ := reached.exists_first refers
  unfold valueAt at holds
  cases held : env name with
  | some text => simpa [held] using holds
  | none =>
    rw [held, Option.none_or] at holds
    rw [holds] at member
    have plain := (isReference_of_mem_parts member).plain_default
    exact absurd among (not_mem_parts_of_plain plain)

theorem Leads.of_value {text name value other : String} {default own : Option String}
    (refers : Part.reference name default ∈ parts text.toList) (allowed : r.allows name = true)
    (holds : valueAt env name default = some value) (leads : Leads r env value other own) :
    Leads r env text other own := by
  obtain ⟨chain, t, reached, among⟩ := leads
  exact ⟨_, t, reached.of_value refers allowed holds, among⟩

/-! ### Why there is no expansion -/

/-- What an error says about a text that is expanded with some room while variables are being
expanded around it. -/
inductive FailsIn (r : Rules) (env : Environment) (room : Nat) (active : List String)
    (text : String) : ExpansionError → Prop
  | notAllowed {name : String} {default : Option String} (leads : Leads r env text name default)
      (outside : r.allows name = false) :
      FailsIn r env room active text (.notAllowed name r.prefixes)
  | recursive {chain : List String} {t name : String} {default : Option String}
      (reached : Reaches r env text chain t) (refers : .reference name default ∈ parts t.toList)
      (again : name ∈ chain ++ active) : FailsIn r env room active text (.recursive name)
  | notFound {name : String} (leads : Leads r env text name none) (allowed : r.allows name = true)
      (unset : env name = none) : FailsIn r env room active text (.notFound name)
  | depthExceeded {chain : List String} {t : String} (reached : Reaches r env text chain t)
      (deep : chain.length = room) (refers : mayRefer t.toList = true) :
      FailsIn r env room active text (.depthExceeded r.maxDepth)

/-- An error in the value at a reference is an error of the text. -/
theorem FailsIn.of_value {room : Nat} {active : List String} {text name value : String}
    {default : Option String} {e : ExpansionError}
    (refers : Part.reference name default ∈ parts text.toList) (allowed : r.allows name = true)
    (holds : valueAt env name default = some value)
    (fails : FailsIn r env room (name :: active) value e) :
    FailsIn r env (room + 1) active text e := by
  cases fails with
  | notAllowed leads outside => exact .notAllowed (leads.of_value refers allowed holds) outside
  | recursive reached own again =>
    refine .recursive (reached.of_value refers allowed holds) own ?_
    rwa [List.append_assoc]
  | notFound leads own unset => exact .notFound (leads.of_value refers allowed holds) own unset
  | depthExceeded reached deep own =>
    refine .depthExceeded (reached.of_value refers allowed holds) ?_ own
    rw [List.length_append, deep, List.length_singleton]

theorem failsIn_of_error {room : Nat} {active : List String} {text : String} {e : ExpansionError}
    (failure : expandIn r env room active text = .error e) : FailsIn r env room active text e := by
  induction room generalizing active text with
  | zero =>
    rw [expandIn_zero] at failure
    cases refers : mayRefer text.toList with
    | false => simp [refers] at failure
    | true =>
      simp only [refers, if_true, Except.error.injEq] at failure
      subst failure
      exact .depthExceeded .here rfl refers
  | succ room ih =>
    rw [expandIn_succ] at failure
    obtain ⟨name, default, refers, fails⟩ := expandParts_fails failure
    have leads : Leads r env text name default := ⟨[], text, .here, refers⟩
    rcases expandPart_reference_fails fails with missing | ⟨value, found, fails⟩
    · rcases lookup_fails missing with ⟨rfl, outside⟩ | ⟨rfl, again⟩ | ⟨rfl, allowed, nothing⟩
      · exact .notAllowed leads outside
      · exact .recursive .here refers again
      · obtain ⟨unset, rfl⟩ := Option.or_eq_none_iff.mp nothing
        exact .notFound leads allowed unset
    · obtain ⟨allowed, -, holds⟩ := lookup_eq_ok_iff.mp found
      exact .of_value refers allowed holds (ih fails)

end ActionCatalogue.Expansion
