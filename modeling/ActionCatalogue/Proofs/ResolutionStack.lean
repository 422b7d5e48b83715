import ActionCatalogue.Manifest.Resolution
import ActionCatalogue.Proofs.ExpandedTexts

/-!
Resolutions end, whatever the variables refer to, and leave the stack as they found it. A reference
is looked up only while there is room on the stack and its variable is not there, so the stack never
holds a variable twice nor more variables than the depth that is allowed, and substitutions nest no
deeper. What a resolution ends with is the expansion of the text or the reason why it has none.
-/

namespace ActionCatalogue.Expansion

open Resolution (Outcome)

variable {r : Rules} {env : Environment} {base : List String}

/-- A stack that has grown from another one, without repetition and not beyond the depth. -/
structure Orderly (r : Rules) (base stack : List String) : Prop where
  distinct : stack.Nodup
  bounded : stack.length ≤ r.maxDepth
  grown : base <:+ stack

namespace Orderly

variable {name : String} {stack : List String}

theorem of_push (orderly : Orderly r (name :: base) stack) : Orderly r base stack :=
  ⟨orderly.distinct, orderly.bounded, (List.suffix_cons name base).trans orderly.grown⟩

theorem push (orderly : Orderly r stack base) (fresh : name ∉ base)
    (space : base.length < r.maxDepth) : Orderly r base (name :: base) :=
  ⟨List.nodup_cons.mpr ⟨fresh, orderly.distinct⟩, space, List.suffix_cons name base⟩

theorem refl (orderly : Orderly r stack base) : Orderly r base base :=
  ⟨orderly.distinct, orderly.bounded, List.suffix_refl base⟩

end Orderly

/-- A resolution that, begun on a stack, ends with an outcome and the same stack, all stacks on the
way having grown from it. -/
def Returns (r : Rules) (base : List String) (x : Resolution Outcome) (outcome : Outcome) : Prop :=
  ∀ history, ∃ since, x.run ⟨base, history⟩ = some (outcome, ⟨base, history ++ since⟩) ∧
    ∀ stack ∈ since, Orderly r base stack

namespace Returns

variable {deeper : String → Resolution Outcome} {name value : String} {default : Option String}
  {x : Resolution Outcome} {outcome : Outcome} {e : ExpansionError}

/-- A computation that leaves the resolver as it is. -/
theorem of_run (runs : ∀ history, x.run ⟨base, history⟩ = some (outcome, ⟨base, history⟩)) :
    Returns r base x outcome := by
  intro history
  exact ⟨[], by rw [runs, List.append_nil], nofun⟩

theorem missing (failure : lookup r env base name default = .error e) :
    Returns r base (Resolution.reference r env deeper name default) (.error e) := by
  refine of_run fun history => ?_
  rw [Resolution.run_reference, failure]

/-- The name of a variable is popped when its value has been expanded, whatever the outcome. -/
theorem found (holds : lookup r env base name default = .ok value) (orderly : Orderly r base base)
    (space : base.length < r.maxDepth) (inner : Returns r (name :: base) (deeper value) outcome) :
    Returns r base (Resolution.reference r env deeper name default) outcome := by
  intro history
  obtain ⟨since, ended, grown⟩ := inner (history ++ [name :: base])
  refine ⟨(name :: base) :: (since ++ [base]), ?_, ?_⟩
  · rw [Resolution.run_reference, holds]
    simp [Resolver.push, Resolver.pop, ended]
  · obtain ⟨-, fresh, -⟩ := lookup_eq_ok_iff.mp holds
    intro stack member
    simp only [List.mem_cons, List.mem_append, List.mem_nil_iff, or_false] at member
    rcases member with rfl | inside | rfl
    · exact orderly.push fresh space
    · exact (grown stack inside).of_push
    · exact orderly

/-- One computation after another, when the first one has ended with a value or an error. -/
theorem bind {f : Outcome → Resolution Outcome} {last : Outcome}
    (first : Returns r base x outcome) (next : Returns r base (f outcome) last) :
    Returns r base (x >>= f) last := by
  intro history
  obtain ⟨since, ran, grown⟩ := first history
  obtain ⟨more, ended, grows⟩ := next (history ++ since)
  refine ⟨since ++ more, ?_, ?_⟩
  · rw [StateT.run_bind, ran, ← List.append_assoc]
    exact ended
  · intro stack member
    exact (List.mem_append.mp member).elim (grown stack) (grows stack)

theorem passedOver (output : String) (items : List Part) :
    Returns r base (Resolution.replaceAll r env deeper output (some e) items) (.error e) := by
  induction items generalizing output with
  | nil => exact of_run fun _ => rfl
  | cons item rest ih =>
    cases item with
    | char c => exact ih (output.push c)
    | reference name default => exact ih output

theorem joined_cons (output text : String) (passed : Except ExpansionError (List String)) :
    (fun texts => output ++ String.join texts) <$> (do return (← .ok text) :: (← passed)) =
      (fun texts => output ++ text ++ String.join texts) <$> passed := by
  cases passed with
  | error e => rfl
  | ok texts =>
    have joined : output ++ String.join (text :: texts) = output ++ text ++ String.join texts := by
      rw [String.join_cons, String.append_assoc]
    exact congrArg Except.ok joined

theorem replaceAll {room : Nat}
    (each : ∀ name default, Returns r base (Resolution.reference r env deeper name default)
      (expandPart r env room base (.reference name default)))
    (output : String) (items : List Part) :
    Returns r base (Resolution.replaceAll r env deeper output none items)
      ((fun texts => output ++ String.join texts) <$>
        items.mapM (expandPart r env room base)) := by
  induction items generalizing output with
  | nil =>
    have joined : output ++ String.join [] = output := by simp
    refine of_run fun _ => ?_
    rw [List.mapM_nil]
    exact congrArg (fun text => some (Except.ok text, _)) joined.symm
  | cons item rest ih =>
    rw [List.mapM_cons]
    cases item with
    | char c =>
      have pushed : output.push c = output ++ String.ofList [c] := by
        rw [← String.toList_inj, String.toList_push, String.toList_append, String.toList_ofList]
      rw [expandPart, joined_cons, ← pushed]
      exact ih (output.push c)
    | reference name default =>
      refine bind (each name default) ?_
      cases expandPart r env room base (.reference name default) with
      | error e => exact passedOver output rest
      | ok text =>
        rw [joined_cons]
        exact ih (output ++ text)

theorem settled {text : String} (never : mayRefer text.toList = false) :
    Returns r base (Resolution.substitute r env deeper text) (.ok text) := by
  refine of_run fun history => ?_
  rw [Resolution.run_substitute, if_pos never]

theorem full {text : String} (refers : mayRefer text.toList = true)
    (noSpace : r.maxDepth ≤ base.length) :
    Returns r base (Resolution.substitute r env deeper text)
      (.error (.depthExceeded r.maxDepth)) := by
  refine of_run fun history => ?_
  rw [Resolution.run_substitute, if_neg (by simp [refers]), if_pos noSpace]

theorem replaced {text : String} (refers : mayRefer text.toList = true)
    (space : base.length < r.maxDepth)
    (inner : Returns r base (Resolution.replaceAll r env deeper "" none (parts text.toList))
      outcome) :
    Returns r base (Resolution.substitute r env deeper text) outcome := by
  intro history
  obtain ⟨since, ended, grown⟩ := inner history
  refine ⟨since, ?_, grown⟩
  rw [Resolution.run_substitute, if_neg (by simp [refers]), if_neg (by simp [space])]
  exact ended

end Returns

/-- A reference is looked up and its value is expanded with one variable more on the stack. -/
theorem reference_returns {deeper : String → Resolution Outcome} {room : Nat}
    (orderly : Orderly r base base) (space : base.length < r.maxDepth)
    (deeper_returns : ∀ name value, name ∉ base → Returns r (name :: base) (deeper value)
      (expandIn r env room (name :: base) value))
    (name : String) (default : Option String) :
    Returns r base (Resolution.reference r env deeper name default)
      (expandPart r env room base (.reference name default)) := by
  rw [expandPart]
  cases looked : lookup r env base name default with
  | error e => exact .missing looked
  | ok value =>
    obtain ⟨-, fresh, -⟩ := lookup_eq_ok_iff.mp looked
    exact .found looked orderly space (deeper_returns name value fresh)

/-- Nested deep enough, the resolution of a text ends with its expansion. -/
theorem resolve_returns {room depth : Nat} (orderly : Orderly r base base)
    (total : base.length + room = r.maxDepth) (enough : room < depth) (text : String) :
    Returns r base (resolve r env depth text) (expandIn r env room base text) := by
  -- a variable that is pushed takes one from the room; the stack and the room make the depth
  induction room generalizing base depth text with
  | zero =>
    obtain ⟨depth, rfl⟩ := Nat.exists_eq_succ_of_ne_zero (Nat.ne_zero_of_lt enough)
    rw [resolve, expandIn_zero]
    cases refers : mayRefer text.toList with
    | false => exact .settled refers
    | true => exact .full refers (by omega)
  | succ room ih =>
    obtain ⟨depth, rfl⟩ := Nat.exists_eq_succ_of_ne_zero (Nat.ne_zero_of_lt enough)
    rw [resolve]
    cases refers : mayRefer text.toList with
    | false =>
      rw [expandIn_of_not_mayRefer refers]
      exact .settled refers
    | true =>
      have space : base.length < r.maxDepth := by omega
      have each : ∀ name default,
          Returns r base (Resolution.reference r env (resolve r env depth) name default)
            (expandPart r env room base (.reference name default)) :=
        reference_returns orderly space fun name value fresh =>
          ih (orderly.push fresh space).refl (by rw [List.length_cons]; omega) (by omega) value
      have all := Returns.replaceAll each "" (parts text.toList)
      simp only [String.empty_append] at all
      rw [expandIn_succ]
      exact .replaced refers space all

/-! ### Outcomes -/

variable {text : String} {e : ExpansionError}

/-- What an error says about the text that was to be expanded. -/
inductive Explains (r : Rules) (env : Environment) (text : String) : ExpansionError → Prop
  | notAllowed {name : String} {default : Option String} (leads : Leads r env text name default)
      (outside : r.allows name = false) : Explains r env text (.notAllowed name r.prefixes)
  /-- What the variable holds leads back to it. -/
  | recursive {name value : String} {default again : Option String}
      (leads : Leads r env text name default) (holds : env name = some value)
      (back : Leads r env value name again) : Explains r env text (.recursive name)
  | notFound {name : String} (leads : Leads r env text name none) (allowed : r.allows name = true)
      (unset : env name = none) : Explains r env text (.notFound name)
  | depthExceeded {chain : List String} {t : String} (reached : Reaches r env text chain t)
      (deep : chain.length = r.maxDepth) (refers : ['$', '\x7b'] <:+: t.toList) :
      Explains r env text (.depthExceeded r.maxDepth)

/-- Everything that a text leads to can be expanded in the depth that is allowed. -/
structure Resolvable (r : Rules) (env : Environment) (text : String) : Prop where
  allowed : ∀ name default, Leads r env text name default → r.allows name = true
  available : ∀ name default, Leads r env text name default →
    (valueAt env name default).isSome = true
  distinct : ∀ chain t, Reaches r env text chain t → chain.Nodup
  short : ∀ chain t, Reaches r env text chain t → chain.length ≤ r.maxDepth
  settled : ∀ chain t, Reaches r env text chain t → chain.length = r.maxDepth →
    ¬['$', '\x7b'] <:+: t.toList

theorem explains_of_error (failure : expand r env text = .error e) : Explains r env text e := by
  cases failsIn_of_error failure with
  | notAllowed leads outside => exact .notAllowed leads outside
  | recursive reached refers again =>
    -- nothing was on the stack at first, so the variable was pushed on the way
    rw [List.append_nil] at again
    obtain ⟨outer, u, d, value, inner, before, own, holds, after⟩ := reached.through again
    have back : Leads r env value _ _ := ⟨inner, _, after, refers⟩
    exact .recursive ⟨outer, u, before, own⟩ (back.held own holds) back
  | notFound leads allowed unset => exact .notFound leads allowed unset
  | depthExceeded reached deep refers => exact .depthExceeded reached deep (mayRefer_iff.mp refers)

theorem Resolvable.expands (resolvable : Resolvable r env text) :
    ∃ out, expand r env text = .ok out := by
  cases expanded : expand r env text with
  | ok out => exact ⟨out, rfl⟩
  | error e =>
    exfalso
    cases failsIn_of_error expanded with
    | notAllowed leads outside => simp [resolvable.allowed _ _ leads] at outside
    | recursive reached refers again =>
      rw [List.append_nil] at again
      have leads : Leads r env text _ _ := ⟨_, _, reached, refers⟩
      obtain ⟨value, holds⟩ := Option.isSome_iff_exists.mp (resolvable.available _ _ leads)
      have longer := reached.step refers (resolvable.allowed _ _ leads) holds
      exact (List.nodup_cons.mp (resolvable.distinct _ _ longer)).1 again
    | notFound leads allowed unset =>
      have available := resolvable.available _ _ leads
      simp [valueAt, unset] at available
    | depthExceeded reached deep refers =>
      exact resolvable.settled _ _ reached deep (mayRefer_iff.mp refers)

theorem resolvable_of_expand {out : String} (success : expand r env text = .ok out) :
    Resolvable r env text where
  allowed := by
    rintro name default ⟨chain, t, reached, refers⟩
    obtain ⟨left, inner, -, expanded⟩ := reached.expanded success
    obtain ⟨-, -, allowed, -⟩ := expandIn_refers expanded refers
    exact allowed
  available := by
    rintro name default ⟨chain, t, reached, refers⟩
    obtain ⟨left, inner, -, expanded⟩ := reached.expanded success
    obtain ⟨-, -, -, -, value, -, holds, -⟩ := expandIn_refers expanded refers
    exact Option.isSome_iff_exists.mpr ⟨value, holds⟩
  distinct := by
    intro chain t reached
    induction reached with
    | here => exact List.nodup_nil
    | step before refers _ _ ih =>
      obtain ⟨left, inner, -, expanded⟩ := before.expanded success
      obtain ⟨-, -, -, fresh, -⟩ := expandIn_refers expanded refers
      exact List.nodup_cons.mpr ⟨fun taken => fresh (List.mem_append_left _ taken), ih⟩
  short := by
    intro chain t reached
    obtain ⟨left, inner, total, -⟩ := reached.expanded success
    omega
  settled := by
    intro chain t reached deep refers
    obtain ⟨left, inner, total, expanded⟩ := reached.expanded success
    obtain rfl : left = 0 := by omega
    rw [expandIn_zero, mayRefer_iff.mpr refers] at expanded
    cases expanded

/-- Expansion always ends, with the stack empty as it began, empty again after each reference of the
text, and on the way without repetition and within the depth. It ends with the one text in which
every reference has been replaced and nothing else, exactly if all that the text leads to can be
expanded; otherwise with an error that says what cannot. -/
theorem expansion_is_sound_and_complete (r : Rules) (env : Environment) (text : String) :
    (∀ depth > r.maxDepth,
      Returns r [] (resolve r env depth text) (expand r env text) ∧
      (0 < r.maxDepth → ∀ name default, ∃ outcome,
        Returns r [] (Resolution.reference r env (resolve r env depth) name default) outcome)) ∧
    (∀ out, expand r env text = .ok out →
      ∀ other, Expands env text.toList other ↔ other = out.toList) ∧
    (∀ e, expand r env text = .error e → Explains r env text e) ∧
    ((∃ out, expand r env text = .ok out) ↔ Resolvable r env text) := by
  have empty : Orderly r [] [] := ⟨List.nodup_nil, Nat.zero_le _, List.suffix_refl _⟩
  refine ⟨fun depth enough => ⟨?_, fun space name default => ?_⟩, fun out success other => ?_,
    fun e => explains_of_error, ?_⟩
  · exact resolve_returns empty (Nat.zero_add _) enough text
  · have deeper : ∀ name value, name ∉ [] → Returns r [name] (resolve r env depth value)
        (expandIn r env (r.maxDepth - 1) [name] value) := by
      intro name value fresh
      refine resolve_returns (empty.push fresh space).refl ?_ (by omega) value
      rw [List.length_singleton]
      omega
    exact ⟨_, reference_returns empty space deeper name default⟩
  · have expands := expands_of_expandIn success
    constructor
    · exact expands.unique
    · rintro rfl
      exact expands
  · exact ⟨fun ⟨_, success⟩ => resolvable_of_expand success, Resolvable.expands⟩

end ActionCatalogue.Expansion
