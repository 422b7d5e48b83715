import ActionCatalogue.Proofs.ExpandedTexts

/-!
When an expansion is complete. An expanded text is put together from stretches that have been copied
without interruption: from a text between two of its references, or from a default. No stretch has a
reference of its own, so one that is left begins at the end of a stretch and runs on behind it. That
can happen where texts meet, because what has been put in is not looked at again from outside. And
it happens where a default has a reference, although a default is to be expanded as a value is: the
default ends at the first closing brace, which is that of its reference, and so cuts it short. Where
neither is the case no reference is left, and expanding again changes nothing.
-/

namespace ActionCatalogue.Expansion

variable {r : Rules} {env : Environment}

/-! ### Stretches -/

/-- A piece of an expanded text that has been put into it without interruption. -/
inductive Stretch where
  | copied (run : List Char)
  | default (text : String)

def Stretch.chars : Stretch → List Char
  | copied run => run
  | default text => text.toList

/-- The stretches of an expanded text, the empty ones included, in their order. -/
inductive Copied (env : Environment) : List Char → List Stretch → Prop
  | done : Copied env [] [.copied []]
  | keep {c : Char} {rest run : List Char} {more : List Stretch} (plain : ¬Begins (c :: rest))
      (later : Copied env rest (.copied run :: more)) :
      Copied env (c :: rest) (.copied (c :: run) :: more)
  | value {name value : String} {default : Option String} {after : List Char}
      {inner outer : List Stretch} (reference : IsReference name default)
      (holds : env name = some value) (expansion : Copied env value.toList inner)
      (later : Copied env after outer) :
      Copied env (written name default ++ after) (.copied [] :: (inner ++ outer))
  | default {name text : String} {after : List Char} {outer : List Stretch}
      (reference : IsReference name (some text)) (unset : env name = none)
      (later : Copied env after outer) :
      Copied env (written name (some text) ++ after) (.copied [] :: .default text :: outer)

namespace Copied

variable {cs out : List Char} {stretches : List Stretch}

/-- The first stretch is what stands before the first reference. -/
theorem exists_first (copied : Copied env cs stretches) :
    ∃ run more rest, stretches = .copied run :: more ∧ cs = run ++ rest := by
  induction copied with
  | done => exact ⟨[], [], [], rfl, rfl⟩
  | @keep c _ _ _ _ _ ih =>
    obtain ⟨_, _, rest, same, rfl⟩ := ih
    cases same
    exact ⟨c :: _, _, rest, rfl, rfl⟩
  | value => exact ⟨[], _, _, rfl, rfl⟩
  | default => exact ⟨[], _, _, rfl, rfl⟩

theorem of_expands (expands : Expands env cs out) :
    ∃ stretches, Copied env cs stretches ∧ stretches.flatMap Stretch.chars = out := by
  induction expands with
  | done => exact ⟨_, .done, rfl⟩
  | @keep c _ _ plain _ ih =>
    obtain ⟨stretches, copied, rfl⟩ := ih
    obtain ⟨run, more, _, rfl, -⟩ := copied.exists_first
    exact ⟨_, .keep plain copied, rfl⟩
  | @replace name value default after inner out reference holds expansion _ ihInner ihLater =>
    obtain ⟨outer, later, rfl⟩ := ihLater
    cases set : env name with
    | some held =>
      obtain ⟨inner, copied, rfl⟩ := ihInner
      have same : held = value := by simpa [valueAt, set] using holds
      subst same
      exact ⟨_, .value reference set copied later, by simp [Stretch.chars]⟩
    | none =>
      have used : default = some value := by simpa [valueAt, set] using holds
      subst used
      -- a default has no reference, so that its expansion is the default
      obtain rfl := expansion.unique (.of_plain reference.plain_default)
      exact ⟨_, .default reference set later, by simp [Stretch.chars]⟩

theorem plain (copied : Copied env cs stretches) :
    ∀ stretch ∈ stretches, Plain stretch.chars := by
  induction copied with
  | done => simp [Stretch.chars, plain_nil]
  | keep here later ih =>
    obtain ⟨run, more, rest, same, rfl⟩ := later.exists_first
    cases same
    obtain ⟨own, others⟩ := List.forall_mem_cons.mp ih
    refine List.forall_mem_cons.mpr ⟨plain_cons_iff.mpr ⟨fun begins => ?_, own⟩, others⟩
    exact here (begins.append rest)
  | value _ _ _ _ ihInner ihLater =>
    refine List.forall_mem_cons.mpr ⟨plain_nil, fun stretch member => ?_⟩
    exact (List.mem_append.mp member).elim (ihInner stretch) (ihLater stretch)
  | default reference _ _ ih =>
    exact List.forall_mem_cons.mpr ⟨plain_nil, List.forall_mem_cons.mpr
      ⟨reference.plain_default, ih⟩⟩

end Copied

/-! ### References that are left -/

/-- A reference without its closing brace. -/
def opened (name : String) (default : Option String) : List Char :=
  '$' :: '\x7b' :: (name.toList ++ writtenDefault default)

theorem written_eq_opened (name : String) (default : Option String) :
    written name default = opened name default ++ ['\x7d'] := by
  simp [written, opened]

/-- A reference begins at the end of a stretch and runs on behind it. -/
def RunsOn (stretch : Stretch) (later : List Stretch) : Prop :=
  ∃ opening rest name default after, IsReference name default ∧
    written name default = opening ++ rest ∧ opening ≠ [] ∧ rest ≠ [] ∧
    opening <:+ stretch.chars ∧ later.flatMap Stretch.chars = rest ++ after

/-- A default that ends in a reference without its closing brace, which has been taken for that of
the default. -/
inductive CutShort : Stretch → Prop
  | mk {text name : String} {own : Option String} (reference : IsReference name own)
      (ends : opened name own <:+ text.toList) : CutShort (.default text)

/-- A reference runs on from one of the stretches, and that one is of a kind. -/
def LeftAfter (kind : Stretch → Prop) : List Stretch → Prop
  | [] => False
  | stretch :: later => (kind stretch ∧ RunsOn stretch later) ∨ LeftAfter kind later

theorem plain_append_iff {cs rest : List Char} :
    Plain (cs ++ rest) ↔
      (∀ opening, opening ≠ [] → opening <:+ cs → ¬Begins (opening ++ rest)) ∧ Plain rest := by
  induction cs with
  | nil =>
    refine ⟨fun plain => ⟨fun opening nonempty suffix => ?_, plain⟩, And.right⟩
    exact absurd (List.suffix_nil.mp suffix) nonempty
  | cons c cs ih =>
    rw [List.cons_append, plain_cons_iff, ih]
    constructor
    · rintro ⟨here, openings, plain⟩
      refine ⟨fun opening nonempty suffix => ?_, plain⟩
      rcases List.suffix_cons_iff.mp suffix with rfl | further
      · exact here
      · exact openings opening nonempty further
    · rintro ⟨openings, plain⟩
      refine ⟨openings _ (List.cons_ne_nil c cs) List.suffix_rfl, fun opening nonempty suffix => ?_,
        plain⟩
      exact openings opening nonempty (suffix.trans (List.suffix_cons c cs))

section Left

variable {stretch : Stretch} {stretches later : List Stretch}

theorem runsOn_iff (plain : Plain stretch.chars) :
    RunsOn stretch later ↔ ∃ opening, opening ≠ [] ∧ opening <:+ stretch.chars ∧
      Begins (opening ++ later.flatMap Stretch.chars) := by
  constructor
  · rintro ⟨opening, rest, name, default, after, reference, goes, nonempty, -, suffix, behind⟩
    refine ⟨opening, nonempty, suffix, name, default, after, reference, ?_⟩
    rw [behind, goes, List.append_assoc]
  · rintro ⟨opening, nonempty, suffix, name, default, after, reference, text⟩
    -- the stretch would hold all of the reference
    have unfinished : ∀ inside, opening ≠ written name default ++ inside := fun inside whole =>
      plain opening suffix ⟨name, default, inside, reference, whole⟩
    rcases List.append_eq_append_iff.mp text with ⟨rest, goes, behind⟩ | ⟨inside, whole, -⟩
    · refine ⟨opening, rest, name, default, after, reference, goes, nonempty, ?_, suffix, behind⟩
      rintro rfl
      exact unfinished [] (by simpa using goes.symm)
    · exact absurd whole (unfinished inside)

theorem plain_flatMap_iff (plain : ∀ stretch ∈ stretches, Plain stretch.chars)
    (kind : Stretch → Prop) :
    Plain (stretches.flatMap Stretch.chars) ↔
      ¬LeftAfter kind stretches ∧ ¬LeftAfter (fun stretch => ¬kind stretch) stretches := by
  induction stretches with
  | nil => simp [LeftAfter, plain_nil]
  | cons stretch later ih =>
    obtain ⟨own, others⟩ := List.forall_mem_cons.mp plain
    have here : (∀ opening, opening ≠ [] → opening <:+ stretch.chars →
        ¬Begins (opening ++ later.flatMap Stretch.chars)) ↔ ¬RunsOn stretch later := by
      simp only [runsOn_iff own, not_exists, not_and]
    rw [List.flatMap_cons, plain_append_iff, here, ih others]
    simp only [LeftAfter]
    by_cases own : kind stretch <;> simp [own, and_assoc, and_left_comm]

/-- A default that is cut short leaves its reference where another closing brace stands behind it,
which is where the default was to end. -/
theorem leftAfter_of_brace (cut : CutShort stretch) (earlier : List Stretch) (run : List Char)
    (later : List Stretch) :
    LeftAfter CutShort (earlier ++ stretch :: .copied ('\x7d' :: run) :: later) := by
  induction earlier with
  | nil =>
    obtain ⟨reference, ends⟩ := cut
    exact .inl ⟨⟨reference, ends⟩, _, ['\x7d'], _, _, run ++ later.flatMap Stretch.chars, reference,
      written_eq_opened _ _, List.cons_ne_nil _ _, List.cons_ne_nil _ _, ends, rfl⟩
  | cons first earlier ih => exact .inr ih

end Left

/-- An expanded text without a reference is its own expansion. -/
theorem expand_of_plain {text out : String} (success : expand r env text = .ok out)
    (plain : Plain out.toList) : expand r env out = .ok out := by
  unfold expand at success ⊢
  cases depth : r.maxDepth with
  | zero =>
    rw [depth, expandIn_zero] at success
    cases refers : mayRefer text.toList with
    | true => simp [refers] at success
    | false =>
      simp only [refers, Bool.false_eq_true, if_false, Except.ok.injEq] at success
      rw [← success]
      exact expandIn_of_not_mayRefer refers
  | succ room => rw [expandIn_succ, expandParts_of_plain plain, String.ofList_toList]

/-- An expanded text and the stretches from which it is put together. -/
structure Assembled (env : Environment) (text out : List Char) (stretches : List Stretch) :
    Prop where
  copied : Copied env text stretches
  whole : stretches.flatMap Stretch.chars = out
  plain : ∀ stretch ∈ stretches, Plain stretch.chars
  nested : ∀ earlier stretch run later,
    stretches = earlier ++ stretch :: .copied ('\x7d' :: run) :: later → CutShort stretch →
    LeftAfter CutShort stretches

/-- An expanded text has no reference, and then expanding again changes nothing, exactly if no
reference runs on from a default that is cut short, which always happens where a default has a
reference, and none from another stretch into what it meets. -/
theorem complete_iff_not_cut_short_nor_met (r : Rules) (env : Environment) (text out : String)
    (success : expand r env text = .ok out) :
    ∃ stretches, Assembled env text.toList out.toList stretches ∧
      (Plain out.toList ↔ ¬LeftAfter CutShort stretches ∧
        ¬LeftAfter (fun stretch => ¬CutShort stretch) stretches) ∧
      (Plain out.toList → expand r env out = .ok out) := by
  obtain ⟨stretches, copied, whole⟩ := Copied.of_expands (expands_of_expandIn success)
  refine ⟨stretches, ⟨copied, whole, copied.plain, ?_⟩, ?_, expand_of_plain success⟩
  · rintro earlier stretch run later rfl cut
    exact leftAfter_of_brace cut earlier run later
  · rw [← whole]
    exact plain_flatMap_iff copied.plain CutShort

def hostVariables : Environment := fun name => Entries.lookup name [("APP_HOST", "eu")]

theorem expand_address :
    expand {} hostVariables "https://$\x7bAPP_HOST\x7d/$\x7bAPP_PATH:v1\x7d" =
      .ok "https://eu/v1" := by
  decide +kernel

theorem address_is_complete :
    expand {} hostVariables "https://$\x7bAPP_HOST\x7d/$\x7bAPP_PATH:v1\x7d" =
      .ok "https://eu/v1" ∧
    Plain "https://eu/v1".toList ∧
    (∃ stretches, Assembled hostVariables
      "https://$\x7bAPP_HOST\x7d/$\x7bAPP_PATH:v1\x7d".toList "https://eu/v1".toList stretches ∧
      ¬LeftAfter CutShort stretches ∧ ¬LeftAfter (fun stretch => ¬CutShort stretch) stretches) ∧
    expand {} hostVariables "https://eu/v1" = .ok "https://eu/v1" := by
  have plain : Plain "https://eu/v1".toList := plain_of_not_mayRefer (by decide)
  obtain ⟨stretches, assembled, complete, again⟩ :=
    complete_iff_not_cut_short_nor_met {} hostVariables _ _ expand_address
  exact ⟨expand_address, plain, ⟨stretches, assembled, complete.mp plain⟩, again plain⟩

/-- A default with a reference: the reference is left, and only expanding again replaces it. -/
theorem nested_default_is_left :
    expand {} hostVariables "$\x7bAPP_NONE:$\x7bAPP_HOST\x7d\x7d" = .ok "$\x7bAPP_HOST\x7d" ∧
    ¬Plain "$\x7bAPP_HOST\x7d".toList ∧
    expand {} hostVariables "$\x7bAPP_HOST\x7d" = .ok "eu" := by
  have nested : expand {} hostVariables "$\x7bAPP_NONE:$\x7bAPP_HOST\x7d\x7d" =
      .ok "$\x7bAPP_HOST\x7d" := by
    decide +kernel
  have further : expand {} hostVariables "$\x7bAPP_HOST\x7d" = .ok "eu" := by
    decide +kernel
  refine ⟨nested, fun plain => ?_, further⟩
  have unchanged := (expand_of_plain nested plain).symm.trans further
  exact absurd unchanged (by decide)

end ActionCatalogue.Expansion
