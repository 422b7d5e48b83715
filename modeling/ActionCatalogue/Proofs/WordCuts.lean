import Mathlib.Data.List.Forall2
import ActionCatalogue.Proofs.Passes
import ActionCatalogue.Proofs.WordBreaks

/-!
What the words of a text are: its maximal runs of letters and digits, cut wherever they break and
nowhere else. A run is cut in one way. The words are read off the text in one pass, in which each
character needs no more than the two behind it.
-/

namespace ActionCatalogue.Naming

open Ascii

variable {a b c : Char} {cs rest run w : List Char} {ws : List (List Char)}

/-! ### Runs -/

/-- The maximal runs of letters and digits. -/
def runs (cs : List Char) : List (List Char) :=
  (cs.splitOnP fun c => !isAlphanumeric c).filter fun run => !run.isEmpty

theorem runsFrom_eq (run cs : List Char) :
    runsFrom run cs =
      ((cs.splitOnP fun c => !isAlphanumeric c).modifyHead (run.reverse ++ ·)).filter
        fun run => !run.isEmpty := by
  have unchanged : List.modifyHead (fun run : List Char => run) = id := by
    funext runs
    cases runs <;> rfl
  fun_induction runsFrom run cs <;>
    simp_all [List.splitOnP_cons_eq_if_modifyHead, Function.comp_def]

theorem runsFrom_nil (cs : List Char) : runsFrom [] cs = runs cs := by
  rw [runsFrom_eq, runs]
  cases cs.splitOnP _ <;> rfl

theorem wordsOf_eq (cs : List Char) : wordsOf cs = runs (marked cs) :=
  runsFrom_nil _

/-- No run goes over a separator. -/
theorem runs_append (separates : isAlphanumeric c = false) (front back : List Char) :
    runs (front ++ c :: back) = runs front ++ runs back := by
  simp only [runs]
  rw [List.splitOnP_append_cons front back (by simp [separates]), List.filter_append]

theorem runs_separator (separates : isAlphanumeric c = false) (cs : List Char) :
    runs (c :: cs) = runs cs :=
  runs_append separates [] cs

theorem runs_alone (letter : isAlphanumeric a = true) : runs [a] = [[a]] := by
  simp [runs, List.splitOnP_cons_eq_if_modifyHead, letter]

theorem runs_end (letter : isAlphanumeric a = true) (separates : isAlphanumeric c = false)
    (cs : List Char) : runs (a :: c :: cs) = [a] :: runs cs := by
  have split : runs ([a] ++ c :: cs) = runs [a] ++ runs cs := runs_append separates [a] cs
  rwa [runs_alone letter] at split

theorem runs_join (letter : isAlphanumeric a = true) (next : isAlphanumeric b = true)
    (cs : List Char) : runs (a :: b :: cs) = (runs (b :: cs)).modifyHead (a :: ·) := by
  simp only [runs, List.splitOnP_cons_eq_if_modifyHead, letter, next, Bool.not_true]
  cases cs.splitOnP _ with
  | nil => rfl
  | cons run others => simp

theorem isAlphanumeric_of_mem_runs (member : run ∈ runs cs) (inside : c ∈ run) :
    isAlphanumeric c = true := by
  have found : c ∈ (runsFrom [] cs).flatten :=
    List.mem_flatten.mpr ⟨run, runsFrom_nil cs ▸ member, inside⟩
  rw [flatten_runsFrom] at found
  exact (List.mem_filter.mp found).2

/-- Behind its first character the first run begins with a lower-case letter where the text does. -/
theorem exists_first_run (letter : isAlphanumeric b = true) (rest : List Char) :
    ∃ tail others, runs (b :: rest) = (b :: tail) :: others ∧
      tail.head?.any isLower = rest.head?.any isLower := by
  induction rest generalizing b with
  | nil => exact ⟨[], [], runs_alone letter, rfl⟩
  | cons c rest ih =>
    by_cases next : isAlphanumeric c = true
    · obtain ⟨tail, others, first, -⟩ := ih next
      refine ⟨c :: tail, others, ?_, rfl⟩
      rw [runs_join letter next, first]
      rfl
    · rw [Bool.not_eq_true] at next
      refine ⟨[], runs rest, runs_end letter next rest, ?_⟩
      simp only [isAlphanumeric, Bool.or_eq_false_iff] at next
      simp [next.1.2]

/-! ### Words in one pass -/

theorem wordsOf_separator (separates : isAlphanumeric c = false) (cs : List Char) :
    wordsOf (c :: cs) = wordsOf cs := by
  cases cs with
  | nil =>
    have unmarked : wordsOf [c] = runs [c] := wordsOf_eq [c]
    rw [unmarked, runs_separator separates]
    rfl
  | cons b rest =>
    have whole : ¬Breaks c b rest := by
      intro breaks
      rw [breaks.isAlphanumeric_left] at separates
      cases separates
    rw [wordsOf_eq, wordsOf_eq, marked_pair, if_neg whole, runs_separator separates]

theorem wordsOf_alone (letter : isAlphanumeric a = true) : wordsOf [a] = [[a]] := by
  have unmarked : wordsOf [a] = runs [a] := wordsOf_eq [a]
  rw [unmarked, runs_alone letter]

theorem wordsOf_break (breaks : Breaks a b rest) :
    wordsOf (a :: b :: rest) = [a] :: wordsOf (b :: rest) := by
  rw [wordsOf_eq, wordsOf_eq, marked_pair, if_pos breaks,
    runs_end breaks.isAlphanumeric_left (by decide)]

theorem wordsOf_end (letter : isAlphanumeric a = true) (separates : isAlphanumeric c = false)
    (cs : List Char) : wordsOf (a :: c :: cs) = [a] :: wordsOf cs := by
  obtain ⟨tail, follows⟩ := exists_marked c cs
  have others : wordsOf cs = runs tail := by
    rw [← wordsOf_separator separates, wordsOf_eq, follows, runs_separator separates]
  rw [wordsOf_eq, marked_pair, if_neg (not_breaks_of_separator separates), follows,
    runs_end letter separates, others]

theorem wordsOf_join (letter : isAlphanumeric a = true) (next : isAlphanumeric b = true)
    (whole : ¬Breaks a b rest) :
    wordsOf (a :: b :: rest) = (wordsOf (b :: rest)).modifyHead (a :: ·) := by
  obtain ⟨tail, follows⟩ := exists_marked b rest
  rw [wordsOf_eq, wordsOf_eq, marked_pair, if_neg whole, follows, runs_join letter next]

theorem wordsOf_ne_nil (letter : isAlphanumeric a = true) (cs : List Char) :
    wordsOf (a :: cs) ≠ [] := by
  intro wordless
  have filtered := flatten_wordsOf (a :: cs)
  simp [wordless, letter] at filtered

/-- The words of a text are those of its runs. -/
theorem wordsOf_eq_flatMap (cs : List Char) : wordsOf cs = (runs cs).flatMap wordsOf := by
  induction cs with
  | nil => rfl
  | cons a cs ih =>
    by_cases letter : isAlphanumeric a = true
    case neg =>
      rw [Bool.not_eq_true] at letter
      rw [wordsOf_separator letter, runs_separator letter, ih]
    case pos =>
      cases cs with
      | nil => simp [runs_alone letter, wordsOf_alone letter]
      | cons b rest =>
        by_cases next : isAlphanumeric b = true
        case neg =>
          rw [Bool.not_eq_true] at next
          rw [wordsOf_separator next, runs_separator next] at ih
          simp [runs_end letter next, wordsOf_end letter next, wordsOf_alone letter, ih]
        case pos =>
          -- the letter behind a pair is in the pair's run, so the run breaks where the text does
          obtain ⟨tail, others, first, behind⟩ := exists_first_run next rest
          have same : Breaks a b tail ↔ Breaks a b rest := by
            simp only [Breaks, EndsAcronym, behind]
          rw [first, List.flatMap_cons] at ih
          rw [runs_join letter next, first, List.modifyHead_cons, List.flatMap_cons]
          by_cases breaks : Breaks a b rest
          · rw [wordsOf_break breaks, wordsOf_break (same.mpr breaks), ih, List.cons_append]
          · rw [wordsOf_join letter next breaks, wordsOf_join letter next (mt same.mp breaks), ih]
            obtain ⟨w, ws, words⟩ := List.exists_cons_of_ne_nil (wordsOf_ne_nil next tail)
            simp [words]

/-! ### Cuts -/

/-- The first words make up the text `before`, so a word ends where it does. -/
def EndsAfter (before : List Char) (ws : List (List Char)) : Prop :=
  ∃ front back, ws = front ++ back ∧ front.flatten = before

/-- A run cut into words exactly where it breaks. -/
structure Cuts (run : List Char) (ws : List (List Char)) : Prop where
  whole : ws.flatten = run
  nonempty : ∀ w ∈ ws, w ≠ []
  ends : ∀ before a b after, run = before ++ a :: b :: after →
    (EndsAfter (before ++ [a]) ws ↔ Breaks a b after)

theorem endsAfter_cons_iff {before : List Char} :
    EndsAfter before (w :: ws) ↔
      before = [] ∨ ∃ later, before = w ++ later ∧ EndsAfter later ws := by
  constructor
  · rintro ⟨front, back, parts, rfl⟩
    cases front with
    | nil => exact .inl rfl
    | cons first front =>
      obtain ⟨rfl, rfl⟩ := List.cons.inj parts
      exact .inr ⟨front.flatten, rfl, front, back, rfl, rfl⟩
  · rintro (rfl | ⟨later, rfl, front, back, rfl, rfl⟩)
    · exact ⟨[], w :: ws, rfl, rfl⟩
    · exact ⟨w :: front, back, rfl, rfl⟩

theorem cuts_nil_iff : Cuts [] ws ↔ ws = [] := by
  constructor
  · intro cuts
    have empty : ∀ w ∈ ws, w = [] := List.flatten_eq_nil_iff.mp cuts.whole
    exact List.eq_nil_iff_forall_not_mem.mpr fun w member =>
      cuts.nonempty w member (empty w member)
  · rintro rfl
    exact ⟨rfl, by simp, by simp⟩

/-- A cut begins with the first character of its run. -/
theorem Cuts.exists_first {a : Char} (cuts : Cuts (a :: run) ws) :
    ∃ w others, ws = (a :: w) :: others := by
  cases ws with
  | nil => cases cuts.whole
  | cons first others =>
    obtain ⟨c, w, rfl⟩ := List.exists_cons_of_ne_nil (cuts.nonempty first List.mem_cons_self)
    obtain ⟨rfl, -⟩ := List.cons.inj cuts.whole
    exact ⟨w, others, rfl⟩

theorem cuts_alone_iff : Cuts [a] ws ↔ ws = [[a]] := by
  constructor
  · intro cuts
    obtain ⟨w, others, rfl⟩ := cuts.exists_first
    have rest : w ++ others.flatten = [] := (List.cons.inj cuts.whole).2
    obtain ⟨rfl, empty⟩ := List.append_eq_nil_iff.mp rest
    have none : others = [] := by
      refine cuts_nil_iff.mp ⟨empty, fun w member => ?_, by simp⟩
      exact cuts.nonempty w (List.mem_cons_of_mem _ member)
    rw [none]
  · rintro rfl
    refine ⟨rfl, by simp, fun before x y after place => ?_⟩
    have lengths : 1 = before.length + (after.length + 1 + 1) := by
      simpa using congrArg List.length place
    omega

/-- Behind the first character a run and what follows it end their words at the same places. -/
theorem cuts_cons_iff {others : List (List Char)} (whole : ws.flatten = a :: others.flatten)
    (nonempty : (∀ w ∈ ws, w ≠ []) ↔ ∀ w ∈ others, w ≠ [])
    (first : EndsAfter [a] ws ↔ Breaks a b rest)
    (later : ∀ before, before ≠ [] → (EndsAfter (a :: before) ws ↔ EndsAfter before others)) :
    Cuts (a :: b :: rest) ws ↔ Cuts (b :: rest) others := by
  constructor
  · intro cuts
    refine ⟨?_, nonempty.mp cuts.nonempty, fun before x y after place => ?_⟩
    · exact (List.cons.inj (whole.symm.trans cuts.whole)).2
    · rw [← later _ (by simp)]
      exact cuts.ends (a :: before) x y after (congrArg (a :: ·) place)
  · intro cuts
    refine ⟨whole.trans (congrArg (a :: ·) cuts.whole), nonempty.mpr cuts.nonempty, ?_⟩
    intro before x y after place
    cases before with
    | nil =>
      cases place
      exact first
    | cons c before =>
      obtain ⟨rfl, behind⟩ := List.cons.inj place
      exact (later _ (by simp)).trans (cuts.ends before x y after behind)

/-- A run that breaks behind its first character: the character is a word. -/
theorem cuts_break_iff (breaks : Breaks a b rest) :
    Cuts (a :: b :: rest) ws ↔ ∃ others, ws = [a] :: others ∧ Cuts (b :: rest) others := by
  have tail (others : List (List Char)) :
      Cuts (a :: b :: rest) ([a] :: others) ↔ Cuts (b :: rest) others := by
    refine cuts_cons_iff rfl (by simp) ?_ (by simp [endsAfter_cons_iff])
    simp only [breaks, iff_true]
    exact ⟨[[a]], others, rfl, rfl⟩
  constructor
  · intro cuts
    obtain ⟨w, others, rfl⟩ := cuts.exists_first
    have ends : EndsAfter [a] ((a :: w) :: others) := (cuts.ends [] a b rest rfl).mpr breaks
    obtain rfl : w = [] := by
      rcases endsAfter_cons_iff.mp ends with empty | ⟨later, same, -⟩
      · cases empty
      · exact (List.append_eq_nil_iff.mp (List.cons.inj same).2.symm).1
    exact ⟨others, rfl, (tail others).mp cuts⟩
  · rintro ⟨others, rfl, cuts⟩
    exact (tail others).mpr cuts

/-- A run that does not break behind its first character: the first word goes on. -/
theorem cuts_join_iff (joins : ¬Breaks a b rest) :
    Cuts (a :: b :: rest) ws ↔
      ∃ w others, ws = (a :: w) :: others ∧ Cuts (b :: rest) (w :: others) := by
  have tail {w : List Char} (long : w ≠ []) (others : List (List Char)) :
      Cuts (a :: b :: rest) ((a :: w) :: others) ↔ Cuts (b :: rest) (w :: others) := by
    refine cuts_cons_iff rfl (by simp [long]) ?_ (by simp +contextual [endsAfter_cons_iff])
    simp [endsAfter_cons_iff, joins, long]
  constructor
  · intro cuts
    obtain ⟨w, others, rfl⟩ := cuts.exists_first
    have long : w ≠ [] := by
      rintro rfl
      exact joins ((cuts.ends [] a b rest rfl).mp ⟨[[a]], others, rfl, rfl⟩)
    exact ⟨w, others, rfl, (tail long others).mp cuts⟩
  · rintro ⟨w, others, rfl, cuts⟩
    exact (tail (cuts.nonempty w List.mem_cons_self) others).mpr cuts

/-- A run is cut in one way, into its words. -/
theorem cuts_iff (letters : ∀ c ∈ run, isAlphanumeric c = true) :
    Cuts run ws ↔ wordsOf run = ws := by
  induction run generalizing ws with
  | nil =>
    rw [cuts_nil_iff, eq_comm]
    rfl
  | cons a run ih =>
    have letter := letters a List.mem_cons_self
    cases run with
    | nil => rw [cuts_alone_iff, wordsOf_alone letter, eq_comm]
    | cons b rest =>
      have others : ∀ c ∈ b :: rest, isAlphanumeric c = true :=
        fun c member => letters c (List.mem_cons_of_mem _ member)
      have next := others b List.mem_cons_self
      by_cases breaks : Breaks a b rest
      · simp only [cuts_break_iff breaks, ih others, wordsOf_break breaks]
        constructor
        · rintro ⟨_, rfl, rfl⟩
          rfl
        · rintro rfl
          exact ⟨_, rfl, rfl⟩
      · simp only [cuts_join_iff breaks, ih others, wordsOf_join letter next breaks]
        obtain ⟨w, ws, words⟩ := List.exists_cons_of_ne_nil (wordsOf_ne_nil next rest)
        rw [words]
        constructor
        · rintro ⟨_, _, rfl, same⟩
          cases same
          rfl
        · rintro rfl
          exact ⟨w, ws, rfl, rfl⟩

/-- The words of a text are its runs, cut one after the other. -/
theorem wordsOf_eq_iff :
    wordsOf cs = ws ↔ ∃ cuts, List.Forall₂ Cuts (runs cs) cuts ∧ cuts.flatten = ws := by
  have same (cuts : List (List (List Char))) :
      List.Forall₂ Cuts (runs cs) cuts ↔ (runs cs).map wordsOf = cuts := by
    have each (run : List Char) (ws : List (List Char)) (member : run ∈ runs cs) :
        Cuts run ws ↔ wordsOf run = ws :=
      cuts_iff fun _ inside => isAlphanumeric_of_mem_runs member inside
    rw [← List.forall₂_eq_eq_eq, List.forall₂_map_left_iff]
    constructor
    · exact fun cut => Pass.forall₂_of_mem cut fun run ws member => (each run ws member).mp
    · exact fun cut => Pass.forall₂_of_mem cut fun run ws member => (each run ws member).mpr
  simp only [same, exists_eq_left', wordsOf_eq_flatMap cs, List.flatMap_def]

/-- The words of a text are its maximal runs of letters and digits, cut wherever they break and
nowhere else. They are what is left between the separators after two replacements, the second of
what the first has written; and they hold the letters and digits of the text, each once and in
their order. -/
theorem words_are_cut_runs (s : String) :
    (∀ ws, words s = ws ↔
      ∃ cuts, List.Forall₂ Cuts (runs s.toList) cuts ∧ ws = cuts.flatten.map String.ofList) ∧
    (∃ risen spaced, Spaced Rise s.toList risen ∧ Spaced Acronym risen spaced ∧
      words s = (runs spaced).map String.ofList) ∧
    (∀ w ∈ words s, w ≠ "" ∧ ∀ c ∈ w.toList, isAlphanumeric c = true) ∧
    (words s).flatMap String.toList = s.toList.filter isAlphanumeric := by
  refine ⟨fun ws => ?_, ?_, fun w member => ?_, ?_⟩
  · obtain ⟨cuts, cut, same⟩ := wordsOf_eq_iff.mp (rfl : wordsOf s.toList = _)
    constructor
    · rintro rfl
      exact ⟨cuts, cut, by rw [same, words]⟩
    · rintro ⟨others, cut, rfl⟩
      rw [words, wordsOf_eq_iff.mpr ⟨others, cut, rfl⟩]
  · refine ⟨_, _, spaced_rise_iff.mpr rfl, spaced_acronym_iff.mpr rfl, ?_⟩
    rw [words, wordsOf_eq, marked]
  · obtain ⟨word, among, rfl⟩ := List.mem_map.mp member
    have nonempty := ne_nil_of_mem_wordsOf among
    rw [String.toList_ofList]
    exact ⟨by simpa using nonempty, fun _ inside => isAlphanumeric_of_mem_wordsOf among inside⟩
  · rw [← flatten_wordsOf, words, List.flatMap_map]
    simp [List.flatMap_def]

theorem status_is_cut :
    (∃ cuts, List.Forall₂ Cuts (runs "getHTTPStatus v2Beta".toList) cuts ∧
      ["get", "HTTP", "Status", "v2", "Beta"] = cuts.flatten.map String.ofList) ∧
    "HTTP" ∈ words "getHTTPStatus v2Beta" ∧
    "HTTP" ≠ "" ∧ ∀ c ∈ "HTTP".toList, isAlphanumeric c = true := by
  obtain ⟨cut, -, spelled, -⟩ := words_are_cut_runs "getHTTPStatus v2Beta"
  have found : words "getHTTPStatus v2Beta" = ["get", "HTTP", "Status", "v2", "Beta"] := by
    decide +kernel
  have member : "HTTP" ∈ words "getHTTPStatus v2Beta" := by
    rw [found]
    decide
  exact ⟨(cut _).mp found, member, spelled _ member⟩

end ActionCatalogue.Naming
