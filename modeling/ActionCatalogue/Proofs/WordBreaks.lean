import ActionCatalogue.Proofs.Words

/-!
Where words end. Two replacements put a blank where the case rises and where an acronym ends; each
goes from match to match, and the second reads what the first has written. No match takes a place
from another: together they leave a blank exactly where one look at the text, at two characters and
the one behind them, finds the end of a word.
-/

namespace ActionCatalogue.Naming

open Ascii

variable {a b c : Char} {cs rest out : List Char}

/-! ### Places where a word ends -/

/-- A lower-case letter or a digit meets a capital. -/
def Rises (a b : Char) : Prop := (isLower a || isDigit a) = true ∧ isUpper b = true

/-- Two capitals, and a lower-case letter at the start of what follows them. -/
def EndsAcronym (a b : Char) (rest : List Char) : Prop :=
  isUpper a = true ∧ isUpper b = true ∧ rest.head?.any isLower = true

/-- A word ends between `a` and `b`, which `rest` follows. -/
def Breaks (a b : Char) (rest : List Char) : Prop := Rises a b ∨ EndsAcronym a b rest

instance (a b : Char) : Decidable (Rises a b) :=
  inferInstanceAs (Decidable (_ ∧ _))

instance (a b : Char) (rest : List Char) : Decidable (EndsAcronym a b rest) :=
  inferInstanceAs (Decidable (_ ∧ _ ∧ _))

instance (a b : Char) (rest : List Char) : Decidable (Breaks a b rest) :=
  inferInstanceAs (Decidable (_ ∨ _))

theorem not_isUpper_of_isLower (small : isLower a = true) : isUpper a = false :=
  not_isUpper_of_low (by simp [small])

theorem not_isLower_of_isUpper (capital : isUpper a = true) : isLower a = false := by
  by_contra small
  rw [not_isUpper_of_isLower (by simpa using small)] at capital
  cases capital

theorem not_rises_of_isUpper (capital : isUpper a = true) : ¬Rises a b := by
  rintro ⟨low, -⟩
  rw [not_isUpper_of_low low] at capital
  cases capital

theorem Breaks.isAlphanumeric_left (breaks : Breaks a b rest) : isAlphanumeric a = true := by
  rcases breaks with ⟨low, -⟩ | ⟨capital, -⟩
  · simpa [isAlphanumeric, or_assoc] using Or.inr low
  · simp [isAlphanumeric, capital]

theorem Breaks.isUpper_right (breaks : Breaks a b rest) : isUpper b = true := by
  rcases breaks with ⟨-, capital⟩ | ⟨-, capital, -⟩ <;> exact capital

theorem not_breaks_of_separator (separates : isAlphanumeric b = false) : ¬Breaks a b rest := by
  intro breaks
  simp [isAlphanumeric, breaks.isUpper_right] at separates

/-! ### The two passes -/

theorem breakRises_pair (a b : Char) (rest : List Char) :
    breakRises (a :: b :: rest) =
      if Rises a b then a :: ' ' :: breakRises (b :: rest) else a :: breakRises (b :: rest) := by
  simp [breakRises, Rises]

theorem breakAcronyms_pair (a b : Char) (rest : List Char) :
    breakAcronyms (a :: b :: rest) =
      if EndsAcronym a b rest then a :: ' ' :: breakAcronyms (b :: rest)
      else a :: breakAcronyms (b :: rest) := by
  cases rest with
  | nil => simp [breakAcronyms, EndsAcronym]
  | cons c rest =>
    have same : EndsAcronym a b (c :: rest) ↔ (isUpper a && isUpper b && isLower c) = true := by
      simp [EndsAcronym, and_assoc]
    simp only [breakAcronyms, same]

theorem head?_breakRises (cs : List Char) : (breakRises cs).head? = cs.head? := by
  fun_cases breakRises cs <;> simp [*]

theorem head?_breakAcronyms (cs : List Char) : (breakAcronyms cs).head? = cs.head? := by
  fun_cases breakAcronyms cs <;> simp [*]

/-- The text with a blank wherever a word ends. -/
def marked (cs : List Char) : List Char := breakAcronyms (breakRises cs)

theorem exists_marked (b : Char) (rest : List Char) : ∃ tail, marked (b :: rest) = b :: tail := by
  apply List.head?_eq_some_iff.mp
  rw [marked, head?_breakAcronyms, head?_breakRises, List.head?_cons]

/-- No blank comes between two capitals and the letter behind them before the second pass. -/
theorem exists_breakRises (b : Char) (rest : List Char) :
    ∃ tail, breakRises (b :: rest) = b :: tail ∧
      (isUpper b = true → tail.head? = rest.head?) := by
  cases rest with
  | nil => exact ⟨[], rfl, fun _ => rfl⟩
  | cons c rest =>
    rw [breakRises_pair]
    split
    next rises => exact ⟨_, rfl, fun capital => absurd rises (not_rises_of_isUpper capital)⟩
    next => exact ⟨_, rfl, fun _ => head?_breakRises _⟩

theorem marked_pair (a b : Char) (rest : List Char) :
    marked (a :: b :: rest) =
      if Breaks a b rest then a :: ' ' :: marked (b :: rest) else a :: marked (b :: rest) := by
  have blank : isUpper ' ' = false := by decide
  obtain ⟨tail, risen, behind⟩ := exists_breakRises b rest
  by_cases rises : Rises a b
  · have breaks : Breaks a b rest := .inl rises
    simp only [marked, breakRises_pair, risen, rises, if_true, breaks]
    rw [breakAcronyms_pair, if_neg (by simp [EndsAcronym, blank]), breakAcronyms_pair,
      if_neg (by simp [EndsAcronym, blank])]
  · have ends : EndsAcronym a b tail ↔ Breaks a b rest := by
      simp +contextual [Breaks, EndsAcronym, rises, behind]
    simp only [marked, breakRises_pair, risen, rises, if_false, breakAcronyms_pair, ends]

/-! ### Replacements -/

/-- A lower-case letter or digit, and the capital behind it. -/
inductive Rise : List Char → List Char → Prop
  | letters {a b : Char} (rises : Rises a b) : Rise [a] [b]

/-- Capitals, and the capital and lower-case letter behind them. This letter says where the capitals
end, so no two matches begin at one place. -/
inductive Acronym : List Char → List Char → Prop
  | letters {capitals : List Char} {b c : Char} (nonempty : capitals ≠ [])
      (upper : ∀ a ∈ capitals, isUpper a = true) (capital : isUpper b = true)
      (small : isLower c = true) : Acronym capitals [b, c]

/-- A text in which every match of a pattern has a blank between its two parts. Matches are taken
from left to right, each from where the one before it ends. -/
inductive Spaced (Match : List Char → List Char → Prop) : List Char → List Char → Prop
  | done : Spaced Match [] []
  | keep {c : Char} {cs out : List Char}
      (unmatched : ∀ first second rest, c :: cs = first ++ (second ++ rest) → ¬Match first second)
      (later : Spaced Match cs out) : Spaced Match (c :: cs) (c :: out)
  | space {first second rest out : List Char} (found : Match first second)
      (later : Spaced Match rest out) :
      Spaced Match (first ++ (second ++ rest)) (first ++ ' ' :: (second ++ out))

theorem exists_spaced {Match : List Char → List Char → Prop}
    (advances : ∀ first second, Match first second → first ≠ []) (cs : List Char) :
    ∃ out, Spaced Match cs out := by
  by_cases matched : ∃ first second rest, cs = first ++ (second ++ rest) ∧ Match first second
  · obtain ⟨first, second, rest, same, found⟩ := matched
    have shorter : rest.length < cs.length := by
      have := List.length_pos_iff.mpr (advances first second found)
      simp only [same, List.length_append]
      omega
    obtain ⟨out, later⟩ := exists_spaced advances rest
    subst same
    exact ⟨_, .space found later⟩
  · cases cs with
    | nil => exact ⟨[], .done⟩
    | cons c cs =>
      obtain ⟨out, later⟩ := exists_spaced advances cs
      refine ⟨c :: out, .keep (fun first second rest same found => ?_) later⟩
      exact matched ⟨first, second, rest, same, found⟩
termination_by cs.length

theorem spaced_iff {Match : List Char → List Char → Prop} {pass : List Char → List Char}
    (advances : ∀ first second, Match first second → first ≠ [])
    (only : ∀ out, Spaced Match cs out → out = pass cs) : Spaced Match cs out ↔ out = pass cs := by
  constructor
  · exact only out
  · rintro rfl
    obtain ⟨out, spaced⟩ := exists_spaced advances cs
    exact only out spaced ▸ spaced

theorem eq_breakRises (spaced : Spaced Rise cs out) : out = breakRises cs := by
  induction spaced with
  | done => rfl
  | @keep a cs out unmatched later ih =>
    subst ih
    cases cs with
    | nil => rfl
    | cons b rest =>
      have level : ¬Rises a b := fun rises => unmatched [a] [b] rest rfl (.letters rises)
      rw [breakRises_pair, if_neg level]
  | @space _ _ rest out found later ih =>
    subst ih
    obtain @⟨a, b, rises⟩ := found
    -- the capital of a match is the first character of no other
    have next : breakRises (b :: rest) = b :: breakRises rest := by
      cases rest with
      | nil => rfl
      | cons c rest => rw [breakRises_pair, if_neg (not_rises_of_isUpper rises.2)]
    simp [breakRises_pair, rises, next]

theorem spaced_rise_iff : Spaced Rise cs out ↔ out = breakRises cs := by
  refine spaced_iff (fun first second found => ?_) (fun _ => eq_breakRises)
  cases found
  exact List.cons_ne_nil _ _

theorem breakAcronyms_of_not_isUpper (small : isUpper a = false) (cs : List Char) :
    breakAcronyms (a :: cs) = a :: breakAcronyms cs := by
  cases cs with
  | nil => rfl
  | cons b rest => rw [breakAcronyms_pair, if_neg (by simp [EndsAcronym, small])]

/-- In a match the acronym ends behind its last capital but one, and nowhere before. -/
theorem breakAcronyms_acronym {capitals second : List Char} (found : Acronym capitals second)
    (rest : List Char) : breakAcronyms (capitals ++ (second ++ rest)) =
      capitals ++ ' ' :: (second ++ breakAcronyms rest) := by
  obtain @⟨b, c, nonempty, upper, capital, small⟩ := found
  have large := not_isUpper_of_isLower small
  have last : breakAcronyms (b :: c :: rest) = b :: c :: breakAcronyms rest := by
    rw [breakAcronyms_pair, if_neg (by simp [EndsAcronym, large]),
      breakAcronyms_of_not_isUpper large]
  simp only [List.cons_append, List.nil_append]
  induction capitals with
  | nil => exact absurd rfl nonempty
  | cons a capitals ih =>
    have first := upper a List.mem_cons_self
    cases capitals with
    | nil =>
      have ends : EndsAcronym a b (c :: rest) := ⟨first, capital, by simp [small]⟩
      simp [breakAcronyms_pair, ends, last]
    | cons next capitals =>
      have others : ∀ a ∈ next :: capitals, isUpper a = true :=
        fun a member => upper a (List.mem_cons_of_mem _ member)
      have whole : ¬EndsAcronym a next (capitals ++ b :: c :: rest) := by
        rintro ⟨-, -, behind⟩
        cases capitals with
        | nil => simp [not_isLower_of_isUpper capital] at behind
        | cons third capitals => simp [not_isLower_of_isUpper (others third (by simp))] at behind
      have later := ih (List.cons_ne_nil _ _) others
      rw [List.cons_append] at later
      rw [List.cons_append, List.cons_append, breakAcronyms_pair, if_neg whole, later]
      rfl

theorem eq_breakAcronyms (spaced : Spaced Acronym cs out) : out = breakAcronyms cs := by
  induction spaced with
  | done => rfl
  | @keep a cs out unmatched later ih =>
    subst ih
    cases cs with
    | nil => rfl
    | cons b rest =>
      have whole : ¬EndsAcronym a b rest := by
        rintro ⟨first, capital, behind⟩
        cases rest with
        | nil => cases behind
        | cons c rest =>
          exact unmatched [a] [b, c] rest rfl
            (.letters (List.cons_ne_nil _ _) (by simpa using first) capital behind)
      rw [breakAcronyms_pair, if_neg whole]
  | space found later ih => rw [ih, breakAcronyms_acronym found]

theorem spaced_acronym_iff : Spaced Acronym cs out ↔ out = breakAcronyms cs := by
  refine spaced_iff (fun first second found => ?_) (fun _ => eq_breakAcronyms)
  cases found
  assumption

end ActionCatalogue.Naming
