import Mathlib.Data.List.Chain
import ActionCatalogue.Text.Blank
import ActionCatalogue.Text.Naming

/-!
The words that names are made of. They are the ASCII letters and digits of a text in their order,
so there is a word exactly where there is a letter or a digit. Words without a capital after their
first character are found again when a character that belongs to no word joins them. Keys and labels
are such texts: the key of a key is that key, and a label has words wherever its name has.
-/

namespace ActionCatalogue.Ascii

theorem isBlankChar_of_isAlphanumeric {c : Char} (member : isAlphanumeric c = true) :
    Text.isBlankChar c = false := by
  rw [isAlphanumeric_iff] at member
  simp only [Text.isBlankChar, Text.blankRuns, List.any_cons, List.any_nil, Bool.or_false,
    Bool.or_eq_false_iff, Bool.and_eq_false_iff, decide_eq_false_iff_not]
  omega

theorem isBlankChar_of_isNameChar {c : Char} (member : isNameChar c = true) :
    Text.isBlankChar c = false := by
  simp only [isNameChar, Bool.or_eq_true, beq_iff_eq] at member
  rcases member with alphanumeric | rfl
  · exact isBlankChar_of_isAlphanumeric alphanumeric
  · decide

theorem isNameChar_of_isBlankChar {c : Char} (blank : Text.isBlankChar c = true) :
    isNameChar c = false := by
  by_contra member
  rw [isBlankChar_of_isNameChar (by simpa using member)] at blank
  cases blank

theorem isBlankChar_of_isNameStart {c : Char} (starts : isNameStart c = true) :
    Text.isBlankChar c = false := by
  apply isBlankChar_of_isNameChar
  simp only [isNameStart, isNameChar, isAlphanumeric, Bool.or_eq_true] at starts ⊢
  exact starts.imp_left .inl

end ActionCatalogue.Ascii

namespace ActionCatalogue.Naming

open Ascii

variable {s : String} {cs w : List Char} {ws : List (List Char)}

/-- A text has a word where one of its characters is an ASCII letter or digit. -/
def HasWord (s : String) : Prop := ∃ c ∈ s.toList, isAlphanumeric c = true

/-! ### Words hold the letters and digits -/

theorem filter_breakRises (cs : List Char) :
    (breakRises cs).filter isAlphanumeric = cs.filter isAlphanumeric := by
  have space : isAlphanumeric ' ' = false := by decide
  fun_induction breakRises cs <;> simp_all [List.filter_cons]

theorem filter_breakAcronyms (cs : List Char) :
    (breakAcronyms cs).filter isAlphanumeric = cs.filter isAlphanumeric := by
  have space : isAlphanumeric ' ' = false := by decide
  fun_induction breakAcronyms cs <;> simp_all [List.filter_cons]

theorem flatten_runsFrom (run cs : List Char) :
    (runsFrom run cs).flatten = run.reverse ++ cs.filter isAlphanumeric := by
  fun_induction runsFrom run cs <;> simp_all

theorem flatten_wordsOf (cs : List Char) : (wordsOf cs).flatten = cs.filter isAlphanumeric := by
  rw [wordsOf, flatten_runsFrom, filter_breakAcronyms, filter_breakRises]
  rfl

theorem ne_nil_of_mem_runsFrom {run : List Char} (member : w ∈ runsFrom run cs) : w ≠ [] := by
  fun_induction runsFrom run cs <;> grind [List.reverse_eq_nil_iff]

theorem ne_nil_of_mem_wordsOf (member : w ∈ wordsOf cs) : w ≠ [] :=
  ne_nil_of_mem_runsFrom member

theorem isAlphanumeric_of_mem_wordsOf (word : w ∈ wordsOf cs) {c : Char} (member : c ∈ w) :
    isAlphanumeric c = true := by
  have found : c ∈ (wordsOf cs).flatten := List.mem_flatten.mpr ⟨w, word, member⟩
  rw [flatten_wordsOf] at found
  exact (List.mem_filter.mp found).2

theorem wordsOf_eq_nil_iff : wordsOf s.toList = [] ↔ ¬HasWord s := by
  have emptied : wordsOf s.toList = [] ↔ (wordsOf s.toList).flatten = [] := by
    rw [List.flatten_eq_nil_iff]
    constructor
    · simp +contextual
    · intro empty
      exact List.eq_nil_iff_forall_not_mem.mpr fun w member =>
        ne_nil_of_mem_wordsOf member (empty w member)
  rw [emptied, flatten_wordsOf]
  simp [HasWord, List.filter_eq_nil_iff]

/-! ### Joined words -/

/-- A word without a capital after its first character. -/
structure IsWord (w : List Char) : Prop where
  nonempty : w ≠ []
  alphanumeric : ∀ c ∈ w, isAlphanumeric c = true
  capitals : ∀ c ∈ w.tail, isUpper c = false

/-- No capital follows a letter or digit. -/
def Unbroken (cs : List Char) : Prop :=
  cs.IsChain fun a b => isAlphanumeric a = true → isUpper b = false

theorem breakRises_of_unbroken (unbroken : Unbroken cs) : breakRises cs = cs := by
  fun_induction breakRises cs <;> simp_all [Unbroken, isAlphanumeric]

theorem breakAcronyms_of_unbroken (unbroken : Unbroken cs) : breakAcronyms cs = cs := by
  fun_induction breakAcronyms cs <;> simp_all [Unbroken, isAlphanumeric]

theorem IsWord.unbroken (word : IsWord w) : Unbroken w := by
  obtain ⟨first, rest, rfl⟩ := List.exists_cons_of_ne_nil word.nonempty
  refine List.Pairwise.isChain (List.pairwise_cons.mpr ⟨?_, ?_⟩)
  · exact fun c member _ => word.capitals c member
  · exact List.pairwise_of_forall_mem_list fun _ _ c member _ => word.capitals c member

theorem unbroken_intercalate {separator : Char} (separates : isAlphanumeric separator = false)
    (words : ∀ w ∈ ws, IsWord w) : Unbroken ([separator].intercalate ws) := by
  have small : isUpper separator = false := by
    simp only [isAlphanumeric, Bool.or_eq_false_iff] at separates
    exact separates.1.1
  induction ws with
  | nil => exact List.isChain_nil
  | cons w ws ih =>
    have first : Unbroken w := (words w List.mem_cons_self).unbroken
    have others := ih fun w member => words w (List.mem_cons_of_mem _ member)
    cases ws with
    | nil => simpa using first
    | cons next ws =>
      -- the capital in front of the next word follows the separator, which is in no word
      rw [List.intercalate_cons_cons, List.append_assoc]
      refine List.isChain_append.mpr ⟨first, ?_, ?_⟩
      · refine List.isChain_append.mpr ⟨List.isChain_singleton _, others, ?_⟩
        simp [separates]
      · simp [small]

theorem runsFrom_append (run : List Char) (word : ∀ c ∈ w, isAlphanumeric c = true) :
    runsFrom run (w ++ cs) = runsFrom (w.reverse ++ run) cs := by
  induction w generalizing run with
  | nil => rfl
  | cons c w ih =>
    simp_all [runsFrom]

theorem runsFrom_intercalate {separator : Char} (separates : isAlphanumeric separator = false)
    (words : ∀ w ∈ ws, IsWord w) : runsFrom [] ([separator].intercalate ws) = ws := by
  induction ws with
  | nil => rfl
  | cons w ws ih =>
    have word : IsWord w := words w List.mem_cons_self
    have others := ih fun w member => words w (List.mem_cons_of_mem _ member)
    cases ws with
    | nil =>
      have alone : runsFrom [] (w ++ []) = runsFrom (w.reverse ++ []) [] :=
        runsFrom_append [] word.alphanumeric
      simpa [runsFrom, word.nonempty] using alone
    | cons next ws =>
      rw [List.intercalate_cons_cons, List.append_assoc, runsFrom_append [] word.alphanumeric,
        List.append_nil, List.singleton_append, runsFrom, others]
      simp [separates, word.nonempty]

/-- Words that a separator joins are the words of the joined text. -/
theorem wordsOf_intercalate {separator : Char} (separates : isAlphanumeric separator = false)
    (words : ∀ w ∈ ws, IsWord w) : wordsOf ([separator].intercalate ws) = ws := by
  have unbroken := unbroken_intercalate separates words
  rw [wordsOf, breakRises_of_unbroken unbroken, breakAcronyms_of_unbroken unbroken,
    runsFrom_intercalate separates words]

/-- The words of a text in some casing, joined by a character. -/
def joined (separator : Char) (cased : List Char → List Char) (s : String) : String :=
  String.ofList ([separator].intercalate ((wordsOf s.toList).map cased))

section Joined

variable {separator : Char} {cased : List Char → List Char}
  (separates : isAlphanumeric separator = false) (words : ∀ w ∈ wordsOf s.toList, IsWord (cased w))

include separates words

theorem wordsOf_joined :
    wordsOf (joined separator cased s).toList = (wordsOf s.toList).map cased := by
  rw [joined, String.toList_ofList]
  refine wordsOf_intercalate separates fun w member => ?_
  obtain ⟨given, word, rfl⟩ := List.mem_map.mp member
  exact words given word

/-- What a case makes of the words of a joined text does not depend on the case they came in. -/
theorem map_wordsOf_joined {again : List Char → List Char}
    (absorbs : ∀ w, again (cased w) = again w) :
    (wordsOf (joined separator cased s).toList).map again = (wordsOf s.toList).map again := by
  rw [wordsOf_joined separates words, List.map_map]
  exact List.map_congr_left fun w _ => absorbs w

theorem hasWord_joined : HasWord (joined separator cased s) ↔ HasWord s := by
  rw [← not_iff_not, ← wordsOf_eq_nil_iff, ← wordsOf_eq_nil_iff, wordsOf_joined separates words,
    List.map_eq_nil_iff]

theorem joined_eq_empty_iff : joined separator cased s = "" ↔ ¬HasWord s := by
  constructor
  · intro empty
    rw [← hasWord_joined separates words, empty]
    simp [HasWord]
  · intro wordless
    rw [joined, wordsOf_eq_nil_iff.mpr wordless]
    rfl

end Joined

/-! ### Keys -/

theorem isUpper_of_mem_lowerWord {c : Char} (member : c ∈ lowerWord w) : isUpper c = false := by
  obtain ⟨given, -, rfl⟩ := List.mem_map.mp member
  exact isUpper_toLower given

theorem isWord_lowerWord (word : w ∈ wordsOf cs) : IsWord (lowerWord w) where
  nonempty := by
    simpa [lowerWord] using ne_nil_of_mem_wordsOf word
  alphanumeric c member := by
    obtain ⟨given, inside, rfl⟩ := List.mem_map.mp member
    rw [isAlphanumeric_toLower]
    exact isAlphanumeric_of_mem_wordsOf word inside
  capitals c member := isUpper_of_mem_lowerWord (List.mem_of_mem_tail member)

theorem lowerWord_lowerWord (w : List Char) : lowerWord (lowerWord w) = lowerWord w := by
  rw [lowerWord, lowerWord, List.map_map]
  exact List.map_congr_left fun c _ => toLower_toLower c

theorem map_wordsOf_key {again : List Char → List Char}
    (absorbs : ∀ w, again (lowerWord w) = again w) :
    (wordsOf (key s).toList).map again = (wordsOf s.toList).map again :=
  map_wordsOf_joined (by decide) (fun _ word => isWord_lowerWord word) absorbs

theorem hasWord_key : HasWord (key s) ↔ HasWord s :=
  hasWord_joined (by decide) fun _ word => isWord_lowerWord word

theorem key_eq_empty_iff : key s = "" ↔ ¬HasWord s :=
  joined_eq_empty_iff (by decide) fun _ word => isWord_lowerWord word

theorem key_key (s : String) : key (key s) = key s := by
  rw [key, map_wordsOf_key lowerWord_lowerWord, key]

/-- A key as it is written: groups of small letters and digits, joined by single underscores. -/
def IsKey (s : String) : Prop :=
  ∃ groups : List (List Char), groups ≠ [] ∧
    (∀ g ∈ groups, g ≠ [] ∧ ∀ c ∈ g, (isLower c || isDigit c) = true) ∧
    s = String.ofList (['_'].intercalate groups)

theorem isKey_key (words : HasWord s) : IsKey (key s) := by
  refine ⟨(wordsOf s.toList).map lowerWord, ?_, ?_, rfl⟩
  · intro empty
    exact wordsOf_eq_nil_iff.mp (List.map_eq_nil_iff.mp empty) words
  · intro g member
    obtain ⟨w, word, rfl⟩ := List.mem_map.mp member
    refine ⟨(isWord_lowerWord word).nonempty, fun c inside => ?_⟩
    have alphanumeric := (isWord_lowerWord word).alphanumeric c inside
    simpa [isAlphanumeric, isUpper_of_mem_lowerWord inside] using alphanumeric

/-! ### Labels -/

theorem isWord_titleWord (word : w ∈ wordsOf cs) : IsWord (titleWord w) := by
  obtain ⟨first, rest, rfl⟩ := List.exists_cons_of_ne_nil (ne_nil_of_mem_wordsOf word)
  have alphanumeric : ∀ c ∈ first :: rest, isAlphanumeric c = true :=
    fun c member => isAlphanumeric_of_mem_wordsOf word member
  refine ⟨List.cons_ne_nil _ _, ?_, fun c member => isUpper_of_mem_lowerWord member⟩
  simpa [titleWord, lowerWord, isAlphanumeric_toUpper, isAlphanumeric_toLower] using alphanumeric

theorem map_wordsOf_label {again : List Char → List Char}
    (absorbs : ∀ w, again (titleWord w) = again w) :
    (wordsOf (label s).toList).map again = (wordsOf s.toList).map again :=
  map_wordsOf_joined (by decide) (fun _ word => isWord_titleWord word) absorbs

theorem hasWord_label : HasWord (label s) ↔ HasWord s :=
  hasWord_joined (by decide) fun _ word => isWord_titleWord word

theorem label_eq_empty_iff : label s = "" ↔ ¬HasWord s :=
  joined_eq_empty_iff (by decide) fun _ word => isWord_titleWord word

theorem isBlank_of_hasWord (words : HasWord s) : Text.isBlank s = false := by
  obtain ⟨c, member, alphanumeric⟩ := words
  exact List.all_eq_false.mpr ⟨c, member, by simp [isBlankChar_of_isAlphanumeric alphanumeric]⟩

/-- A label says something where its name has a word. -/
theorem isBlank_label : Text.isBlank (label s) = false ↔ HasWord s := by
  constructor
  · intro filled
    by_contra wordless
    rw [label_eq_empty_iff.mpr wordless, Text.isBlank_empty] at filled
    exact absurd filled (by decide)
  · exact fun words => isBlank_of_hasWord (hasWord_label.mpr words)

end ActionCatalogue.Naming
