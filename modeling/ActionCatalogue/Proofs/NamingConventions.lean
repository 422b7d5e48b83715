import ActionCatalogue.Proofs.Words

/-!
App names, keys and labels next to one another. Each convention puts the words of a name into a
case of its own, whatever case they come in, and a key or a label still shows the words it is made
of. So a convention gives for the key or the label of a name what it gives for the name itself. The
texts that are keys of themselves are the empty one and those written in the form of keys.
-/

namespace ActionCatalogue.Naming

open Ascii

variable {s : String} {w : List Char}

/-! ### One case put over another -/

theorem titleWord_lowerWord (w : List Char) : titleWord (lowerWord w) = titleWord w := by
  cases w with
  | nil => rfl
  | cons c rest =>
    rw [lowerWord, List.map_cons, titleWord, titleWord, toUpper_toLower]
    exact congrArg (c.toUpper :: ·) (lowerWord_lowerWord rest)

theorem lowerWord_titleWord (w : List Char) : lowerWord (titleWord w) = lowerWord w := by
  cases w with
  | nil => rfl
  | cons c rest =>
    rw [titleWord, lowerWord, List.map_cons, toLower_toUpper]
    exact congrArg (c.toLower :: ·) (lowerWord_lowerWord rest)

theorem titleWord_titleWord (w : List Char) : titleWord (titleWord w) = titleWord w := by
  rw [← titleWord_lowerWord (titleWord w), lowerWord_titleWord, titleWord_lowerWord]

/-! ### One convention put over another -/

theorem label_label (s : String) : label (label s) = label s := by
  rw [label, map_wordsOf_label titleWord_titleWord, label]

theorem label_key (s : String) : label (key s) = label s := by
  rw [label, map_wordsOf_key titleWord_lowerWord, label]

theorem key_label (s : String) : key (label s) = key s := by
  rw [key, map_wordsOf_label lowerWord_titleWord, key]

theorem appName_key (s : String) : appName (key s) = appName s := by
  rw [appName, map_wordsOf_key titleWord_lowerWord, appName]

theorem lowerWord_eq_self (small : ∀ c ∈ w, isUpper c = false) : lowerWord w = w := by
  refine (List.map_congr_left fun c member => ?_).trans (List.map_id w)
  exact toLower_of_not_isUpper (small c member)

/-- A text in the form of a key has its groups as words, and their case is that of keys. -/
theorem IsKey.key_eq (isKey : IsKey s) : key s = s := by
  obtain ⟨groups, -, small, rfl⟩ := isKey
  have capitals : ∀ g ∈ groups, ∀ c ∈ g, isUpper c = false :=
    fun g member c inside => not_isUpper_of_low ((small g member).2 c inside)
  have words : ∀ g ∈ groups, IsWord g := by
    intro g member
    refine ⟨(small g member).1, fun c inside => ?_, fun c inside => ?_⟩
    · have low := (small g member).2 c inside
      simp_all [isAlphanumeric, or_assoc]
    · exact capitals g member c (List.mem_of_mem_tail inside)
  have unchanged : groups.map lowerWord = groups :=
    (List.map_congr_left fun g member => lowerWord_eq_self (capitals g member)).trans
      (List.map_id groups)
  rw [key, String.toList_ofList, wordsOf_intercalate (by decide) words, unchanged]

theorem key_eq_self_iff : key s = s ↔ s = "" ∨ IsKey s := by
  constructor
  · intro same
    by_cases words : HasWord s
    · exact .inr (same ▸ isKey_key words)
    · exact .inl (same.symm.trans (key_eq_empty_iff.mpr words))
  · rintro (rfl | isKey)
    · exact key_eq_empty_iff.mpr (by simp [HasWord])
    · exact isKey.key_eq

/-- A convention put over a key or a label gives what it gives for the name they come from: a key
is never renamed, and it has the label and the app name of its source. -/
theorem conventions_agree (s : String) :
    key (key s) = key s ∧ label (label s) = label s ∧ label (key s) = label s ∧
      key (label s) = key s ∧ appName (key s) = appName s ∧
      (key s = s ↔ s = "" ∨ IsKey s) :=
  ⟨key_key s, label_label s, label_key s, key_label s, appName_key s, key_eq_self_iff⟩

end ActionCatalogue.Naming
