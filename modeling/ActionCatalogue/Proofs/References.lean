import Mathlib.Data.List.Infix
import Mathlib.Data.List.TakeWhile
import ActionCatalogue.Manifest.Expansion

/-!
How references stand in a text. A reference is written in one way, and where one begins its name and
its default are fixed, whatever follows. The parts of a text are its references, the leftmost one
first, and the characters at which none begins; a text in which no reference begins anywhere
consists of characters alone.
-/

namespace ActionCatalogue.Expansion

/-- A letter or an underscore, then letters, digits and underscores. -/
def IsName (name : String) : Prop :=
  ∃ first rest, name.toList = first :: rest ∧ Ascii.isNameStart first = true ∧
    ∀ c ∈ rest, Ascii.isNameChar c = true

/-- A default reaches to the first closing brace, so it has none. -/
structure IsReference (name : String) (default : Option String) : Prop where
  isName : IsName name
  closed : ∀ text, default = some text → '\x7d' ∉ text.toList

def writtenDefault : Option String → List Char
  | none => []
  | some text => ':' :: text.toList

def written (name : String) (default : Option String) : List Char :=
  '$' :: '\x7b' :: (name.toList ++ (writtenDefault default ++ ['\x7d']))

/-- A reference stands at the start of a text. -/
def Begins (cs : List Char) : Prop :=
  ∃ name default after, IsReference name default ∧ cs = written name default ++ after

section Reading

variable {name : String} {default : Option String} {cs after : List Char}

theorem takeWhile_stop {p : Char → Bool} {word rest : List Char} {c : Char}
    (all : ∀ x ∈ word, p x = true) (stop : p c = false) :
    (word ++ c :: rest).takeWhile p = word := by
  rw [List.takeWhile_append_of_pos all, List.takeWhile_cons_of_neg (by simp [stop]),
    List.append_nil]

theorem dropWhile_stop {p : Char → Bool} {word rest : List Char} {c : Char}
    (all : ∀ x ∈ word, p x = true) (stop : p c = false) :
    (word ++ c :: rest).dropWhile p = c :: rest := by
  rw [List.dropWhile_append_of_pos all, List.dropWhile_cons_of_neg (by simp [stop])]

theorem reference?_written (reference : IsReference name default) (after : List Char) :
    reference? (written name default ++ after) = some (name, default, after) := by
  obtain ⟨first, rest, spelled, starts, goes⟩ := reference.isName
  have named : String.ofList (first :: rest) = name := by rw [← spelled, String.ofList_toList]
  cases default with
  | none =>
    have text :
        written name none ++ after = '$' :: '\x7b' :: first :: (rest ++ '\x7d' :: after) := by
      simp [written, writtenDefault, spelled]
    have stop : Ascii.isNameChar '\x7d' = false := by decide
    simp only [text, reference?, starts, if_true, takeWhile_stop goes stop,
      dropWhile_stop goes stop, named]
  | some value =>
    have text : written name (some value) ++ after =
        '$' :: '\x7b' :: first :: (rest ++ ':' :: (value.toList ++ '\x7d' :: after)) := by
      simp [written, writtenDefault, spelled]
    have stop : Ascii.isNameChar ':' = false := by decide
    have inside : ∀ c ∈ value.toList, (decide (c ≠ '\x7d')) = true := by
      intro c member
      have different : c ≠ '\x7d' := fun same => reference.closed value rfl (same ▸ member)
      simpa using different
    have brace : (decide ('\x7d' ≠ '\x7d')) = false := by decide
    simp only [text, reference?, starts, if_true, takeWhile_stop goes stop,
      dropWhile_stop goes stop, takeWhile_stop inside brace, dropWhile_stop inside brace, named,
      String.ofList_toList]

/-- The text before a first closing brace and the one behind it. -/
theorem split_at_brace {more : List Char} {brace : Char}
    (closing : more.dropWhile (· ≠ '\x7d') = brace :: after) :
    '\x7d' ∉ more.takeWhile (· ≠ '\x7d') ∧
      more.takeWhile (· ≠ '\x7d') ++ '\x7d' :: after = more := by
  have left : more.dropWhile (· ≠ '\x7d') ≠ [] := by
    rw [closing]
    exact List.cons_ne_nil _ _
  have stop := List.head_dropWhile_not (· ≠ '\x7d') left
  simp only [closing, List.head_cons, decide_eq_false_iff_not, not_not] at stop
  subst stop
  constructor
  · intro member
    simpa using List.mem_takeWhile_imp member
  · rw [← closing]
    exact List.takeWhile_append_dropWhile

theorem of_reference? (found : reference? cs = some (name, default, after)) :
    IsReference name default ∧ cs = written name default ++ after := by
  unfold reference? at found
  split at found
  case h_2 => cases found
  case h_1 first rest =>
    by_cases starts : Ascii.isNameStart first = true
    case neg => simp [starts] at found
    simp only [starts, if_true] at found
    have goes : ∀ c ∈ rest.takeWhile Ascii.isNameChar, Ascii.isNameChar c = true :=
      fun c member => List.mem_takeWhile_imp member
    have isName : IsName (String.ofList (first :: rest.takeWhile Ascii.isNameChar)) :=
      ⟨first, _, String.toList_ofList, starts, goes⟩
    have whole : rest.takeWhile Ascii.isNameChar ++ rest.dropWhile Ascii.isNameChar = rest :=
      List.takeWhile_append_dropWhile
    -- behind the name stands the closing brace or a default; with anything else there is none
    split at found
    case h_1 after left =>
      cases found
      refine ⟨⟨isName, nofun⟩, ?_⟩
      rw [left] at whole
      simp [written, writtenDefault, whole]
    case h_2 more left =>
      split at found
      case h_2 => cases found
      case h_1 brace after closing =>
        cases found
        obtain ⟨inside, rejoined⟩ := split_at_brace closing
        refine ⟨⟨isName, ?_⟩, ?_⟩
        · rintro text ⟨rfl⟩
          rw [String.toList_ofList]
          exact inside
        · rw [left] at whole
          simp only [written, writtenDefault, String.toList_ofList, List.cons_append,
            List.append_assoc, List.nil_append, rejoined, whole]
    case h_3 => cases found

theorem reference?_eq_some_iff :
    reference? cs = some (name, default, after) ↔
      IsReference name default ∧ cs = written name default ++ after := by
  constructor
  · exact of_reference?
  · rintro ⟨reference, rfl⟩
    exact reference?_written reference after

theorem reference?_eq_none_iff : reference? cs = none ↔ ¬Begins cs := by
  simp only [Option.eq_none_iff_forall_ne_some, Prod.forall, ne_eq, reference?_eq_some_iff, Begins,
    not_exists]

/-- What follows a reference makes no difference to it. -/
theorem Begins.append (begins : Begins cs) (more : List Char) : Begins (cs ++ more) := by
  obtain ⟨name, default, after, reference, rfl⟩ := begins
  exact ⟨name, default, after ++ more, reference, List.append_assoc _ _ _⟩

end Reading

/-! ### Parts -/

section Parts

variable {name : String} {default : Option String} {c : Char} {cs rest : List Char}

theorem parts_nil : parts [] = [] := by
  rw [parts]
  rfl

theorem parts_keep (plain : ¬Begins (c :: rest)) : parts (c :: rest) = .char c :: parts rest := by
  rw [parts]
  split
  case h_1 found => exact absurd (reference?_eq_none_iff.mpr plain) (by simp [found])
  case h_2 => rfl

theorem parts_written (reference : IsReference name default) (after : List Char) :
    parts (written name default ++ after) = .reference name default :: parts after := by
  rw [parts]
  split
  case h_1 found =>
    rw [reference?_written reference] at found
    cases found
    rfl
  case h_2 missing =>
    rw [reference?_written reference] at missing
    cases missing

/-- Every text is made of characters at which no reference begins and of references. -/
@[elab_as_elim]
theorem text_induction {motive : List Char → Prop} (done : motive [])
    (keep : ∀ c rest, ¬Begins (c :: rest) → motive rest → motive (c :: rest))
    (replace : ∀ name default after, IsReference name default → motive after →
      motive (written name default ++ after))
    (cs : List Char) : motive cs := by
  induction cs using parts.induct with
  | case1 cs name default after found ih =>
    obtain ⟨reference, rfl⟩ := reference?_eq_some_iff.mp found
    exact replace name default after reference ih
  | case2 => exact done
  | case3 c rest missing ih => exact keep c rest (reference?_eq_none_iff.mp missing) ih

/-- No reference begins anywhere. -/
def Plain (cs : List Char) : Prop := ∀ after, after <:+ cs → ¬Begins after

theorem not_begins_nil : ¬Begins [] := by
  rintro ⟨name, default, after, -, text⟩
  simp [written] at text

theorem plain_nil : Plain [] := by
  intro after suffix
  rw [List.suffix_nil.mp suffix]
  exact not_begins_nil

theorem plain_cons_iff : Plain (c :: rest) ↔ ¬Begins (c :: rest) ∧ Plain rest := by
  simp only [Plain, List.suffix_cons_iff, forall_eq_or_imp]

theorem parts_of_plain (plain : Plain cs) : parts cs = cs.map Part.char := by
  induction cs with
  | nil => exact parts_nil
  | cons c rest ih =>
    obtain ⟨here, later⟩ := plain_cons_iff.mp plain
    rw [parts_keep here, ih later, List.map_cons]

theorem mayRefer_iff : mayRefer cs = true ↔ ['$', '\x7b'] <:+: cs := by
  induction cs using mayRefer.induct with
  | case1 rest => simp [mayRefer, List.infix_cons_iff]
  | case2 c rest other ih =>
    rw [mayRefer, ih, List.infix_cons_iff]
    · have absent : ¬['$', '\x7b'] <+: c :: rest := by
        rintro ⟨after, text⟩
        cases text
        exact other after rfl rfl
      simp [absent]
    · exact other
  | case3 => simp [mayRefer]

theorem plain_of_not_mayRefer (never : mayRefer cs = false) : Plain cs := by
  intro after suffix begins
  obtain ⟨name, default, later, -, rfl⟩ := begins
  have opening : ['$', '\x7b'] <:+: written name default ++ later := mayRefer_iff.mp rfl
  have refers := mayRefer_iff.mpr (opening.trans suffix.isInfix)
  rw [never] at refers
  cases refers

theorem not_mem_parts_of_plain (plain : Plain cs) : Part.reference name default ∉ parts cs := by
  rw [parts_of_plain plain]
  simp

theorem mayRefer_of_mem_parts (member : Part.reference name default ∈ parts cs) :
    mayRefer cs = true := by
  by_contra never
  exact not_mem_parts_of_plain (plain_of_not_mayRefer (by simpa using never)) member

theorem isReference_of_mem_parts (member : Part.reference name default ∈ parts cs) :
    IsReference name default := by
  induction cs using text_induction with
  | done => simp [parts_nil] at member
  | keep c rest plain ih =>
    rw [parts_keep plain] at member
    exact ih (by simpa using member)
  | replace other own after reference ih =>
    rw [parts_written reference] at member
    rcases List.mem_cons.mp member with first | later
    · cases first
      exact reference
    · exact ih later

/-- A default has no reference of its own: it would have to be closed. -/
theorem IsReference.plain_default {text : String} (reference : IsReference name (some text)) :
    Plain text.toList := by
  rintro after suffix ⟨other, own, later, -, rfl⟩
  refine reference.closed text rfl (suffix.subset ?_)
  simp [written]

end Parts

end ActionCatalogue.Expansion
