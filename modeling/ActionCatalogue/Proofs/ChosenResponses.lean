import ActionCatalogue.Swagger.Derivation
import ActionCatalogue.Swagger.Reader

/-!
The response that says what an action answers. A key stands for success when it is written as a
number from 200 to 299: in decimal digits, leading zeros and one plus in front allowed. Of the
responses under such keys the first with the lowest number counts, and where there is none the
default. No other key makes a difference, and where no two keys write the same number the order of
the responses makes none.
-/

namespace ActionCatalogue.Ascii

variable {c : Char} {cs : List Char} {n : Nat}

/-- Letters have values too, but none below ten. -/
theorem decimal_step (n : Nat) (c : Char) :
    (do let d ← digitValue? c; if d < 10 then some (n * 10 + d) else none) =
      if isDigit c then some (10 * n + (c.toNat - '0'.toNat)) else none := by
  by_cases digit : isDigit c = true
  · have bounds := isDigit_iff.mp digit
    have zero : '0'.toNat = 48 := rfl
    have below : c.toNat - 48 < 10 := by omega
    simp [digitValue?, digit, zero, below, Nat.mul_comm]
  · simp only [digitValue?, digit]
    grind

theorem foldlM_decimal (init : Nat) :
    cs.foldlM (fun n c => do
      let d ← digitValue? c
      if d < 10 then some (n * 10 + d) else none) init = some n ↔
      (∀ c ∈ cs, isDigit c = true) ∧ Nat.ofDigitChars 10 cs init = n := by
  induction cs generalizing init with
  | nil => simp
  | cons c cs ih =>
    rw [List.foldlM_cons, decimal_step, Nat.ofDigitChars_cons]
    by_cases digit : isDigit c = true
    · rw [if_pos digit]
      exact (ih _).trans (by simp [digit])
    · simp [digit]

theorem digits?_eq_some_iff : digits? 10 cs = some n ↔
    cs ≠ [] ∧ (∀ c ∈ cs, isDigit c = true) ∧ Nat.ofDigitChars 10 cs 0 = n := by
  cases cs with
  | nil => simp [digits?]
  | cons c cs =>
    rw [digits?, if_neg (by simp), foldlM_decimal]
    simp

end ActionCatalogue.Ascii

namespace ActionCatalogue.Swagger

open Ascii

variable {key : String} {code : Nat} {r : Shared Response}
  {responses before after : Entries (Shared Response)} {op : Operation}

/-! ### Status codes -/

/-- A key writes a number of 16 bits: in decimal digits, a plus in front of them or not. -/
def Writes (key : String) (code : Nat) : Prop :=
  ∃ digits, (key.toList = digits ∨ key.toList = '+' :: digits) ∧ digits ≠ [] ∧
    (∀ c ∈ digits, isDigit c = true) ∧ Nat.ofDigitChars 10 digits 0 = code ∧ code < UInt16.size

theorem statusCode?_eq_some_iff : statusCode? key = some code ↔ Writes key code := by
  have read (digits : List Char) :
      (digits? 10 digits).filter (· < Nat.pow 2 16) = some code ↔ digits ≠ [] ∧
        (∀ c ∈ digits, isDigit c = true) ∧ Nat.ofDigitChars 10 digits 0 = code ∧
          code < UInt16.size := by
    simp [Option.filter_eq_some_iff, digits?_eq_some_iff, and_assoc]
  have plus : isDigit '+' = false := by decide
  unfold statusCode?
  split
  case h_1 digits spelled =>
    rw [read]
    constructor
    · exact fun written => ⟨digits, .inr spelled, written⟩
    · rintro ⟨others, same | same, written⟩
      · -- a plus is no digit
        rw [spelled] at same
        have first := written.2.1 '+' (same ▸ List.mem_cons_self)
        rw [plus] at first
        cases first
      · obtain rfl : others = digits := by simpa [spelled] using same.symm
        exact written
  case h_2 unsigned =>
    rw [read]
    constructor
    · exact fun written => ⟨key.toList, .inl rfl, written⟩
    · rintro ⟨digits, same | same, written⟩
      · exact same ▸ written
      · exact absurd same (unsigned digits)

/-- A key that a document gives as a number writes this number. -/
theorem writes_number_iff {n : Nat} :
    Writes (StatusKey.code n).toText code ↔ n = code ∧ n < UInt16.size := by
  have spelled : (StatusKey.code n).toText.toList = Nat.toDigits 10 n := Nat.toList_repr
  have digits : ∀ c ∈ Nat.toDigits 10 n, isDigit c = true := by
    intro c member
    rw [isDigit_eq]
    exact Nat.isDigit_of_mem_toDigits (by decide) (by decide) member
  have value : Nat.ofDigitChars 10 (Nat.toDigits 10 n) 0 = n :=
    Nat.ofDigitChars_toDigits (by decide) (by decide)
  constructor
  · rintro ⟨given, same | same, written⟩
    · obtain rfl : Nat.toDigits 10 n = given := spelled.symm.trans same
      exact ⟨value.symm.trans written.2.2.1, by have := written.2.2; omega⟩
    · have first := digits '+' (by rw [← spelled, same]; exact List.mem_cons_self)
      exact absurd first (by decide)
  · rintro ⟨rfl, small⟩
    exact ⟨_, .inl spelled, Nat.toDigits_ne_nil, digits, value, small⟩

/-! ### The first of the lowest -/

theorem lowest?_eq_none_iff {α : Type} {entries : List (Nat × α)} :
    lowest? entries = none ↔ entries = [] := by
  cases entries with
  | nil => simp [lowest?]
  | cons entry rest =>
    rw [lowest?]
    split
    · split <;> simp
    · simp

theorem of_lowest? {α : Type} {entries : List (Nat × α)} {lowest : Nat × α}
    (found : lowest? entries = some lowest) : ∃ before after, entries = before ++ lowest :: after ∧
      (∀ entry ∈ before, lowest.1 < entry.1) ∧ ∀ entry ∈ after, lowest.1 ≤ entry.1 := by
  induction entries generalizing lowest with
  | nil => cases found
  | cons first rest ih =>
    unfold lowest? at found
    split at found
    case h_1 other later =>
      obtain ⟨before, after, rfl, lower, least⟩ := ih later
      split at found
      case isTrue below =>
        cases found
        exact ⟨first :: before, after, rfl, List.forall_mem_cons.mpr ⟨below, lower⟩, least⟩
      case isFalse notBelow =>
        cases found
        refine ⟨[], _, rfl, by simp, fun entry member => ?_⟩
        have atLeast : other.1 ≤ entry.1 := by
          rcases List.mem_append.mp member with earlier | member
          · exact Nat.le_of_lt (lower entry earlier)
          · rcases List.mem_cons.mp member with rfl | later
            · exact Nat.le_refl _
            · exact least entry later
        omega
    case h_2 none =>
      cases found
      rw [lowest?_eq_none_iff.mp none]
      exact ⟨[], [], rfl, by simp, by simp⟩

theorem lowest?_eq_some_iff {α : Type} {entries : List (Nat × α)} {lowest : Nat × α} :
    lowest? entries = some lowest ↔ ∃ before after, entries = before ++ lowest :: after ∧
      (∀ entry ∈ before, lowest.1 < entry.1) ∧ ∀ entry ∈ after, lowest.1 ≤ entry.1 := by
  constructor
  · exact of_lowest?
  · rintro ⟨before, after, rfl, lower, least⟩
    induction before with
    | nil =>
      rw [List.nil_append, lowest?]
      split
      next other later =>
        obtain ⟨front, back, rfl, -⟩ := of_lowest? later
        have atLeast : lowest.1 ≤ other.1 := least other (by simp)
        rw [if_neg (by omega)]
      next => rfl
    | cons first before ih =>
      obtain ⟨below, lower⟩ := List.forall_mem_cons.mp lower
      rw [List.cons_append, lowest?, ih lower]
      simp only [below, if_true]

/-! ### The choice -/

/-- A key writes a number that stands for success. -/
def Succeeds (key : String) (code : Nat) : Prop := Writes key code ∧ 200 ≤ code ∧ code < 300

/-- What is chosen from the responses of an operation: the first under the lowest number that stands
for success, and the default where there is none. -/
inductive Chosen (responses : Entries (Shared Response)) : Option (Shared Response) → Prop
  | success {before after : Entries (Shared Response)} {key : String} {code : Nat}
      {r : Shared Response} (place : responses = before ++ (key, r) :: after)
      (succeeds : Succeeds key code)
      (lower : ∀ entry ∈ before, ∀ other, Succeeds entry.1 other → code < other)
      (lowest : ∀ entry ∈ after, ∀ other, Succeeds entry.1 other → code ≤ other) :
      Chosen responses (some r)
  | default (none : ∀ key ∈ Entries.keys responses, ∀ code, ¬Succeeds key code) :
      Chosen responses (Entries.lookup "default" responses)

/-- An entry whose key stands for success, with the number that the key writes. -/
def success? (entry : String × Shared Response) : Option (Nat × Shared Response) :=
  ((statusCode? entry.1).filter fun code => 200 ≤ code && code < 300).map (·, entry.2)

theorem successes_eq (responses : Entries (Shared Response)) :
    successes responses = responses.filterMap success? := by
  rw [successes, List.filter_filterMap]
  congr 1
  funext entry
  rw [success?, Option.filter_map]
  rfl

theorem success?_eq_some_iff {entry : String × Shared Response} {found : Nat × Shared Response} :
    success? entry = some found ↔ Succeeds entry.1 found.1 ∧ found.2 = entry.2 := by
  simp only [success?, Option.map_eq_some_iff, Option.filter_eq_some_iff, statusCode?_eq_some_iff,
    Bool.and_eq_true, decide_eq_true_eq]
  constructor
  · rintro ⟨code, succeeds, rfl⟩
    exact ⟨succeeds, rfl⟩
  · rintro ⟨succeeds, same⟩
    exact ⟨found.1, succeeds, Prod.ext rfl same.symm⟩

theorem success?_eq_none_iff {entry : String × Shared Response} :
    success? entry = none ↔ ∀ code, ¬Succeeds entry.1 code := by
  simp [Option.eq_none_iff_forall_ne_some, success?_eq_some_iff]

theorem mem_filterMap_success? {entry : String × Shared Response} (member : entry ∈ responses)
    (succeeds : Succeeds entry.1 code) : (code, entry.2) ∈ responses.filterMap success? :=
  List.mem_filterMap.mpr ⟨entry, member, success?_eq_some_iff.mpr ⟨succeeds, rfl⟩⟩

theorem Succeeds.unique {other : Nat} (succeeds : Succeeds key code) (again : Succeeds key other) :
    code = other := by
  have first := statusCode?_eq_some_iff.mpr succeeds.1
  exact Option.some.inj (first.symm.trans (statusCode?_eq_some_iff.mpr again.1))

/-- Something is chosen from all responses. -/
theorem chosen_successResponse? (op : Operation) : Chosen op.responses (successResponse? op) := by
  rw [successResponse?, successes_eq]
  split
  next code r found =>
    obtain ⟨front, back, split, lower, least⟩ := lowest?_eq_some_iff.mp found
    obtain ⟨before, rest, place, rfl, followed⟩ := List.filterMap_eq_append_iff.mp split
    obtain ⟨idle, ⟨key, given⟩, after, rfl, none, succeeds, rfl⟩ :=
      List.filterMap_eq_cons_iff.mp followed
    obtain ⟨succeeds, same⟩ := success?_eq_some_iff.mp succeeds
    obtain rfl : r = given := same
    rw [← List.append_assoc] at place
    refine .success place succeeds (fun entry member other counts => ?_)
      fun entry member other counts => least _ (mem_filterMap_success? member counts)
    rcases List.mem_append.mp member with earlier | skipped
    · exact lower _ (mem_filterMap_success? earlier counts)
    · exact absurd counts (success?_eq_none_iff.mp (none entry skipped) other)
  next none =>
    refine .default fun key member code counts => ?_
    obtain ⟨entry, among, rfl⟩ := List.mem_map.mp member
    have counted := mem_filterMap_success? among counts
    rw [lowest?_eq_none_iff.mp none] at counted
    cases counted

theorem Chosen.eq {chosen : Option (Shared Response)} (choice : Chosen op.responses chosen) :
    successResponse? op = chosen := by
  rw [successResponse?, successes_eq]
  cases choice with
  | @success before after key code r place succeeds lower least =>
    have counted : success? (key, r) = some (code, r) := success?_eq_some_iff.mpr ⟨succeeds, rfl⟩
    have found : lowest? (op.responses.filterMap success?) = some (code, r) := by
      rw [place, List.filterMap_append, List.filterMap_cons_some counted, lowest?_eq_some_iff]
      refine ⟨_, _, rfl, fun other member => ?_, fun other member => ?_⟩
      all_goals
        obtain ⟨entry, among, counts⟩ := List.mem_filterMap.mp member
        have succeeds := (success?_eq_some_iff.mp counts).1
      · exact lower entry among _ succeeds
      · exact least entry among _ succeeds
    rw [found]
  | default none =>
    have uncounted : op.responses.filterMap success? = [] := by
      refine List.filterMap_eq_nil_iff.mpr fun entry member => success?_eq_none_iff.mpr ?_
      exact none entry.1 (List.mem_map_of_mem member)
    rw [uncounted]
    rfl

theorem successResponse?_eq_iff {chosen : Option (Shared Response)} :
    successResponse? op = chosen ↔ Chosen op.responses chosen := by
  constructor
  · rintro rfl
    exact chosen_successResponse? op
  · exact Chosen.eq

/-- A response whose key does not stand for success and is not the default is passed over. -/
theorem successResponse?_idle (place : op.responses = before ++ (key, r) :: after)
    (other : key ≠ "default") (idle : ∀ code, ¬Succeeds key code) :
    successResponse? op = successResponse? { op with responses := before ++ after } := by
  have uncounted : success? (key, r) = none := success?_eq_none_iff.mpr idle
  simp only [successResponse?, successes_eq, place, List.filterMap_append,
    List.filterMap_cons_none uncounted, Entries.lookup_append, Entries.lookup_cons, other, if_false]

/-- No two keys write the same number, as far as it stands for success. -/
def Unambiguous (responses : Entries (Shared Response)) : Prop :=
  ∀ first ∈ Entries.keys responses, ∀ second ∈ Entries.keys responses, ∀ code,
    Succeeds first code → Succeeds second code → first = second

theorem Chosen.perm {others : Entries (Shared Response)} {chosen : Option (Shared Response)}
    (choice : Chosen responses chosen) (same : responses.Perm others)
    (distinct : (Entries.keys responses).Nodup) (unambiguous : Unambiguous responses) :
    Chosen others chosen := by
  have keys : (Entries.keys responses).Perm (Entries.keys others) := same.map Prod.fst
  cases choice with
  | @success before after key code r place succeeds lower least =>
    have member : (key, r) ∈ responses := by simp [place]
    have atLeast (entry) (among : entry ∈ responses) (other) (counts : Succeeds entry.1 other) :
        code ≤ other := by
      subst place
      rcases List.mem_append.mp among with earlier | among
      · exact Nat.le_of_lt (lower entry earlier other counts)
      · rcases List.mem_cons.mp among with rfl | later
        · exact Nat.le_of_eq (succeeds.unique counts)
        · exact least entry later other counts
    obtain ⟨front, back, rfl⟩ := List.mem_iff_append.mp (same.mem_iff.mp member)
    have alone : key ∉ Entries.keys front := by
      have apart := keys.nodup_iff.mp distinct
      rw [Entries.keys_append] at apart
      exact fun again => (List.nodup_append.mp apart).2.2 key again key List.mem_cons_self rfl
    refine .success rfl succeeds (fun entry among other counts => ?_) fun entry among =>
      atLeast entry (same.mem_iff.mpr (by simp [among]))
    have given : entry ∈ responses := same.mem_iff.mpr (List.mem_append_left _ among)
    refine Nat.lt_of_le_of_ne (atLeast entry given other counts) ?_
    rintro rfl
    -- two keys with the lowest number would be one key
    have sameKey : entry.1 = key := unambiguous _ (List.mem_map_of_mem given) _
      (List.mem_map_of_mem member) _ counts succeeds
    exact alone (sameKey ▸ List.mem_map_of_mem among)
  | default none =>
    rw [Entries.lookup_perm same distinct]
    exact .default fun key member => none key (keys.mem_iff.mpr member)

/-- The response of an action is the first under the lowest number from 200 to 299 that a key
writes, and the default where no key writes one. All other keys are passed over, a code given as a
number is one given as a text, and the order of the responses counts for keys with the same number
alone. -/
theorem lowest_success_is_chosen (op : Operation) :
    (∀ chosen, successResponse? op = chosen ↔ Chosen op.responses chosen) ∧
    (∀ before key r after, op.responses = before ++ (key, r) :: after → key ≠ "default" →
      (∀ code, ¬Succeeds key code) →
        successResponse? op = successResponse? { op with responses := before ++ after }) ∧
    (∀ n code, Writes (StatusKey.code n).toText code ↔ n = code ∧ n < UInt16.size) ∧
    (∀ other : Operation, op.responses.Perm other.responses → (Entries.keys op.responses).Nodup →
      Unambiguous op.responses → successResponse? other = successResponse? op) := by
  refine ⟨fun _ => successResponse?_eq_iff, fun _ _ _ _ place other idle => ?_, fun _ _ => ?_, ?_⟩
  · exact successResponse?_idle place other idle
  · exact writes_number_iff
  · intro other same distinct unambiguous
    exact ((chosen_successResponse? op).perm same distinct unambiguous).eq

/-- Success under a padded code, a signed one and one that is not read. -/
def purchase : Operation :=
  { responses := [("2XX", .pointer "#/responses/Any"), ("0201", .pointer "#/responses/Made"),
      ("+200", .pointer "#/responses/Found"), ("default", .pointer "#/responses/Other")] }

def upturned : Operation := { responses := purchase.responses.reverse }

theorem signed_code_is_chosen :
    successResponse? purchase = some (.pointer "#/responses/Found") ∧
    Chosen purchase.responses (some (.pointer "#/responses/Found")) ∧
    purchase.responses = [] ++ ("2XX", .pointer "#/responses/Any") :: purchase.responses.tail ∧
    "2XX" ≠ "default" ∧ (∀ code, ¬Succeeds "2XX" code) ∧
    successResponse? purchase =
      successResponse? { purchase with responses := [] ++ purchase.responses.tail } ∧
    purchase.responses.Perm upturned.responses ∧ (Entries.keys purchase.responses).Nodup ∧
    Unambiguous purchase.responses ∧ successResponse? upturned = successResponse? purchase := by
  obtain ⟨chosen, passes, -, ordered⟩ := lowest_success_is_chosen purchase
  have found : successResponse? purchase = some (.pointer "#/responses/Found") := rfl
  have unread : statusCode? "2XX" = none := by decide +kernel
  have wild : ∀ code, ¬Succeeds "2XX" code := by
    intro code counts
    have read := statusCode?_eq_some_iff.mpr counts.1
    rw [unread] at read
    cases read
  have turned : purchase.responses.Perm upturned.responses := (List.reverse_perm _).symm
  have distinct : (Entries.keys purchase.responses).Nodup := by decide
  have apart : ∀ first ∈ Entries.keys purchase.responses,
      ∀ second ∈ Entries.keys purchase.responses, (statusCode? first).isSome = true →
        statusCode? first = statusCode? second → first = second := by
    decide +kernel
  have unambiguous : Unambiguous purchase.responses := by
    intro first among second others code counts again
    have read := statusCode?_eq_some_iff.mpr counts.1
    refine apart first among second others (by rw [read]; rfl) ?_
    rw [read, statusCode?_eq_some_iff.mpr again.1]
  exact ⟨found, (chosen _).mp found, rfl, by decide, wild, passes [] _ _ _ rfl (by decide) wild,
    turned, distinct, unambiguous, ordered upturned turned distinct unambiguous⟩

end ActionCatalogue.Swagger
