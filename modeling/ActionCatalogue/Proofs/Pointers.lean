import ActionCatalogue.Proofs.OperationErrors

/-!
What references address. A pointer has a section and one token, and the token spells a name: read
once from left to right, `~1` is a slash, `~0` a tilde and every other character itself. Exactly the
pointers to the names of a section lead somewhere. Every name can be spelled, and no two names have
one spelling, so only a definition without a name cannot be referred to.
-/

namespace ActionCatalogue.Swagger

namespace Pointer

variable {sectionName reference name : String} {digit meant a b : Char}
  {cs rest before after : List Char}

/-! ### Spelled names -/

/-- What a token spells. -/
def spelled : List Char → List Char
  | '~' :: '1' :: rest => '/' :: spelled rest
  | '~' :: '0' :: rest => '~' :: spelled rest
  | c :: rest => c :: spelled rest
  | [] => []

def escapeChar (c : Char) : List Char :=
  if c = '~' then ['~', '0'] else if c = '/' then ['~', '1'] else [c]

/-- The token that spells a name. -/
def escape (name : List Char) : List Char := name.flatMap escapeChar

theorem restore_pair (digit meant : Char) (rest : List Char) :
    restore digit meant ('~' :: digit :: rest) = meant :: restore digit meant rest := by
  rw [restore, if_pos ⟨rfl, rfl⟩]

theorem restore_of_ne (other : a ≠ '~') (rest : List Char) :
    restore digit meant (a :: rest) = a :: restore digit meant rest := by
  cases rest with
  | nil => rfl
  | cons b rest => rw [restore, if_neg fun pair => other pair.1]

theorem restore_tilde (other : rest.head? ≠ some digit) :
    restore digit meant ('~' :: rest) = '~' :: restore digit meant rest := by
  cases rest with
  | nil => rfl
  | cons b rest => rw [restore, if_neg fun pair => other (congrArg some pair.2)]

/-- What has been restored begins as before or with the restored character. -/
theorem head?_restore (digit meant : Char) (cs : List Char) :
    (restore digit meant cs).head? = cs.head? ∨ (restore digit meant cs).head? = some meant := by
  unfold restore
  split
  · split
    · exact .inr rfl
    · exact .inl rfl
  · exact .inl rfl

theorem unescape_slash (rest : List Char) :
    unescape ('~' :: '1' :: rest) = '/' :: unescape rest := by
  rw [unescape, restore_pair, restore_of_ne (by decide), unescape]

theorem unescape_tilde (rest : List Char) :
    unescape ('~' :: '0' :: rest) = '~' :: unescape rest := by
  rw [unescape, restore_tilde (by simp), restore_of_ne (a := '0') (by decide), restore_pair,
    unescape]

theorem unescape_of_ne (other : a ≠ '~') (rest : List Char) :
    unescape (a :: rest) = a :: unescape rest := by
  rw [unescape, restore_of_ne other, restore_of_ne other, unescape]

theorem unescape_lone (noSlash : rest.head? ≠ some '1') (noTilde : rest.head? ≠ some '0') :
    unescape ('~' :: rest) = '~' :: unescape rest := by
  -- the first pass leaves the next character or makes a slash of it, so no pair comes about
  have still : (restore '1' '/' rest).head? ≠ some '0' := by
    rcases head?_restore '1' '/' rest with same | slash
    · rwa [same]
    · simp [slash]
  rw [unescape, restore_tilde noSlash, restore_tilde still, unescape]

/-- Restoring slashes and then tildes reads a token once: the first makes no pair for the second. -/
theorem unescape_eq_spelled (token : List Char) : unescape token = spelled token := by
  induction token using spelled.induct with
  | case1 rest ih => rw [unescape_slash, ih, spelled]
  | case2 rest ih => rw [unescape_tilde, ih, spelled]
  | case3 c rest noSlash noTilde ih =>
    rw [spelled.eq_3 c rest noSlash noTilde, ← ih]
    by_cases tilde : c = '~'
    · subst tilde
      apply unescape_lone
      · rw [Ne, List.head?_eq_some_iff]
        exact fun ⟨later, next⟩ => noSlash later rfl next
      · rw [Ne, List.head?_eq_some_iff]
        exact fun ⟨later, next⟩ => noTilde later rfl next
    · exact unescape_of_ne tilde rest
  | case4 => rfl

theorem unescape_escape (name : List Char) : unescape (escape name) = name := by
  induction name with
  | nil => rfl
  | cons c rest ih =>
    rw [escape, List.flatMap_cons, ← escape, escapeChar]
    split
    next tilde => rw [List.cons_append, List.singleton_append, unescape_tilde, ih, tilde]
    next other =>
      split
      next slash => rw [List.cons_append, List.singleton_append, unescape_slash, ih, slash]
      next => rw [List.singleton_append, unescape_of_ne other, ih]

theorem slash_not_mem_escape (name : List Char) : '/' ∉ escape name := by
  intro member
  obtain ⟨c, -, among⟩ := List.mem_flatMap.mp member
  unfold escapeChar at among
  split at among
  · simp at among
  · split at among
    · simp at among
    next other => exact other (List.mem_singleton.mp among).symm

theorem escape_ne_nil {name : List Char} (filled : name ≠ []) : escape name ≠ [] := by
  intro empty
  apply filled
  rw [← unescape_escape name, empty]
  rfl

/-! ### Addresses -/

/-- A reference to a name in a section: `#/`, the section, a slash and a token that spells it. -/
inductive Addresses (sectionName : String) : String → String → Prop
  | token {token : String} (filled : token ≠ "") (plain : '/' ∉ token.toList) :
      Addresses sectionName ("#/" ++ sectionName ++ "/" ++ token)
        (String.ofList (spelled token.toList))

def pointerTo (sectionName name : String) : String :=
  "#/" ++ sectionName ++ "/" ++ String.ofList (escape name.toList)

theorem splitAtSlash_append (plain : '/' ∉ before) (after : List Char) :
    splitAtSlash (before ++ '/' :: after) = (before, some after) := by
  induction before with
  | nil => rw [List.nil_append, splitAtSlash, if_pos rfl]
  | cons c rest ih =>
    simp only [List.mem_cons, not_or] at plain
    rw [List.cons_append, splitAtSlash, if_neg (Ne.symm plain.1), ih plain.2]

theorem eq_of_splitAtSlash (split : splitAtSlash cs = (before, some after)) :
    cs = before ++ '/' :: after := by
  induction cs generalizing before with
  | nil => cases split
  | cons c rest ih =>
    rw [splitAtSlash] at split
    split at split
    next slash =>
      cases split
      rw [slash, List.nil_append]
    next =>
      obtain ⟨rfl, later⟩ := Prod.mk.inj split
      rw [List.cons_append, ← ih (Prod.ext rfl later)]

theorem addresses_of_text {token : List Char}
    (text : reference.toList = '#' :: '/' :: (sectionName.toList ++ '/' :: token))
    (filled : token ≠ []) (plain : '/' ∉ token) :
    Addresses sectionName reference (String.ofList (unescape token)) := by
  have whole : reference = "#/" ++ sectionName ++ "/" ++ String.ofList token := by
    apply String.toList_injective
    rw [text]
    simp
  have spells : unescape token = spelled (String.ofList token).toList := by
    rw [String.toList_ofList, unescape_eq_spelled]
  rw [whole, spells]
  exact .token (by simpa using filled) (by simpa using plain)

theorem of_nameIn (found : nameIn sectionName reference = .ok name) :
    Addresses sectionName reference name := by
  unfold nameIn at found
  split at found
  case h_2 => cases found
  case h_1 pointer text =>
    dsimp only at found
    split at found
    case isTrue => cases found
    case isFalse same =>
      rw [ne_eq, not_not] at same
      split at found
      case h_2 => cases found
      case h_1 c cs more =>
        split at found
        case isTrue => cases found
        case isFalse plain =>
          cases found
          have pointed : pointer = sectionName.toList ++ '/' :: c :: cs :=
            eq_of_splitAtSlash (Prod.ext same more)
          rw [pointed] at text
          exact addresses_of_text text (List.cons_ne_nil c cs) plain

theorem nameIn_of_addresses (plain : '/' ∉ sectionName.toList)
    (addresses : Addresses sectionName reference name) :
    nameIn sectionName reference = .ok name := by
  cases addresses with | @token token filled whole =>
  obtain ⟨c, cs, spelling⟩ : ∃ c cs, token.toList = c :: cs :=
    List.exists_cons_of_ne_nil fun empty => filled (String.toList_eq_nil_iff.mp empty)
  have text : ("#/" ++ sectionName ++ "/" ++ token).toList =
      '#' :: '/' :: (sectionName.toList ++ '/' :: c :: cs) := by
    simp [spelling]
  rw [spelling] at whole
  simp only [nameIn, text, splitAtSlash_append plain, ne_eq, not_true_eq_false, if_false, whole,
    unescape_eq_spelled, spelling]

theorem nameIn_eq_ok_iff (plain : '/' ∉ sectionName.toList) :
    nameIn sectionName reference = .ok name ↔ Addresses sectionName reference name :=
  ⟨of_nameIn, nameIn_of_addresses plain⟩

theorem addresses_pointerTo (sectionName : String) (filled : name ≠ "") :
    Addresses sectionName (pointerTo sectionName name) name := by
  have letters : name.toList ≠ [] := fun empty => filled (String.toList_eq_nil_iff.mp empty)
  have text : (pointerTo sectionName name).toList =
      '#' :: '/' :: (sectionName.toList ++ '/' :: escape name.toList) := by
    simp [pointerTo]
  have addresses := addresses_of_text text (escape_ne_nil letters) (slash_not_mem_escape _)
  rwa [unescape_escape, String.ofList_toList] at addresses

theorem pointerTo_injective (sectionName : String) :
    Function.Injective (pointerTo sectionName) := by
  intro first second same
  have tokens : escape first.toList = escape second.toList := by
    have texts := congrArg String.toList same
    simpa [pointerTo] using texts
  apply String.toList_injective
  rw [← unescape_escape first.toList, tokens, unescape_escape]

end Pointer

namespace Document

open Pointer

variable {α : Type} {sectionName : String}

/-- What a reference into a section gives: `result` of a name and what stands under it, exactly
where the section has the name that is addressed, and else that it leads nowhere. -/
structure Decodes {β : Type} (sectionName : String) (entries : Entries α) (result : String → α → β)
    (reference : String) (outcome : Except SwaggerError β) : Prop where
  found : ∀ b, outcome = .ok b ↔ ∃ name a, Addresses sectionName reference name ∧
    Entries.lookup name entries = some a ∧ result name a = b
  fails : ∀ e, outcome = .error e → Unresolved e

theorem decodes_lookupIn (plain : '/' ∉ sectionName.toList) (entries : Entries α)
    (reference : String) :
    Decodes sectionName entries Prod.mk reference (lookupIn sectionName entries reference) where
  found := by
    rintro ⟨name, a⟩
    simp only [lookupIn_eq_ok_iff, nameIn_eq_ok_iff plain, Prod.mk.injEq]
    constructor
    · rintro ⟨addressed, found⟩
      exact ⟨name, a, addressed, found, rfl, rfl⟩
    · rintro ⟨name, a, addressed, found, rfl, rfl⟩
      exact ⟨addressed, found⟩
  fails := lookupIn_fails sectionName entries reference

theorem decodes_resolve (plain : '/' ∉ sectionName.toList) (entries : Entries α)
    (reference : String) :
    Decodes sectionName entries (fun _ a => a) reference
      (resolve sectionName entries (.pointer reference)) where
  found := by
    intro a
    simp only [resolve_pointer_eq_ok_iff, nameIn_eq_ok_iff plain]
    constructor
    · rintro ⟨name, addressed, found⟩
      exact ⟨name, a, addressed, found, rfl⟩
    · rintro ⟨name, a, addressed, found, rfl⟩
      exact ⟨name, addressed, found⟩
  fails := resolve_fails sectionName entries (.pointer reference)

/-- References lead exactly to the names that their tokens spell, in definitions as in shared
parameters and responses. Every name is spelled by its escaped form, and by no other name's, so
every definition that has a name can be referred to. -/
theorem references_decode_exactly (d : Document) :
    (∀ token, unescape token = spelled token) ∧
    (∀ reference,
      Decodes "definitions" d.definitions Prod.mk reference (d.definition reference) ∧
      Decodes "parameters" d.parameters (fun _ p => p) reference
        (d.parameter (.pointer reference)) ∧
      Decodes "responses" d.responses (fun _ r => r) reference
        (d.response (.pointer reference))) ∧
    (∀ name, unescape (escape name) = name) ∧
    (∀ name s, name ≠ "" → Entries.lookup name d.definitions = some s →
      d.definition (pointerTo "definitions" name) = .ok (name, s)) ∧
    ∀ sectionName, Function.Injective (pointerTo sectionName) := by
  refine ⟨unescape_eq_spelled, fun reference => ⟨?_, ?_, ?_⟩, unescape_escape, ?_,
    pointerTo_injective⟩
  · exact decodes_lookupIn (by decide) d.definitions reference
  · exact decodes_resolve (by decide) d.parameters reference
  · exact decodes_resolve (by decide) d.responses reference
  · intro name s filled found
    rw [definition_eq_ok_iff, nameIn_eq_ok_iff (by decide)]
    exact ⟨addresses_pointerTo "definitions" filled, found⟩

def ratios : Document where
  definitions := [("km/h", { type := some "number" }), ("~1", { type := some "string" })]

theorem ratios_are_found :
    ratios.definition "#/definitions/km~1h" = .ok ("km/h", { type := some "number" }) ∧
      ratios.definition "#/definitions/~01" = .ok ("~1", { type := some "string" }) := by
  obtain ⟨-, -, -, found, -⟩ := references_decode_exactly ratios
  exact ⟨found "km/h" _ (by decide) rfl, found "~1" _ (by decide) rfl⟩

end Document

end ActionCatalogue.Swagger
