import ActionCatalogue.App.Connection
import ActionCatalogue.Proofs.Collision
import ActionCatalogue.Proofs.References
import ActionCatalogue.Proofs.Words

/-!
Addresses and the placeholders in them. An address is scanned in one way into tokens, the leftmost
first, and the characters at which none begins; the names that are listed and the places that are
filled are those of this one scan. Values are put in as they are. Rendering fails where a name has
no value, and says so once for each place that stays empty.
-/

namespace ActionCatalogue.UrlTemplate

open Json
open Expansion (IsName takeWhile_stop dropWhile_stop)

variable {name : String} {token cs rest : List Char} {c : Char}

/-! ### Tokens -/

def Blanks (cs : List Char) : Prop := ∀ c ∈ cs, Text.isBlankChar c = true

/-- A name in double braces, with blanks around it at will. -/
inductive IsToken (name : String) : List Char → Prop
  | braced {before after : List Char} (named : IsName name) (left : Blanks before)
      (right : Blanks after) :
      IsToken name ('\x7b' :: '\x7b' :: (before ++ name.toList ++ after ++ ['\x7d', '\x7d']))

/-- A token stands at the start of a text. -/
def Begins (cs : List Char) : Prop := ∃ name rest token, IsToken name token ∧ cs = token ++ rest

/-- Blanks and a closing brace begin with a character that belongs to no name. -/
theorem exists_stop {after : List Char} (right : Blanks after) (rest : List Char) :
    ∃ c tail, after ++ '\x7d' :: rest = c :: tail ∧ Ascii.isNameChar c = false := by
  cases after with
  | nil => exact ⟨_, rest, rfl, by decide⟩
  | cons c after =>
    exact ⟨c, _, rfl, Ascii.isNameChar_of_isBlankChar (right c List.mem_cons_self)⟩

theorem token?_append (isToken : IsToken name token) (rest : List Char) :
    token? (token ++ rest) = some (name, rest) := by
  cases isToken with
  | @braced before after named left right =>
    obtain ⟨first, more, spelled, starts, goes⟩ := named
    have text : '\x7b' :: '\x7b' :: (before ++ name.toList ++ after ++ ['\x7d', '\x7d']) ++ rest =
        '\x7b' :: '\x7b' :: (before ++ first :: (more ++ (after ++ '\x7d' :: '\x7d' :: rest))) := by
      simp [spelled]
    have closed : Text.dropBlanks (after ++ '\x7d' :: '\x7d' :: rest) = '\x7d' :: '\x7d' :: rest :=
      dropWhile_stop right (by decide)
    -- the name ends at a blank or at the braces, whichever comes first
    obtain ⟨stop, tail, follows, ends⟩ := exists_stop right ('\x7d' :: rest)
    rw [follows] at text closed
    have opened : Text.dropBlanks (before ++ first :: (more ++ stop :: tail)) =
        first :: (more ++ stop :: tail) :=
      dropWhile_stop left (Ascii.isBlankChar_of_isNameStart starts)
    simp only [text, token?, opened, starts, if_true, takeWhile_stop goes ends,
      dropWhile_stop goes ends, closed, ← spelled, String.ofList_toList]

theorem exists_blanks (cs : List Char) :
    ∃ blanks, Blanks blanks ∧ cs = blanks ++ Text.dropBlanks cs :=
  ⟨cs.takeWhile Text.isBlankChar, fun _ member => List.mem_takeWhile_imp member,
    List.takeWhile_append_dropWhile.symm⟩

theorem of_token? (found : token? cs = some (name, rest)) :
    ∃ token, IsToken name token ∧ cs = token ++ rest := by
  unfold token? at found
  split at found
  case h_2 => cases found
  case h_1 inner =>
    split at found
    case h_2 => cases found
    case h_1 first more opened =>
      split at found
      case isFalse => cases found
      case isTrue starts =>
        split at found
        case h_2 => cases found
        case h_1 after closed =>
          cases found
          -- what each step dropped is put back in front of what it left
          obtain ⟨before, left, text⟩ := exists_blanks inner
          obtain ⟨behind, right, closing⟩ := exists_blanks (more.dropWhile Ascii.isNameChar)
          have named : IsName (String.ofList (first :: more.takeWhile Ascii.isNameChar)) :=
            ⟨first, _, String.toList_ofList, starts, fun _ member => List.mem_takeWhile_imp member⟩
          have whole : more.takeWhile Ascii.isNameChar ++ (behind ++ '\x7d' :: '\x7d' :: rest) =
              more := by
            rw [← closed, ← closing, List.takeWhile_append_dropWhile]
          refine ⟨_, .braced named left right, ?_⟩
          rw [text, opened]
          simp [whole]

theorem token?_eq_some_iff :
    token? cs = some (name, rest) ↔ ∃ token, IsToken name token ∧ cs = token ++ rest := by
  constructor
  · exact of_token?
  · rintro ⟨token, isToken, rfl⟩
    exact token?_append isToken rest

theorem token?_eq_none_iff : token? cs = none ↔ ¬Begins cs := by
  simp only [Option.eq_none_iff_forall_ne_some, Prod.forall, ne_eq, token?_eq_some_iff, Begins,
    not_exists]

/-! ### Scans -/

/-- The parts of a text: its tokens, the leftmost first, and the characters at which none begins. -/
inductive Scans : List Char → List Part → Prop
  | done : Scans [] []
  | keep {c : Char} {rest : List Char} {ps : List Part} (plain : ¬Begins (c :: rest))
      (later : Scans rest ps) : Scans (c :: rest) (.char c :: ps)
  | token {name : String} {token rest : List Char} {ps : List Part} (isToken : IsToken name token)
      (later : Scans rest ps) : Scans (token ++ rest) (.placeholder name :: ps)

theorem parts_of_token? (found : token? cs = some (name, rest)) :
    parts cs = .placeholder name :: parts rest := by
  rw [parts]
  split
  next again =>
    rw [found] at again
    cases again
    rfl
  next missing =>
    rw [found] at missing
    cases missing

theorem parts_keep (plain : ¬Begins (c :: rest)) : parts (c :: rest) = .char c :: parts rest := by
  have missing := token?_eq_none_iff.mpr plain
  rw [parts]
  split
  next found =>
    rw [missing] at found
    cases found
  next => rfl

theorem scans_parts (cs : List Char) : Scans cs (parts cs) := by
  induction cs using parts.induct with
  | case1 cs name after found ih =>
    rw [parts_of_token? found]
    obtain ⟨token, isToken, rfl⟩ := token?_eq_some_iff.mp found
    exact .token isToken ih
  | case2 =>
    rw [parts]
    exact .done
  | case3 c rest missing ih =>
    have plain := token?_eq_none_iff.mp missing
    rw [parts_keep plain]
    exact .keep plain ih

theorem scans_iff {ps : List Part} : Scans cs ps ↔ ps = parts cs := by
  constructor
  · intro scanned
    induction scanned with
    | done => rw [parts]; rfl
    | keep plain _ ih => rw [parts_keep plain, ih]
    | token isToken _ ih => rw [parts_of_token? (token?_append isToken _), ih]
  · rintro rfl
    exact scans_parts cs

/-- The names of the tokens, as often as they occur. -/
def occurrences (ps : List Part) : List String := ps.filterMap Part.name?

theorem foldl_addNew (names : List String) : names.foldl addNew [] = names.eraseDups := by
  induction names using List.reverseRecOn with
  | nil => rfl
  | append_singleton names name ih =>
    rw [List.foldl_append, ih, eraseDups_concat, List.foldl_cons, List.foldl_nil, addNew]
    simp only [List.contains_iff_mem, List.mem_eraseDups]

theorem placeholders_eq (url : String) :
    placeholders url = (occurrences (parts url.toList)).eraseDups :=
  foldl_addNew _

/-! ### Values -/

section Values

variable {options others : Object} {ps : List Part} {text out : List Char}

/-- What an option puts into an address: a text itself, any other value but null its JSON. -/
inductive Holds (options : Object) (name : String) : String → Prop
  | text {s : String} (found : Entries.lookup name options = some (.text s)) : Holds options name s
  | json {v : Value} (found : Entries.lookup name options = some v) (notText : ∀ s, v ≠ .text s)
      (notNull : v ≠ .null) : Holds options name v.compact

/-- An option has no value, not even null. -/
def lacks (options : Object) (name : String) : Bool :=
  match Entries.lookup name options with
  | none | some .null => true
  | some _ => false

theorem lacks_eq_false_iff :
    lacks options name = false ↔ ∃ v, Entries.lookup name options = some v ∧ v ≠ .null := by
  unfold lacks
  split <;> simp_all

theorem isNone_optionText? : (optionText? options name).isNone = lacks options name := by
  unfold optionText? lacks
  cases Entries.lookup name options with
  | none => rfl
  | some v => cases v <;> rfl

theorem optionText?_eq_some_iff {s : String} :
    optionText? options name = some s ↔ Holds options name s := by
  constructor
  · intro held
    unfold optionText? at held
    cases found : Entries.lookup name options with
    | none =>
      rw [found] at held
      cases held
    | some v =>
      rw [found] at held
      cases v with
      | null => cases held
      | text t =>
        cases held
        exact .text found
      | _ =>
        cases held
        exact .json found nofun nofun
  · rintro (found | @⟨v, found, notText, notNull⟩)
    · rw [optionText?, found]
      rfl
    · rw [optionText?, found]
      cases v with
      | null => exact absurd rfl notNull
      | text t => exact absurd rfl (notText t)
      | _ => rfl

theorem exists_holds : (∃ value, Holds options name value) ↔ lacks options name = false := by
  rw [← isNone_optionText?]
  simp only [← optionText?_eq_some_iff]
  cases optionText? options name <;> simp

theorem renderPart_placeholder {value : String} (holds : Holds options name value) :
    renderPart options (.placeholder name) = value.toList := by
  rw [renderPart, optionText?_eq_some_iff.mpr holds, Option.getD_some]

theorem missing_eq (options : Object) (ps : List Part) :
    missing options ps = (occurrences ps).filter (lacks options) :=
  List.filter_congr fun _ _ => isNone_optionText?

theorem missing_eq_nil_iff :
    missing options ps = [] ↔ ∀ name ∈ occurrences ps, lacks options name = false := by
  rw [missing_eq, List.filter_eq_nil_iff]
  simp only [Bool.not_eq_true]

/-! ### Rendering -/

/-- An address with the values of options in all its places, and its characters as they are. -/
inductive Fills (options : Object) : List Part → List Char → Prop
  | done : Fills options [] []
  | keep {c : Char} {ps : List Part} {out : List Char} (later : Fills options ps out) :
      Fills options (.char c :: ps) (c :: out)
  | put {name value : String} {ps : List Part} {out : List Char}
      (holds : Holds options name value) (later : Fills options ps out) :
      Fills options (.placeholder name :: ps) (value.toList ++ out)

theorem fills_flatMap (complete : ∀ name ∈ occurrences ps, lacks options name = false) :
    Fills options ps (ps.flatMap (renderPart options)) := by
  induction ps with
  | nil => exact .done
  | cons part rest ih =>
    cases part with
    | char c => exact .keep (ih complete)
    | placeholder name =>
      obtain ⟨here, later⟩ := List.forall_mem_cons.mp complete
      obtain ⟨value, holds⟩ := exists_holds.mpr here
      rw [List.flatMap_cons, renderPart_placeholder holds]
      exact .put holds (ih later)

theorem of_fills (filled : Fills options ps out) :
    (∀ name ∈ occurrences ps, lacks options name = false) ∧
      ps.flatMap (renderPart options) = out := by
  induction filled with
  | done => exact ⟨nofun, rfl⟩
  | keep _ ih => exact ⟨ih.1, congrArg (_ :: ·) ih.2⟩
  | put holds _ ih =>
    rw [List.flatMap_cons, renderPart_placeholder holds, ih.2]
    exact ⟨List.forall_mem_cons.mpr ⟨exists_holds.mp ⟨_, holds⟩, ih.1⟩, rfl⟩

variable {url : String}

theorem render_of_complete (complete : missing options (parts url.toList) = []) :
    render url options = .ok (String.ofList ((parts url.toList).flatMap (renderPart options))) := by
  simp only [render, complete, List.isEmpty_nil, if_true]

theorem render_of_incomplete (incomplete : missing options (parts url.toList) ≠ []) :
    render url options = .error (.invalid ("url '" ++ url ++ "' is missing options: " ++
      ", ".intercalate (missing options (parts url.toList)))) := by
  have some : (missing options (parts url.toList)).isEmpty = false := by simpa using incomplete
  simp only [render, some, Bool.false_eq_true, if_false]
  rfl

theorem render_eq_ok_iff {s : String} :
    render url options = .ok s ↔ Fills options (parts url.toList) s.toList := by
  by_cases complete : missing options (parts url.toList) = []
  · rw [render_of_complete complete, Except.ok.injEq]
    constructor
    · rintro rfl
      rw [String.toList_ofList]
      exact fills_flatMap (missing_eq_nil_iff.mp complete)
    · intro filled
      rw [(of_fills filled).2, String.ofList_toList]
  · rw [render_of_incomplete complete]
    refine iff_of_false nofun fun filled => ?_
    exact complete (missing_eq_nil_iff.mpr (of_fills filled).1)

theorem render_succeeds_iff : (∃ s, render url options = .ok s) ↔
    ∀ name ∈ placeholders url, lacks options name = false := by
  simp only [placeholders_eq, List.mem_eraseDups, ← missing_eq_nil_iff]
  constructor
  · rintro ⟨s, success⟩
    exact missing_eq_nil_iff.mpr (of_fills (render_eq_ok_iff.mp success)).1
  · intro complete
    exact ⟨_, render_of_complete complete⟩

theorem eq_of_render_eq_error {e : DataError} (fails : render url options = .error e) :
    e = .invalid ("url '" ++ url ++ "' is missing options: " ++
      ", ".intercalate ((occurrences (parts url.toList)).filter (lacks options))) := by
  rw [← missing_eq]
  by_cases complete : missing options (parts url.toList) = []
  · rw [render_of_complete complete] at fails
    cases fails
  · rw [render_of_incomplete complete] at fails
    exact (Except.error.inj fails).symm

/-- Options that are no placeholder's make no difference. -/
theorem render_congr (agree : ∀ name ∈ placeholders url,
    Entries.lookup name others = Entries.lookup name options) :
    render url others = render url options := by
  have held : ∀ name ∈ occurrences (parts url.toList),
      optionText? others name = optionText? options name := by
    intro name member
    rw [optionText?, optionText?, agree name]
    rw [placeholders_eq, List.mem_eraseDups]
    exact member
  have absent : missing others (parts url.toList) = missing options (parts url.toList) :=
    List.filter_congr fun name member => by rw [held name member]
  have filled : (parts url.toList).flatMap (renderPart others) =
      (parts url.toList).flatMap (renderPart options) := by
    refine List.flatMap_congr fun part member => ?_
    cases part with
    | char c => rfl
    | placeholder name =>
      have occurs : name ∈ occurrences (parts url.toList) :=
        List.mem_filterMap.mpr ⟨_, member, rfl⟩
      rw [renderPart, renderPart, held name occurs]
  simp only [render, absent, filled]

end Values

/-- An address has one scan. Its placeholders are the names of the tokens, each once and in the
order of first appearance, and rendering succeeds exactly if each of them has a value: then the
values stand in the places of the tokens and all else as before. A failure names what is lacking,
once for each place. No other option makes a difference. -/
theorem rendering_fills_placeholders (c : RestConfig) (options : Object) :
    ∃ ps, (∀ scan, Scans c.url.toList scan ↔ scan = ps) ∧
      c.placeholders = (occurrences ps).eraseDups ∧ c.placeholders.Nodup ∧
      ((∃ s, c.renderUrl options = .ok s) ↔
        ∀ name ∈ c.placeholders, ∃ v, Entries.lookup name options = some v ∧ v ≠ .null) ∧
      (∀ s, c.renderUrl options = .ok s ↔ Fills options ps s.toList) ∧
      (∀ e, c.renderUrl options = .error e →
        e = .invalid ("url '" ++ c.url ++ "' is missing options: " ++
          ", ".intercalate ((occurrences ps).filter (lacks options)))) ∧
      ∀ others : Object, (∀ name ∈ c.placeholders,
        Entries.lookup name others = Entries.lookup name options) →
        c.renderUrl others = c.renderUrl options := by
  refine ⟨parts c.url.toList, fun scan => scans_iff, placeholders_eq c.url, ?_, ?_, ?_, ?_, ?_⟩
  · rw [RestConfig.placeholders, placeholders_eq]
    exact nodup_eraseDups _
  · simp only [← lacks_eq_false_iff]
    exact render_succeeds_iff
  · exact fun s => render_eq_ok_iff
  · exact fun e => eq_of_render_eq_error
  · exact fun others => render_congr

/-- Two placeholders without a gap, the second one with a blank in it. -/
def gapless : RestConfig where
  url := "\x7b\x7bhost\x7d\x7d\x7b\x7bport \x7d\x7d"

/-- The value for the first placeholder looks like the second one. -/
def gaplessOptions : Object := [("host", .text "\x7b\x7bport\x7d\x7d"), ("port", .bool true)]

theorem scans_gapless : Scans gapless.url.toList [.placeholder "host", .placeholder "port"] := by
  have host : IsToken "host"
      ('\x7b' :: '\x7b' :: ([] ++ "host".toList ++ [] ++ ['\x7d', '\x7d'])) :=
    .braced ⟨'h', ['o', 's', 't'], rfl, rfl, List.all_eq_true.mp rfl⟩ nofun nofun
  have port : IsToken "port"
      ('\x7b' :: '\x7b' :: ([] ++ "port".toList ++ [' '] ++ ['\x7d', '\x7d'])) :=
    .braced ⟨'p', ['o', 'r', 't'], rfl, rfl, List.all_eq_true.mp rfl⟩ nofun
      (List.forall_mem_singleton.mpr (by decide))
  exact .token host (.token port .done)

theorem gapless_is_filled :
    gapless.renderUrl gaplessOptions = .ok "\x7b\x7bport\x7d\x7dtrue" := by
  obtain ⟨ps, scan, -, -, -, filled, -⟩ := rendering_fills_placeholders gapless gaplessOptions
  obtain rfl := (scan _).mp scans_gapless
  have host : Holds gaplessOptions "host" "\x7b\x7bport\x7d\x7d" := .text rfl
  have port : Holds gaplessOptions "port" "true" := .json (v := .bool true) rfl nofun nofun
  exact (filled _).mpr (.put host (.put port .done))

end ActionCatalogue.UrlTemplate
