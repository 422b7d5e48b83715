import ActionCatalogue.App.SwaggerPath

/-!
Texts of swagger paths. A text is one exactly if its last slash parts a path, which starts with a
slash itself, from a method in any ASCII case. It can be parted in no other way, whatever the path
looks like, so a swagger path is read from its text and two of them have different texts.
-/

namespace ActionCatalogue

namespace Ascii

def upper (s : String) : String := String.ofList (s.toList.map Char.toUpper)

theorem upper_lower (s : String) : upper (lower s) = upper s := by
  rw [upper, lower, String.toList_ofList, List.map_map, upper]
  exact congrArg String.ofList (List.map_congr_left fun c _ => toUpper_toLower c)

theorem lower_upper (s : String) : lower (upper s) = lower s := by
  rw [lower, upper, String.toList_ofList, List.map_map, lower]
  exact congrArg String.ofList (List.map_congr_left fun c _ => toLower_toUpper c)

/-- Texts that differ in case alone are the same in either case. -/
theorem lower_eq_lower_iff {s t : String} : lower s = lower t ↔ upper s = upper t := by
  constructor
  · intro same
    rw [← upper_lower s, same, upper_lower]
  · intro same
    rw [← lower_upper s, same, lower_upper]

end Ascii

namespace Method

variable {m : Method} {word : String}

theorem upper_name (m : Method) : Ascii.upper m.name = m.name := by
  cases m <;> rfl

theorem name_injective : Function.Injective name := by
  intro m other same
  have parsed := parse_name m
  rw [same, parse_name] at parsed
  exact (Except.ok.inj parsed).symm

theorem upper_of_ofName? (found : ofName? word = some m) : Ascii.upper word = m.name := by
  rw [ofName?] at found
  have alike := List.find?_some found
  rw [← upper_name m]
  exact (Ascii.lower_eq_lower_iff.mp (beq_iff_eq.mp alike)).symm

theorem ofName?_eq_some_iff : ofName? word = some m ↔ Ascii.upper word = m.name := by
  constructor
  · exact upper_of_ofName?
  · intro spelled
    have alike : Ascii.lower m.name = Ascii.lower word := by
      rw [Ascii.lower_eq_lower_iff, upper_name, spelled]
    have known : (ofName? word).isSome = true :=
      List.find?_isSome.mpr ⟨m, mem_all m, beq_iff_eq.mpr alike⟩
    obtain ⟨other, found⟩ := Option.isSome_iff_exists.mp known
    rw [found, name_injective ((upper_of_ofName? found).symm.trans spelled)]

theorem parse_eq_ok_iff : parse word = .ok m ↔ Ascii.upper word = m.name := by
  rw [← ofName?_eq_some_iff, parse]
  cases ofName? word <;> simp

end Method

namespace SwaggerPath

variable {s path word : String} {p : SwaggerPath} {cs before after : List Char}

/-- A text is parted at its last slash into a path that starts with a slash and a word. -/
structure Parts (s path word : String) : Prop where
  text : s = path ++ "/" ++ word
  rooted : path.toList.head? = some '/'
  plain : '/' ∉ word.toList

theorem slash_not_mem_of_splitLast? (whole : splitLast? cs = none) : '/' ∉ cs := by
  induction cs with
  | nil => exact List.not_mem_nil
  | cons c rest ih =>
    rw [splitLast?] at whole
    split at whole
    case h_1 => cases whole
    case h_2 none =>
      split at whole
      case isTrue => cases whole
      case isFalse other =>
        simpa [Ne.symm other] using ih none

theorem of_splitLast? (split : splitLast? cs = some (before, after)) :
    cs = before ++ '/' :: after ∧ '/' ∉ after := by
  induction cs generalizing before with
  | nil => cases split
  | cons c rest ih =>
    rw [splitLast?] at split
    split at split
    case h_1 front back later =>
      cases split
      obtain ⟨text, plain⟩ := ih later
      exact ⟨congrArg (c :: ·) text, plain⟩
    case h_2 none =>
      split at split
      case isFalse => cases split
      case isTrue slash =>
        cases split
        exact ⟨congrArg (· :: after) slash, slash_not_mem_of_splitLast? none⟩

/-- What is read is what the last slash parts, with a method in any case behind it. -/
theorem parse_eq_ok_iff : parse s = .ok p ↔
    ∃ word, Parts s p.path word ∧ Ascii.upper word = p.method.name := by
  constructor
  · intro parsed
    unfold parse at parsed
    split at parsed
    case h_1 => cases parsed
    case h_2 path method split =>
      obtain ⟨text, plain⟩ := of_splitLast? split
      split at parsed
      case isFalse => cases parsed
      case isTrue rooted =>
        obtain ⟨m, read, same⟩ := exists_of_bind_eq_ok parsed
        cases same
        refine ⟨String.ofList method, ⟨?_, ?_, ?_⟩, Method.parse_eq_ok_iff.mp read⟩
        · apply String.toList_injective
          simpa using text
        · simpa using rooted
        · simpa using plain
  · rintro ⟨word, ⟨rfl, rooted, plain⟩, spelled⟩
    have split := splitLast?_append plain p.path.toList
    have text : (p.path ++ "/" ++ word).toList = p.path.toList ++ '/' :: word.toList := by simp
    rw [parse, text, split]
    simp [rooted, Method.parse_eq_ok_iff.mpr spelled, bind, Except.bind, pure, Except.pure]

/-- A text has one last slash. -/
theorem Parts.unique {otherPath otherWord : String} (parts : Parts s path word)
    (others : Parts s otherPath otherWord) : otherPath = path ∧ otherWord = word := by
  obtain ⟨rfl, -, plain⟩ := parts
  have split := splitLast?_append plain path.toList
  have texts : path.toList ++ '/' :: word.toList = otherPath.toList ++ '/' :: otherWord.toList := by
    simpa using congrArg String.toList others.text
  rw [texts, splitLast?_append others.plain, Option.some.injEq, Prod.mk.injEq] at split
  exact ⟨String.toList_injective split.1, String.toList_injective split.2⟩

/-- The last slash of a text stands before the method, whether the path begins with one or not. -/
theorem text_injective : Function.Injective text := by
  intro p q same
  have split := splitLast?_append p.method.slash_not_mem_name p.path.toList
  rw [← toList_text, same, toList_text, splitLast?_append q.method.slash_not_mem_name,
    Option.some.injEq, Prod.mk.injEq] at split
  have path := String.toList_injective split.1
  have method := Method.name_injective (String.toList_injective split.2)
  cases p
  cases q
  exact congr (congrArg mk path.symm) method.symm

theorem text_of_parse (parsed : parse s = .ok p) (parts : Parts s path word) :
    p.text = path ++ "/" ++ Ascii.upper word := by
  obtain ⟨other, others, spelled⟩ := parse_eq_ok_iff.mp parsed
  obtain ⟨rfl, rfl⟩ := parts.unique others
  rw [text, spelled]

theorem rooted_of_parse (parsed : parse s = .ok p) : p.path.toList.head? = some '/' := by
  obtain ⟨word, parts, -⟩ := parse_eq_ok_iff.mp parsed
  exact parts.rooted

/-- A path that starts with a slash is read again from its text, with its method. A text is read
exactly if it has the parts of one, and it has them in one way; what it is read as has the same text
but for the case of the method. Different swagger paths never have the same text. -/
theorem texts_correspond :
    (∀ p : SwaggerPath, p.path.toList.head? = some '/' → parse p.text = .ok p) ∧
    (∀ s p, parse s = .ok p ↔ ∃ word, Parts s p.path word ∧ Ascii.upper word = p.method.name) ∧
    (∀ s path word otherPath otherWord, Parts s path word → Parts s otherPath otherWord →
      otherPath = path ∧ otherWord = word) ∧
    (∀ s p path word, parse s = .ok p → Parts s path word →
      p.text = path ++ "/" ++ Ascii.upper word) ∧
    Function.Injective text ∧
    ∀ s p, parse s = .ok p → parse p.text = .ok p :=
  ⟨fun _ => parse_text, fun _ _ => parse_eq_ok_iff, fun _ _ _ _ _ => Parts.unique,
    fun _ _ _ _ => text_of_parse, text_injective,
    fun _ _ parsed => parse_text (rooted_of_parse parsed)⟩

theorem looks_like_two_methods :
    parse (text ⟨"/a/GET", .put⟩) = .ok ⟨"/a/GET", .put⟩ ∧
      parse "//a/GET/pUt" = .ok ⟨"//a/GET", .put⟩ ∧ text ⟨"//a/GET", .put⟩ = "//a/GET/PUT" := by
  obtain ⟨again, read, -, written, -, -⟩ := texts_correspond
  have parts : Parts "//a/GET/pUt" "//a/GET" "pUt" := ⟨rfl, rfl, by decide⟩
  have parsed : parse "//a/GET/pUt" = .ok ⟨"//a/GET", .put⟩ := (read ..).mpr ⟨"pUt", parts, rfl⟩
  exact ⟨again _ rfl, parsed, written _ _ _ _ parsed parts⟩

end SwaggerPath

end ActionCatalogue
