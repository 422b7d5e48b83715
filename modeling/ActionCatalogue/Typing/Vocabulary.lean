import ActionCatalogue.Data.Record

/-!
The primitive types of the host. A type name is a base name with two marks in front of it, both
optional and in this order: a star where the value may be absent, and `soft` where the host converts
a value instead of refusing it, which only some bases allow. The names that are read are the names
that are written.
-/

namespace ActionCatalogue

inductive BaseType where
  | string | int | integer | bool | boolean | float | number | binary | data | list | hash | date
  | any
deriving DecidableEq, Repr

namespace BaseType

def all : List BaseType :=
  [string, int, integer, bool, boolean, float, number, binary, data, list, hash, date, any]

def name : BaseType → String
  | string => "string"
  | int => "int"
  | integer => "integer"
  | bool => "bool"
  | boolean => "boolean"
  | float => "float"
  | number => "number"
  | binary => "binary"
  | data => "data"
  | list => "list"
  | hash => "hash"
  | date => "date"
  | any => "any"

def ofName? (s : String) : Option BaseType := all.find? (·.name == s)

def allowsSoft : BaseType → Bool
  | string | int | bool | float | number | date | binary | list => true
  | integer | boolean | data | hash | any => false

theorem mem_all (b : BaseType) : b ∈ all := by
  cases b <;> simp [all]

theorem ofName?_eq_some_iff {s : String} {b : BaseType} : ofName? s = some b ↔ b.name = s := by
  constructor
  · intro found
    have same := List.find?_some found
    exact beq_iff_eq.mp same
  · rintro rfl
    cases b <;> decide

/-- No base name starts with a mark. -/
theorem unmarked (b : BaseType) :
    ¬"*".toList <+: b.name.toList ∧ ¬"soft".toList <+: b.name.toList := by
  cases b <;> decide

end BaseType

structure PrimitiveType where
  base : BaseType
  /-- The host converts a value instead of refusing it. -/
  soft : Bool := false
  nullable : Bool := false
deriving DecidableEq, Repr

namespace PrimitiveType

def text (t : PrimitiveType) : String :=
  (if t.nullable then "*" else "") ++ (if t.soft then "soft" else "") ++ t.base.name

def after? (mark : String) (s : String) : Option String :=
  if mark.toList.isPrefixOf s.toList then some (String.ofList (s.toList.drop mark.length)) else none

def ofName? (s : String) : Option PrimitiveType :=
  let nullable := (after? "*" s).isSome
  let unstarred := (after? "*" s).getD s
  let soft := (after? "soft" unstarred).isSome
  match BaseType.ofName? ((after? "soft" unstarred).getD unstarred) with
  | some base => if soft && !base.allowsSoft then none else some ⟨base, soft, nullable⟩
  | none => none

def parse (s : String) : Except DataError PrimitiveType :=
  match ofName? s with
  | some t => .ok t
  | none => .error (.unknownType s "")

/-- Whether `soft` stands in front of a base that allows it, if it stands there. -/
def Allowed (t : PrimitiveType) : Prop := t.soft → t.base.allowsSoft

theorem after?_eq_some_iff {mark s rest : String} :
    after? mark s = some rest ↔ s = mark ++ rest := by
  unfold after?
  split
  next starts =>
    obtain ⟨cs, same⟩ := List.isPrefixOf_iff_prefix.mp starts
    have whole : s = mark ++ String.ofList cs := String.toList_inj.mp (by simp [same])
    have dropped : s.toList.drop mark.length = cs := by
      rw [← same, ← String.length_toList, List.drop_left]
    rw [dropped, Option.some.injEq, whole, String.append_right_inj]
  next starts =>
    constructor
    · rintro ⟨⟩
    · rintro rfl
      exact absurd (List.isPrefixOf_iff_prefix.mpr ⟨rest.toList, by simp⟩) starts

/-- A text is its mark, where it has it, and what comes after. -/
theorem mark_append_getD (mark s : String) :
    (if (after? mark s).isSome then mark else "") ++ (after? mark s).getD s = s := by
  cases cut : after? mark s with
  | none => simp
  | some rest => simp [after?_eq_some_iff.mp cut]

theorem after?_append (mark rest : String) : after? mark (mark ++ rest) = some rest :=
  after?_eq_some_iff.mpr rfl

theorem after?_eq_none {mark s : String} (unmarked : ¬mark.toList <+: s.toList) :
    after? mark s = none :=
  if_neg (mt List.isPrefixOf_iff_prefix.mp unmarked)

theorem ofName?_text {t : PrimitiveType} (allowed : t.Allowed) : ofName? t.text = some t := by
  obtain ⟨base, soft, nullable⟩ := t
  have softened : after? "soft" ((if soft then "soft" else "") ++ base.name) =
      if soft then some base.name else none := by
    cases soft with
    | true => exact after?_append "soft" base.name
    | false => simpa using after?_eq_none base.unmarked.2
  have starred : after? "*" (text ⟨base, soft, nullable⟩) =
      if nullable then some ((if soft then "soft" else "") ++ base.name) else none := by
    rw [text, String.append_assoc]
    cases nullable with
    | true => exact after?_append "*" _
    | false =>
      apply after?_eq_none
      cases soft with
      | true => simp
      | false => simpa using base.unmarked.1
  have named := BaseType.ofName?_eq_some_iff.mpr (rfl : base.name = base.name)
  unfold ofName?
  rw [starred]
  cases nullable <;> cases soft <;> simp_all [Allowed, text]

theorem ofName?_eq_some_iff {s : String} {t : PrimitiveType} :
    ofName? s = some t ↔ t.Allowed ∧ t.text = s := by
  constructor
  · intro found
    unfold ofName? at found
    dsimp only at found
    cases named : BaseType.ofName?
        ((after? "soft" ((after? "*" s).getD s)).getD ((after? "*" s).getD s)) with
    | none => simp [named] at found
    | some base =>
      simp only [named, Option.ite_none_left_eq_some, Option.some.injEq] at found
      obtain ⟨allowed, rfl⟩ := found
      refine ⟨by simpa [Allowed] using allowed, ?_⟩
      rw [text, BaseType.ofName?_eq_some_iff.mp named, String.append_assoc, mark_append_getD,
        mark_append_getD]
  · rintro ⟨allowed, rfl⟩
    exact ofName?_text allowed

theorem parse_eq_ok_iff {s : String} {t : PrimitiveType} :
    parse s = .ok t ↔ t.Allowed ∧ t.text = s := by
  rw [← ofName?_eq_some_iff]
  unfold parse
  cases ofName? s <;> simp

def toJson (t : PrimitiveType) : Json.Value := .text t.text

def ofNode (n : Node) : Reading PrimitiveType := do
  match parse (← n.asText) with
  | .ok t => .ok t
  | .error e => .error (.rule e)

end PrimitiveType

end ActionCatalogue
