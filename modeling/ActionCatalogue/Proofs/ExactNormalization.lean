import ActionCatalogue.Typing.Normalizer

/-!
What the normalizer accepts, what it makes of it, and what it says of the rest. The nodes of a
description are listed in pre-order, each with its path and its depth. A description is normalized
where the normalizer accepts every node, into a type of the same shape; elsewhere the error is the
one of the first node that it does not accept.
-/

namespace ActionCatalogue

/-- From a node of a description to one inside it. -/
inductive Step where
  | item
  | field (name : String)

/-- The path of a node inside one with a given path; an empty path adds nothing. -/
def Step.onto (path : String) : Step → String
  | .item => path ++ "[]"
  | .field name => if path = "" then name else path ++ "." ++ name

/-- The path that steps from a root lead to. -/
def pathAlong (root : String) (steps : List Step) : String := steps.foldl Step.onto root

theorem pathAlong_concat (root : String) (steps : List Step) (step : Step) :
    pathAlong root (steps ++ [step]) = step.onto (pathAlong root steps) := by
  simp [pathAlong]

/-- A node of a description: the path of the root, the steps from there, and what stands at the
node. -/
structure Spot where
  root : String
  steps : List Step
  description : TypeDescription

namespace Spot

def path (s : Spot) : String := pathAlong s.root s.steps

def depth (s : Spot) : Nat := s.steps.length

end Spot

namespace TypeDescription

mutual

/-- The nodes of a description in pre-order, from left to right. -/
def spots (root : String) (steps : List Step) : TypeDescription → List Spot
  | .named name => [⟨root, steps, .named name⟩]
  | .list items => ⟨root, steps, .list items⟩ :: itemSpots root (steps ++ [.item]) items
  | .fields fs => ⟨root, steps, .fields fs⟩ :: fieldSpots root steps fs

def itemSpots (root : String) (steps : List Step) : List TypeDescription → List Spot
  | [] => []
  | d :: rest => spots root steps d ++ itemSpots root steps rest

def fieldSpots (root : String) (steps : List Step) : List (String × FieldDescription) → List Spot
  | [] => []
  | (name, { type, .. }) :: rest =>
    spots root (steps ++ [.field name]) type ++ fieldSpots root steps rest

end

end TypeDescription

/-- The nodes of the types of some fields, each of which is a root. -/
def rootSpots (fields : Entries FieldDescription) : List Spot :=
  fields.flatMap fun (name, field) => field.type.spots name []

/-- A name that is a star or none, `soft` where the base allows it or nothing, and a base. -/
def IsTypeName (name : String) : Prop := ∃ type : PrimitiveType, type.Allowed ∧ type.text = name

/-- What a field hands on to its option, whatever their types and texts. -/
structure Carries (name : String) (field : FieldDescription) (o : ActionOption) : Prop where
  name : o.name = name
  defaultValue : o.defaultValue = field.defaultValue
  exampleValue : o.exampleValue = field.exampleValue
  allowedValues : o.allowedValues.map (·.value) = field.allowedValues.map (·.value)
  getAllowedValues : o.getAllowedValues = field.getAllowedValues
  getDependentOptions : o.getDependentOptions = field.getDependentOptions
  dependsOn : o.dependsOn = field.dependsOn
  required : o.required = field.required
  preselected : o.preselected = field.preselected

mutual

/-- A type has the shape of a description. -/
inductive Shapes : TypeDescription → OptionType → Prop
  | named {name : String} {p : PrimitiveType} (rendered : p.text = name) :
      Shapes (.named name) (.primitive p)
  | list {d : TypeDescription} {t : OptionType} (item : Shapes d t) : Shapes (.list [d]) (.list t)
  | fields {fields : List (String × FieldDescription)} {options : List (String × ActionOption)}
      (all : ShapesFields fields options) : Shapes (.fields fields) (.hash options)

/-- Options stand under the keys of fields, in their order, and carry what the fields have. -/
inductive ShapesFields :
    List (String × FieldDescription) → List (String × ActionOption) → Prop
  | nil : ShapesFields [] []
  | cons {name : String} {field : FieldDescription} {o : ActionOption}
      {fields : List (String × FieldDescription)} {options : List (String × ActionOption)}
      (carried : Carries name field o) (type : Shapes field.type o.type)
      (rest : ShapesFields fields options) :
      ShapesFields ((name, field) :: fields) ((name, o) :: options)

end

namespace Normalizer

/-- What a normalizer asks of a node. -/
structure Accepts (n : Normalizer) (s : Spot) : Prop where
  shallow : s.depth ≤ n.maxDepth
  named : ∀ name, s.description = .named name → IsTypeName name
  single : ∀ items, s.description = .list items → items.length = 1

/-- What a normalizer says of a node that it does not accept: first that it lies too deep. -/
inductive Refuses (n : Normalizer) (s : Spot) : DataError → Prop
  | deep (deeper : n.maxDepth < s.depth) :
      Refuses n s (.invalidType s.path s!"nesting deeper than {n.maxDepth} levels")
  | unknown {name : String} (shallow : s.depth ≤ n.maxDepth) (named : s.description = .named name)
      (unknown : ¬IsTypeName name) : Refuses n s (.unknownType name s.path)
  | arity {items : List TypeDescription} (shallow : s.depth ≤ n.maxDepth)
      (list : s.description = .list items) (other : items.length ≠ 1) :
      Refuses n s (.invalidType s.path
        s!"list type must have exactly one element, got {items.length}")

variable {n : Normalizer}

theorem Refuses.not_accepts {s : Spot} {e : DataError} (refused : n.Refuses s e) :
    ¬n.Accepts s := by
  intro accepted
  have shallow := accepted.shallow
  cases refused with
  | deep deeper => omega
  | unknown _ named unknown => exact unknown (accepted.named _ named)
  | arity _ list other => exact other (accepted.single _ list)

/-- What comes of some nodes: a result where all are accepted, else the error of the first one that
is not. -/
def Settles {α : Type} (n : Normalizer) (spots : List Spot) (Result : α → Prop) :
    Except DataError α → Prop
  | .ok a => (∀ s ∈ spots, n.Accepts s) ∧ Result a
  | .error e => ∃ before s after, spots = before ++ s :: after ∧
      (∀ b ∈ before, n.Accepts b) ∧ n.Refuses s e

namespace Settles

variable {α β γ : Type} {first second : List Spot} {Result : α → Prop} {Other : β → Prop}
  {Both : γ → Prop} {x : Except DataError α} {y : Except DataError β} {s : Spot}

theorem refused {e : DataError} (refused : n.Refuses s e) (rest : List Spot) :
    Settles n (s :: rest) Result (.error e) :=
  ⟨[], s, rest, rfl, by simp, refused⟩

theorem map {f : α → γ} (settled : Settles n first Result x)
    (result : ∀ a, Result a → Both (f a)) : Settles n first Both (x >>= fun a => .ok (f a)) := by
  cases x with
  | error e => exact settled
  | ok a => exact ⟨settled.1, result a settled.2⟩

theorem cons (accepted : n.Accepts s) (settled : Settles n first Result x) :
    Settles n (s :: first) Result x := by
  cases x with
  | error e =>
    obtain ⟨before, t, after, rfl, sound, refused⟩ := settled
    refine ⟨s :: before, t, after, rfl, ?_, refused⟩
    simpa [accepted] using sound
  | ok a => exact ⟨by simpa [accepted] using settled.1, settled.2⟩

/-- The nodes of a second part come after those of the first, and so do their errors. -/
theorem append {f : α → β → γ} (one : Settles n first Result x) (two : Settles n second Other y)
    (result : ∀ a b, Result a → Other b → Both (f a b)) :
    Settles n (first ++ second) Both (x >>= fun a => y >>= fun b => .ok (f a b)) := by
  cases x with
  | error e =>
    obtain ⟨before, s, after, rfl, sound, refused⟩ := one
    exact ⟨before, s, after ++ second, by simp, sound, refused⟩
  | ok a =>
    cases y with
    | error e =>
      obtain ⟨before, s, after, rfl, sound, refused⟩ := two
      refine ⟨first ++ before, s, after, by simp, ?_, refused⟩
      intro b member
      exact (List.mem_append.mp member).elim (one.1 b) (sound b)
    | ok b =>
      refine ⟨?_, result a b one.2 two.2⟩
      intro s member
      exact (List.mem_append.mp member).elim (one.1 s) (two.1 s)

end Settles

theorem joinPath_eq (parent name : String) :
    joinPath parent name = Step.onto parent (.field name) := by
  simp [joinPath, Step.onto]

theorem carries_describedOption (n : Normalizer) (name path : String) (field : FieldDescription)
    (type : OptionType) : Carries name field (n.describedOption name path field type) := by
  constructor
  case allowedValues => simp [describedOption, fillAllowedValue]
  all_goals rfl

theorem isTypeName_iff {name : String} :
    IsTypeName name ↔ ∃ type, PrimitiveType.ofName? name = some type := by
  simp only [IsTypeName, PrimitiveType.ofName?_eq_some_iff]

theorem optionAt_eq (n : Normalizer) (name path : String) (depth : Nat)
    (field : FieldDescription) : n.optionAt name path depth field =
      n.typeAt path depth field.type >>= fun type =>
        .ok (n.describedOption name path field type) := by
  cases field
  rw [optionAt]
  rfl

/-- What comes of a field once it is known what comes of its type. -/
theorem optionAt_settles {spots : List Spot} {name path : String} {depth : Nat}
    {field : FieldDescription}
    (type : Settles n spots (Shapes field.type) (n.typeAt path depth field.type)) :
    Settles n spots (fun o => Carries name field o ∧ Shapes field.type o.type)
      (n.optionAt name path depth field) := by
  rw [optionAt_eq]
  exact type.map fun type shaped => ⟨n.carries_describedOption name path field type, shaped⟩

theorem settles_deep {α : Type} {Result : α → Prop} {root : String} {steps : List Step}
    (d : TypeDescription) (deeper : n.maxDepth < steps.length) (rest : List Spot) :
    Settles n (⟨root, steps, d⟩ :: rest) Result (.error (n.tooDeep (pathAlong root steps))) :=
  .refused (.deep (s := ⟨root, steps, d⟩) deeper) rest

mutual

theorem typeAt_settles (n : Normalizer) (root : String) (steps : List Step) :
    (d : TypeDescription) → Settles n (d.spots root steps) (Shapes d)
      (n.typeAt (pathAlong root steps) steps.length d)
  | .named name => by
    unfold typeAt TypeDescription.spots
    split
    next deeper => exact settles_deep _ deeper _
    next shallow =>
      have shallow : Spot.depth ⟨root, steps, .named name⟩ ≤ n.maxDepth := Nat.le_of_not_lt shallow
      split
      next p found =>
        have rendered := PrimitiveType.ofName?_eq_some_iff.mp found
        refine ⟨?_, .named rendered.2⟩
        simp only [List.mem_singleton, forall_eq]
        exact ⟨shallow, fun _ same => by cases same; exact ⟨p, rendered⟩, nofun⟩
      next unknown =>
        refine .refused (.unknown shallow rfl ?_) []
        simp [isTypeName_iff, unknown]
  | .list items => by
    unfold typeAt TypeDescription.spots
    split
    next deeper => exact settles_deep _ deeper _
    next shallow =>
      have shallow : Spot.depth ⟨root, steps, .list items⟩ ≤ n.maxDepth := Nat.le_of_not_lt shallow
      split
      next item =>
        have inner := typeAt_settles n root (steps ++ [.item]) item
        rw [pathAlong_concat, List.length_append] at inner
        refine .cons ⟨shallow, nofun, fun _ same => by cases same; rfl⟩ ?_
        rw [TypeDescription.itemSpots, TypeDescription.itemSpots, List.append_nil]
        exact inner.map fun type shaped => .list shaped
      next other =>
        refine .refused (.arity shallow rfl fun one => ?_) _
        obtain ⟨item, rfl⟩ := List.length_eq_one_iff.mp one
        exact other item rfl
  | .fields fields => by
    unfold typeAt TypeDescription.spots
    split
    next deeper => exact settles_deep _ deeper _
    next shallow =>
      have shallow : Spot.depth ⟨root, steps, .fields fields⟩ ≤ n.maxDepth :=
        Nat.le_of_not_lt shallow
      have inner := optionsAt_settles n root steps fields
      exact .cons ⟨shallow, nofun, nofun⟩ (inner.map fun options shaped => .fields shaped)

theorem optionsAt_settles (n : Normalizer) (root : String) (steps : List Step) :
    (fields : List (String × FieldDescription)) →
      Settles n (TypeDescription.fieldSpots root steps fields) (ShapesFields fields)
        (n.optionsAt (pathAlong root steps) (steps.length + 1) fields)
  | [] => by
    rw [optionsAt, TypeDescription.fieldSpots]
    exact ⟨nofun, .nil⟩
  | (name, { type, .. }) :: rest => by
    have inner := typeAt_settles n root (steps ++ [.field name]) type
    rw [pathAlong_concat, List.length_append, ← joinPath_eq] at inner
    rw [optionsAt, TypeDescription.fieldSpots]
    exact (optionAt_settles inner).append (optionsAt_settles n root steps rest)
      fun o options shaped all => .cons shaped.1 shaped.2 all

end

theorem rootSpots_settles (n : Normalizer) (fields : Entries FieldDescription) :
    Settles n (rootSpots fields) (ShapesFields fields) (n.normalizeFields fields) := by
  unfold normalizeFields
  induction fields with
  | nil =>
    rw [optionsAt]
    exact ⟨nofun, .nil⟩
  | cons entry rest ih =>
    obtain ⟨name, field⟩ := entry
    have root : joinPath "" name = name := rfl
    rw [optionsAt, rootSpots, List.flatMap_cons, root]
    exact (optionAt_settles (typeAt_settles n name [] field.type)).append ih
      fun o options shaped all => .cons shaped.1 shaped.2 all

/-- A normalization succeeds where all of its nodes are accepted, with a right result, and fails
with the error of the first node that is not. -/
structure Exact {α : Type} (n : Normalizer) (spots : List Spot) (Result : α → Prop)
    (outcome : Except DataError α) : Prop where
  succeeds : (∃ a, outcome = .ok a) ↔ ∀ s ∈ spots, n.Accepts s
  result : ∀ a, outcome = .ok a → Result a
  fails : ∀ e, outcome = .error e → ∃ before s after, spots = before ++ s :: after ∧
    (∀ b ∈ before, n.Accepts b) ∧ ¬n.Accepts s ∧ n.Refuses s e

theorem Settles.exact {α : Type} {spots : List Spot} {Result : α → Prop}
    {outcome : Except DataError α} (settled : Settles n spots Result outcome) :
    Exact n spots Result outcome := by
  cases outcome with
  | ok a =>
    obtain ⟨accepted, right⟩ := settled
    exact ⟨⟨fun _ => accepted, fun _ => ⟨a, rfl⟩⟩, by rintro _ ⟨⟩; exact right, nofun⟩
  | error e =>
    obtain ⟨before, s, after, rfl, accepted, refused⟩ := settled
    refine ⟨⟨nofun, fun all => ?_⟩, nofun, ?_⟩
    · exact absurd (all s (by simp)) refused.not_accepts
    · rintro _ ⟨⟩
      exact ⟨before, s, after, rfl, accepted, refused.not_accepts, refused⟩

/-- Types, options and fields are normalized exactly: a name is a type name that renders as it was,
a list has one item, no node lies too deep, and of several faults the first in pre-order counts. -/
theorem normalization_is_exact (n : Normalizer) (name : String) (d : TypeDescription)
    (field : FieldDescription) (fields : Entries FieldDescription) :
    Exact n (d.spots "" []) (Shapes d) (n.normalizeType d) ∧
    Exact n (d.spots name []) (fun o => Carries name { type := d } o ∧ Shapes d o.type)
      (n.normalize name d) ∧
    Exact n (field.type.spots name []) (fun o => Carries name field o ∧ Shapes field.type o.type)
      (n.normalizeField name field) ∧
    Exact n (rootSpots fields) (ShapesFields fields) (n.normalizeFields fields) := by
  have type := typeAt_settles n "" [] d
  have bare : Settles n (d.spots name []) (fun o => Carries name { type := d } o ∧ Shapes d o.type)
      (n.optionAt name name 0 { type := d }) := optionAt_settles (typeAt_settles n name [] d)
  have described : Settles n (field.type.spots name [])
      (fun o => Carries name field o ∧ Shapes field.type o.type) (n.normalizeField name field) :=
    optionAt_settles (typeAt_settles n name [] field.type)
  rw [optionAt_eq] at bare
  exact ⟨type.exact, bare.exact, described.exact, (rootSpots_settles n fields).exact⟩

end Normalizer

end ActionCatalogue
