import ActionCatalogue.Proofs.ConversionSteps

/-!
References are transparent for types. A schema is inlined by putting in the place of every reference
what its definition is inlined to. Where no definition leads back to itself, every schema can be
inlined, and describes the same types as before: the same type names and lists, and fields with the
same keys, in the same order, of which the same are required. Titles, texts and values are not among
them, as a reference has its own.
-/

namespace ActionCatalogue

/-- What a description says of types: names, lists, and keys that are required or not. -/
inductive Skeleton where
  | named (name : String)
  | list (items : List Skeleton)
  | fields (fields : List (String × Bool × Skeleton))

namespace TypeDescription

mutual

def skeleton : TypeDescription → Skeleton
  | .named name => .named name
  | .list items => .list (itemSkeletons items)
  | .fields fs => .fields (fieldSkeletons fs)

def itemSkeletons : List TypeDescription → List Skeleton
  | [] => []
  | d :: rest => d.skeleton :: itemSkeletons rest

def fieldSkeletons : List (String × FieldDescription) → List (String × Bool × Skeleton)
  | [] => []
  | (name, { type, required, .. }) :: rest =>
    (name, required, type.skeleton) :: fieldSkeletons rest

end

end TypeDescription

def FieldDescription.skeleton (f : FieldDescription) : Bool × Skeleton :=
  (f.required, f.type.skeleton)

theorem TypeDescription.fieldSkeletons_eq (fields : List (String × FieldDescription)) :
    fieldSkeletons fields = Entries.mapValues FieldDescription.skeleton fields := by
  induction fields with
  | nil => rfl
  | cons field rest ih =>
    obtain ⟨name, ⟨⟩⟩ := field
    rw [fieldSkeletons, ih]
    rfl

namespace Swagger

/-- Two computations both succeed, with results that are related. -/
def Both {ε α β : Type} (R : α → β → Prop) (x : Except ε α) (y : Except ε β) : Prop :=
  ∃ a b, x = .ok a ∧ y = .ok b ∧ R a b

namespace Both

variable {ε α β γ δ : Type} {R : α → β → Prop} {S : γ → δ → Prop} {x : Except ε α} {y : Except ε β}

theorem ok {a : α} {b : β} (related : R a b) : Both R (.ok a : Except ε α) (.ok b) :=
  ⟨a, b, rfl, rfl, related⟩

theorem bind {f : α → Except ε γ} {g : β → Except ε δ} (first : Both R x y)
    (next : ∀ a b, R a b → Both S (f a) (g b)) : Both S (x >>= f) (y >>= g) := by
  obtain ⟨a, b, rfl, rfl, related⟩ := first
  exact next a b related

theorem map {f : α → γ} {g : β → δ} (first : Both R x y) (next : ∀ a b, R a b → S (f a) (g b)) :
    Both S (f <$> x) (g <$> y) := by
  obtain ⟨a, b, rfl, rfl, related⟩ := first
  exact ok (next a b related)

end Both

/-! ### Descriptions with the same skeleton -/

def SameSkeleton (a b : TypeDescription) : Prop := a.skeleton = b.skeleton

def SameFields (first second : Entries FieldDescription) : Prop :=
  Entries.mapValues FieldDescription.skeleton first =
    Entries.mapValues FieldDescription.skeleton second

theorem sameSkeleton_fields {first second : Entries FieldDescription} :
    SameSkeleton (.fields first) (.fields second) ↔ SameFields first second := by
  simp [SameSkeleton, SameFields, TypeDescription.skeleton, TypeDescription.fieldSkeletons_eq]

theorem isEmpty_of_length {α β : Type} {xs : List α} {ys : List β} (same : xs.length = ys.length) :
    xs.isEmpty = ys.isEmpty := by
  rw [Bool.eq_iff_iff, List.isEmpty_iff_length_eq_zero, List.isEmpty_iff_length_eq_zero, same]

theorem SameFields.isEmpty {first second : Entries FieldDescription}
    (same : SameFields first second) : first.isEmpty = second.isEmpty := by
  have lengths := congrArg List.length same
  simp only [Entries.mapValues, List.length_map] at lengths
  exact isEmpty_of_length lengths

theorem SameFields.putAll {first second others further : Entries FieldDescription}
    (same : SameFields first second) (later : SameFields others further) :
    SameFields (Entries.putAll first others) (Entries.putAll second further) := by
  simp only [SameFields, Entries.mapValues_putAll] at *
  rw [same, later]

theorem SameFields.ofFields {first second : Entries FieldDescription}
    (same : SameFields first second) :
    SameSkeleton (Schema.ofFields first) (Schema.ofFields second) := by
  unfold Schema.ofFields
  rw [← same.isEmpty]
  split
  · rfl
  · exact sameSkeleton_fields.mpr same

theorem SameSkeleton.withNull {a b : TypeDescription} (same : SameSkeleton a b) (nullable : Bool) :
    SameSkeleton (withNull nullable a) (withNull nullable b) := by
  cases a <;> cases b <;>
    simp only [SameSkeleton, TypeDescription.skeleton, Skeleton.named.injEq, reduceCtorEq] at same
  case named.named =>
    rw [same]
    rfl
  all_goals simpa [SameSkeleton, Swagger.withNull, TypeDescription.skeleton] using same

/-- Both conversions of two schemas succeed, with the same skeleton. -/
def Alike (convert other : Schema → Except SwaggerError TypeDescription) (s t : Schema) : Prop :=
  Both SameSkeleton (convert s) (other t)

namespace Schema

variable {convert other : Schema → Except SwaggerError TypeDescription} {s : Schema}

theorem fieldsWith_alike {required : List String} {first second : List (String × Schema)}
    (keys : Entries.keys second = Entries.keys first)
    (values : List.Forall₂ (Alike convert other) (Entries.values first) (Entries.values second)) :
    Both SameFields (fieldsWith convert required first) (fieldsWith other required second) := by
  induction first generalizing second with
  | nil =>
    obtain rfl : second = [] := List.map_eq_nil_iff.mp keys
    exact .ok rfl
  | cons property rest ih =>
    obtain ⟨key, s⟩ := property
    cases second with
    | nil => cases keys
    | cons property further =>
      obtain ⟨name, t⟩ := property
      simp only [Entries.keys, List.map_cons, List.cons.injEq] at keys
      obtain ⟨rfl, keys⟩ := keys
      obtain ⟨alike, values⟩ := List.forall₂_cons.mp values
      have later := ih keys values
      simp only [fieldsWith] at later
      simp only [fieldsWith, List.mapM_cons, fieldWith, bind_assoc, pure_bind]
      refine alike.bind fun a b same => later.bind fun fields others sameFields => .ok ?_
      have first : (s.describedBy (required.contains name) a).skeleton =
          (t.describedBy (required.contains name) b).skeleton :=
        congrArg (Prod.mk (required.contains name)) same
      simp only [SameFields, Entries.mapValues, List.map_cons] at sameFields ⊢
      rw [first, sameFields]

theorem partsWith_alike {parts others : List Schema}
    (alike : List.Forall₂ (Alike convert other) parts others)
    {merged further : Entries FieldDescription} (same : SameFields merged further) :
    Both (Option.Rel SameFields) (partsWith convert merged parts)
      (partsWith other further others) := by
  induction alike generalizing merged further with
  | nil => exact .ok (.some same)
  | cons first _ ih =>
    rw [partsWith, partsWith]
    refine first.bind fun a b skeleton => ?_
    -- both descriptions are of the same kind, and names are the same
    cases a <;> cases b <;>
      simp only [SameSkeleton, TypeDescription.skeleton, Skeleton.named.injEq, reduceCtorEq]
        at skeleton
    case fields.fields => exact ih (same.putAll (sameSkeleton_fields.mp skeleton))
    case named.named =>
      subst skeleton
      dsimp only
      split
      · exact ih same
      · exact .ok .none
    case list.list => exact .ok .none

/-- Schemas with alike schemas below them are described alike. -/
theorem describeWith_alike {properties : List (String × Schema)} {items : Option Schema}
    {allOf : List Schema} (keys : Entries.keys properties = Entries.keys s.properties)
    (values : List.Forall₂ (Alike convert other) (Entries.values s.properties)
      (Entries.values properties))
    (sameItems : Option.Rel (Alike convert other) s.items items)
    (parts : List.Forall₂ (Alike convert other) s.allOf allOf) :
    Both SameSkeleton (describeWith convert s)
      (describeWith other { s with properties, items, allOf }) := by
  have fields : Both SameFields (fieldsWith convert s.required s.properties)
      (fieldsWith other s.required properties) := fieldsWith_alike keys values
  have object : Both SameSkeleton (ofFields <$> fieldsWith convert s.required s.properties)
      (ofFields <$> fieldsWith other s.required properties) :=
    fields.map fun _ _ same => same.ofFields
  have noParts : allOf.isEmpty = s.allOf.isEmpty := isEmpty_of_length parts.length_eq.symm
  have noProperties : properties.isEmpty = s.properties.isEmpty := by
    have lengths := congrArg List.length keys
    rw [Entries.length_keys, Entries.length_keys] at lengths
    exact isEmpty_of_length lengths
  have plain : Both SameSkeleton (plainWith convert s)
      (plainWith other { s with properties, items, allOf }) := by
    simp only [plainWith, noProperties]
    split
    · exact object
    · split
      · exact .ok rfl
      · exact object
    · generalize s.items = given at sameItems
      cases sameItems with
      | none => exact .ok rfl
      | some alike =>
        refine alike.map fun a b same => ?_
        simpa [SameSkeleton, TypeDescription.skeleton, TypeDescription.itemSkeletons] using same
    · exact .ok rfl
  have composite : Both SameSkeleton (compositeWith convert s)
      (compositeWith other { s with properties, items, allOf }) := by
    refine (partsWith_alike parts rfl).bind fun merged further same => ?_
    cases same with
    | none => exact .ok rfl
    | some same => exact fields.bind fun _ _ later => .ok (same.putAll later).ofFields
  simp only [describeWith, noParts]
  split
  · exact plain.map fun _ _ same => same.withNull s.nullable
  · exact composite

end Schema

/-! ### Inlining -/

namespace Document

variable {d : Document} {s t u : Schema} {active other : List String}

/-- The schema that is no reference to which a chain of references leads. -/
inductive Follows (d : Document) : Schema → Schema → Prop
  | here {s : Schema} (noReference : s.reference = none) : Follows d s s
  | next {s t u : Schema} {reference name : String} (isReference : s.reference = some reference)
      (resolved : d.definition reference = .ok (name, t)) (rest : Follows d t u) : Follows d s u

theorem Follows.noReference (follows : d.Follows s t) : t.reference = none := by
  induction follows with
  | here noReference => exact noReference
  | next _ _ _ ih => exact ih

/-- A schema with the target of every reference in its place, in properties, items and parts, and
in the targets themselves. -/
inductive Inlines (d : Document) : Schema → Schema → Prop
  | intro {s t : Schema} {properties : List (String × Schema)} {items : Option Schema}
      {allOf : List Schema} (follows : d.Follows s t)
      (keys : Entries.keys properties = Entries.keys t.properties)
      (values : List.Forall₂ (Inlines d) (Entries.values t.properties) (Entries.values properties))
      (sameItems : Option.Rel (Inlines d) t.items items)
      (parts : List.Forall₂ (Inlines d) t.allOf allOf) :
      Inlines d s { t with properties, items, allOf }

theorem Inlines.noReference (inlined : d.Inlines s t) : t.reference = none := by
  cases inlined with
  | intro follows => exact follows.noReference

/-- What stands below an inlined schema is inlined itself. -/
theorem Inlines.of_below (inlined : d.Inlines s t) (below : t.Below u) : ∃ v, d.Inlines v u := by
  cases inlined with
  | @intro _ target _ _ _ _ _ values sameItems parts =>
    cases below with
    | property member =>
      obtain ⟨v, -, inner⟩ := Pass.exists_of_mem_right values (Entries.mem_values.mpr ⟨_, member⟩)
      exact ⟨v, inner⟩
    | items has =>
      cases has
      generalize target.items = given at sameItems
      cases sameItems with
      | some inner => exact ⟨_, inner⟩
    | part member =>
      obtain ⟨v, -, inner⟩ := Pass.exists_of_mem_right parts member
      exact ⟨v, inner⟩

/-- No reference is left in an inlined schema. -/
theorem Inlines.noReferences (inlined : d.Inlines s t) (reached : d.Reaches t u) :
    u.reference = none := by
  induction reached generalizing s with
  | self => exact inlined.noReference
  | target isReference =>
    rw [inlined.noReference] at isReference
    cases isReference
  | child _ below _ ih =>
    obtain ⟨v, inner⟩ := inlined.of_below below
    exact ih inner

/-- From a schema every reference leads to a definition that does not lead back to itself, and no
reference allows null where its target does not. -/
structure Transparent (d : Document) (s : Schema) : Prop where
  resolves : ∀ t reference, d.Reaches s t → t.reference = some reference →
    ∃ found, d.definition reference = .ok found
  acyclic : ∀ name t, d.Mentions s name → Entries.lookup name d.definitions = some t →
    ¬d.Mentions t name
  notNull : ∀ t reference, d.Reaches s t → t.reference = some reference → t.nullable = false

theorem Transparent.of_reaches (transparent : d.Transparent s) (reached : d.Reaches s t) :
    d.Transparent t where
  resolves u reference later := transparent.resolves u reference (reached.trans later)
  acyclic name u mentioned := transparent.acyclic name u (mentioned.of_reaches reached)
  notNull u reference later := transparent.notNull u reference (reached.trans later)

/-- No definition that is being converted is mentioned from a schema. -/
def Unmentioned (d : Document) (active : List String) (s : Schema) : Prop :=
  ∀ name ∈ active, ¬d.Mentions s name

theorem Unmentioned.of_reaches (unmentioned : d.Unmentioned active s) (reached : d.Reaches s t) :
    d.Unmentioned active t :=
  fun name member mentioned => unmentioned name member (mentioned.of_reaches reached)

theorem reaches_target {reference name : String} (isReference : s.reference = some reference)
    (resolved : d.definition reference = .ok (name, t)) : d.Reaches s t :=
  .target isReference resolved (.self t)

/-- A definition that is opened is not mentioned from its own schema. -/
theorem Unmentioned.push {reference name : String} (unmentioned : d.Unmentioned active s)
    (transparent : d.Transparent s) (isReference : s.reference = some reference)
    (resolved : d.definition reference = .ok (name, t)) : d.Unmentioned (name :: active) t := by
  intro other member mentioned
  rcases List.mem_cons.mp member with rfl | later
  · exact transparent.acyclic other t (mentions_of_definition isReference resolved)
      (definition_eq_ok_iff.mp resolved).2 mentioned
  · exact unmentioned other later (mentioned.of_reaches (reaches_target isReference resolved))

theorem reaches_below (noReference : s.reference = none) (below : s.Below t) : d.Reaches s t :=
  .child noReference below (.self t)

/-- Induction along the conversion of a schema from which every reference leads to a definition that
does not lead back to itself: no reference is cut, and every one is opened. -/
theorem uncutConversion {motive : List String → Schema → Prop}
    (opened : ∀ active s reference name target, s.reference = some reference →
      d.definition reference = .ok (name, target) → name ∉ active → s.nullable = false →
        motive (name :: active) target → motive active s)
    (node : ∀ active s, s.reference = none → (∀ t, s.Below t → motive active t) → motive active s)
    (active : List String) (s : Schema) (transparent : d.Transparent s)
    (unmentioned : d.Unmentioned active s) : motive active s := by
  induction active, s using conversion (d := d) with
  | unresolved active s reference e isReference unresolved =>
    obtain ⟨found, resolved⟩ := transparent.resolves s reference (.self s) isReference
    rw [unresolved] at resolved
    cases resolved
  | cut active s reference name target isReference resolved isActive =>
    exact absurd (mentions_of_definition isReference resolved) (unmentioned name isActive)
  | opened active s reference name target isReference resolved fresh ih =>
    have notNull := transparent.notNull s reference (.self s) isReference
    have inner := ih (transparent.of_reaches (reaches_target isReference resolved))
      (unmentioned.push transparent isReference resolved)
    exact opened active s reference name target isReference resolved fresh notNull inner
  | node active s noReference ih =>
    exact node active s noReference fun t below =>
      ih t below (transparent.of_reaches (reaches_below noReference below))
        (unmentioned.of_reaches (reaches_below noReference below))

theorem exists_inlines (transparent : d.Transparent s) (unmentioned : d.Unmentioned active s) :
    ∃ t, d.Inlines s t := by
  refine uncutConversion (motive := fun _ s => ∃ t, d.Inlines s t) ?opened ?node active s
    transparent
    unmentioned
  case opened =>
    rintro active s reference name target isReference resolved - - ⟨t, inlined⟩
    cases inlined with
    | intro follows keys values sameItems parts =>
      exact ⟨_, .intro (.next isReference resolved follows) keys values sameItems parts⟩
  case node =>
    intro active s noReference each
    have : Nonempty Schema := ⟨s⟩
    choose! inline inlines using each
    refine ⟨{ s with
        properties := Entries.mapValues inline s.properties
        items := s.items.map inline
        allOf := s.allOf.map inline },
      .intro (.here noReference) (Entries.keys_mapValues inline s.properties) ?_ ?_ ?_⟩
    · rw [Entries.values_mapValues, List.forall₂_map_right_iff, List.forall₂_same]
      intro t member
      obtain ⟨key, stands⟩ := Entries.mem_values.mp member
      exact inlines t (.property stands)
    · cases has : s.items with
      | none => exact .none
      | some t => exact .some (inlines t (.items has))
    · rw [List.forall₂_map_right_iff, List.forall₂_same]
      exact fun t member => inlines t (.part member)

theorem withNull_false (a : TypeDescription) : withNull false a = a := by
  cases a <;> rfl

/-- A reference that does not allow null is converted as its definition is. -/
theorem convert_target {reference name : String} (isReference : s.reference = some reference)
    (resolved : d.definition reference = .ok (name, t)) (fresh : name ∉ active)
    (notNull : s.nullable = false) : d.convert active s = d.convert (name :: active) t := by
  rw [convert_fresh isReference resolved fresh, notNull]
  cases d.convert (name :: active) t with
  | error e => rfl
  | ok a => exact congrArg Except.ok (withNull_false a)

/-- A schema and what it is inlined to are converted alike, on any stack that has none of the
definitions that the schema mentions. -/
theorem convert_inlined (transparent : d.Transparent s) (unmentioned : d.Unmentioned active s)
    (inlined : d.Inlines s t) (other : List String) :
    Alike (d.convert active) (d.convert other) s t := by
  refine uncutConversion
    (motive := fun active s => ∀ t, d.Inlines s t → Alike (d.convert active) (d.convert other) s t)
    ?opened ?node active s transparent unmentioned t inlined
  case opened =>
    intro active s reference name target isReference resolved fresh notNull ih t inlined
    rw [Alike, convert_target isReference resolved fresh notNull]
    cases inlined with
    | intro follows keys values sameItems parts =>
      cases follows with
      | here noReference =>
        rw [noReference] at isReference
        cases isReference
      | next again found rest =>
        cases again.symm.trans isReference
        cases found.symm.trans resolved
        exact ih _ (.intro rest keys values sameItems parts)
  case node =>
    intro active s noReference each t inlined
    have noReferenceThere := inlined.noReference
    cases inlined with
    | intro follows keys values sameItems parts =>
      cases follows with
      | next isReference =>
        rw [noReference] at isReference
        cases isReference
      | here =>
        rw [Alike, convert_node noReference, convert_node noReferenceThere]
        refine Schema.describeWith_alike keys ?_ ?_ ?_
        · refine Pass.forall₂_of_mem values fun t u member inner => ?_
          obtain ⟨key, stands⟩ := Entries.mem_values.mp member
          exact each t (.property stands) u inner
        · cases has : s.items with
          | none =>
            rw [has] at sameItems
            cases sameItems
            exact .none
          | some t =>
            rw [has] at sameItems
            cases sameItems with
            | some inner => exact .some (each t (.items has) _ inner)
        · exact Pass.forall₂_of_mem parts fun t u member => each t (.part member) u

/-- The stack makes no difference as long as it has no definition that a schema mentions. -/
theorem convert_unmentioned (unmentioned : d.Unmentioned active s) :
    d.convert active s = d.convert [] s := by
  refine convert_congr ⟨fun _ _ => rfl, fun name mentioned => ?_⟩
  simp only [List.not_mem_nil, iff_false]
  exact fun member => unmentioned name member mentioned

/-- References are transparent for types. Where no definition leads back to itself, a schema can be
inlined, until no reference is left in it, and is then converted to the same skeleton; and the
stack on which a conversion begins makes no difference, as long as it has no definition that the
schema mentions. -/
theorem references_are_transparent (d : Document) (s : Schema) (transparent : d.Transparent s) :
    (∃ t, d.Inlines s t) ∧
    (∀ t, d.Inlines s t → (∀ u, d.Reaches t u → u.reference = none) ∧
      ∀ active other, d.Unmentioned active s → ∃ a b, d.convert active s = .ok a ∧
        d.convert other t = .ok b ∧ a.skeleton = b.skeleton) ∧
    ∀ active, d.Unmentioned active s → d.convert active s = d.convert [] s := by
  have empty : d.Unmentioned [] s := fun _ member => absurd member List.not_mem_nil
  refine ⟨exists_inlines transparent empty, fun t inlined => ⟨?_, ?_⟩, ?_⟩
  · exact fun u reached => inlined.noReferences reached
  · exact fun active other unmentioned => convert_inlined transparent unmentioned inlined other
  · exact fun active unmentioned => convert_unmentioned unmentioned

end Document

def dogName : Schema := { type := some "string", nullable := true }

def dog : Schema := { type := some "object", properties := [("name", dogName)] }

def dogReference : Schema := { reference := some "#/definitions/Dog" }

/-- One definition used twice side by side. -/
def kennel : Document where
  definitions := [("Dog", dog)]

def pair : Schema where
  required := ["older"]
  properties := [("older", dogReference), ("younger", dogReference)]

def inlinedPair : Schema := { pair with properties := [("older", dog), ("younger", dog)] }

theorem of_reaches_dog {s : Schema} (reached : kennel.Reaches dog s) : s = dog ∨ s = dogName := by
  refine reached.stays (fun s => s = dog ∨ s = dogName) (.inl rfl) ?_ ?_
  · rintro _ _ _ _ (rfl | rfl) ⟨⟩
  · rintro _ t (rfl | rfl) - (member | has | member)
    case inl.property =>
      cases List.mem_singleton.mp member
      exact .inr rfl
    all_goals first | cases has | cases member

theorem of_reaches_pair {s : Schema} (reached : kennel.Reaches pair s) :
    s = pair ∨ s = dogReference ∨ s = dog ∨ s = dogName := by
  have found : kennel.definition "#/definitions/Dog" = .ok ("Dog", dog) := rfl
  cases reached with
  | self => exact .inl rfl
  | target isReference => cases isReference
  | child _ below rest =>
    have isReference : ∀ {t}, pair.Below t → t = dogReference := by
      rintro t (member | has | member)
      · simp only [pair, List.mem_cons, Prod.mk.injEq, List.not_mem_nil, or_false] at member
        rcases member with ⟨-, rfl⟩ | ⟨-, rfl⟩ <;> rfl
      · cases has
      · cases member
    cases isReference below
    cases rest with
    | self => exact .inr (.inl rfl)
    | target isReference resolved rest =>
      cases isReference
      cases found.symm.trans resolved
      exact .inr (.inr (of_reaches_dog rest))
    | child noReference => cases noReference

theorem transparent_pair : kennel.Transparent pair where
  resolves s reference reached isReference := by
    rcases of_reaches_pair reached with rfl | rfl | rfl | rfl <;> cases isReference
    exact ⟨("Dog", dog), rfl⟩
  acyclic name s mentioned has again := by
    obtain ⟨t, reference, reached, isReference, named⟩ := mentioned
    have isDog : name = "Dog" := by
      rcases of_reaches_pair reached with rfl | rfl | rfl | rfl <;> cases isReference
      exact (Except.ok.inj named).symm
    subst isDog
    cases has
    obtain ⟨u, reference, reached, isReference, -⟩ := again
    rcases of_reaches_dog reached with rfl | rfl <;> cases isReference
  notNull s reference reached isReference := by
    rcases of_reaches_pair reached with rfl | rfl | rfl | rfl <;> cases isReference
    rfl

theorem inlines_dog : kennel.Inlines dogReference dog := by
  have name : kennel.Inlines dogName dogName := .intro (.here rfl) rfl .nil .none .nil
  have follows : kennel.Follows dogReference dog := .next rfl rfl (.here rfl)
  exact .intro follows rfl (.cons name .nil) .none .nil

theorem inlines_pair : kennel.Inlines pair inlinedPair :=
  .intro (.here rfl) rfl (.cons inlines_dog (.cons inlines_dog .nil)) .none .nil

theorem pair_is_transparent :
    kennel.Transparent pair ∧ kennel.Inlines pair inlinedPair ∧
      ∃ a b, kennel.convert [] pair = .ok a ∧ kennel.convert [] inlinedPair = .ok b ∧
        a.skeleton = b.skeleton := by
  obtain ⟨-, sameTypes, -⟩ := Document.references_are_transparent kennel pair transparent_pair
  exact ⟨transparent_pair, inlines_pair,
    (sameTypes inlinedPair inlines_pair).2 [] [] fun _ member => absurd member List.not_mem_nil⟩

end Swagger

end ActionCatalogue
