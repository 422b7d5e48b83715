import ActionCatalogue.Proofs.Passes
import ActionCatalogue.Swagger.Conversion

/-!
A conversion step by step. The description of a schema is that of the definition it refers to, or is
put together from the descriptions of the schemas directly below it. So a conversion is a recursion
with four cases, and looks only at what can be reached from its schema: its outcome is the same in
every document, and above every stack, that agree on the definitions it mentions.
-/

namespace ActionCatalogue.Swagger

/-- A name with a star before it, if it has none. -/
def starOnce (name : String) : String :=
  if name.toList.head? = some '*' then name else "*" ++ name

theorem withNull_named (nullable : Bool) (name : String) :
    withNull nullable (.named name) = .named (if nullable then starOnce name else name) := by
  by_cases starred : name.toList.head? = some '*' <;> cases nullable <;>
    simp [withNull, starOnce, starred]

namespace Schema

/-- The schemas that stand directly below one that is no reference. -/
inductive Below (s : Schema) : Schema → Prop
  | property {key : String} {t : Schema} (member : (key, t) ∈ s.properties) : Below s t
  | items {t : Schema} (has : s.items = some t) : Below s t
  | part {t : Schema} (member : t ∈ s.allOf) : Below s t

variable {s t : Schema}

theorem Below.sizeOf_lt (below : s.Below t) : sizeOf t < sizeOf s := by
  cases below with
  | property member =>
    have whole := sizeOf_properties_lt s
    have part := List.sizeOf_lt_of_mem member
    simp only [Prod.mk.sizeOf_spec] at part
    omega
  | items has => exact sizeOf_items_lt has
  | part member =>
    have whole := sizeOf_allOf_lt s
    have part := List.sizeOf_lt_of_mem member
    omega

theorem not_below (noProperties : s.properties = []) (noItems : s.items = none)
    (noParts : s.allOf = []) : ¬s.Below t := by
  intro below
  cases below with
  | property member => simp [noProperties] at member
  | items has => simp [noItems] at has
  | part member => simp [noParts] at member

/-! ### Descriptions from descriptions

In what follows `convert` describes the schemas below a schema. -/

variable (convert : Schema → Except SwaggerError TypeDescription)

def fieldWith (required : List String) (property : String × Schema) :
    Except SwaggerError (String × FieldDescription) := do
  return (property.1, property.2.describedBy (required.contains property.1) (← convert property.2))

def fieldsWith (required : List String) (properties : List (String × Schema)) :
    Except SwaggerError (Entries FieldDescription) :=
  properties.mapM (fieldWith convert required)

/-- The description of an object from its fields. -/
def ofFields (fields : Entries FieldDescription) : TypeDescription :=
  if fields.isEmpty then .named "hash" else .fields fields

/-- The fields of the parts of a composite, later ones over earlier ones; `none` where a part is no
object. -/
def partsWith (merged : Entries FieldDescription) :
    List Schema → Except SwaggerError (Option (Entries FieldDescription))
  | [] => return some merged
  | part :: rest => do
    match ← convert part with
    | .fields fields => partsWith (Entries.putAll merged fields) rest
    | .named name => if namesHash name then partsWith merged rest else return none
    | .list _ => return none

/-- The description of a schema that is no composite, before null is allowed. -/
def plainWith (s : Schema) : Except SwaggerError TypeDescription :=
  match s.type with
  | some "object" => ofFields <$> fieldsWith convert s.required s.properties
  | none =>
    if s.properties.isEmpty then return .named "any"
    else ofFields <$> fieldsWith convert s.required s.properties
  | some "array" => match s.items with
    | some items => (fun item => .list [item]) <$> convert items
    | none => return .named "list"
  | some type => return .named (typeName type s.format)

/-- The description of a composite. -/
def compositeWith (s : Schema) : Except SwaggerError TypeDescription := do
  match ← partsWith convert [] s.allOf with
  | none => return .named "hash"
  | some merged =>
    return ofFields (Entries.putAll merged (← fieldsWith convert s.required s.properties))

/-- The description of a schema that is no reference. -/
def describeWith (s : Schema) : Except SwaggerError TypeDescription :=
  if s.allOf.isEmpty then withNull s.nullable <$> plainWith convert s else compositeWith convert s

/-- What a schema that is no reference can be described by: the fields of an object or of a
composite, a list of one item, or a name. -/
inductive Described (s : Schema) : TypeDescription → Prop
  | object {own : Entries FieldDescription} (noParts : s.allOf = [])
      (found : fieldsWith convert s.required s.properties = .ok own) : Described s (.fields own)
  | composite {merged own : Entries FieldDescription} (parts : s.allOf ≠ [])
      (given : partsWith convert [] s.allOf = .ok (some merged))
      (found : fieldsWith convert s.required s.properties = .ok own) :
      Described s (.fields (Entries.putAll merged own))
  | list {t : Schema} {item : TypeDescription} (has : s.items = some t)
      (converted : convert t = .ok item) : Described s (.list [item])
  | named {base : String} (noParts : s.allOf = [])
      (known : base ∈ ["hash", "any", "list"] ∨
        ∃ type, s.type = some type ∧ base = typeName type s.format) :
      Described s (.named (if s.nullable then starOnce base else base))
  | hash (parts : s.allOf ≠ []) : Described s (.named "hash")

variable {convert} {other : Schema → Except SwaggerError TypeDescription} {a : TypeDescription}

theorem described_of_plainWith (noParts : s.allOf = []) (plain : plainWith convert s = .ok a) :
    Described convert s (withNull s.nullable a) := by
  have named : ∀ base, (base ∈ ["hash", "any", "list"] ∨
      ∃ type, s.type = some type ∧ base = typeName type s.format) →
        Described convert s (withNull s.nullable (.named base)) := by
    intro base known
    rw [withNull_named]
    exact .named noParts known
  have object : ofFields <$> fieldsWith convert s.required s.properties = .ok a →
      Described convert s (withNull s.nullable a) := by
    intro made
    rw [map_eq_pure_bind] at made
    obtain ⟨own, found, made⟩ := exists_of_bind_eq_ok made
    cases made
    unfold ofFields
    split
    · exact named "hash" (.inl (by simp))
    · exact .object noParts found
  unfold plainWith at plain
  split at plain
  next => exact object plain
  next =>
    split at plain
    · cases plain
      exact named "any" (.inl (by simp))
    · exact object plain
  next =>
    split at plain
    next items has =>
      rw [map_eq_pure_bind] at plain
      obtain ⟨item, converted, plain⟩ := exists_of_bind_eq_ok plain
      cases plain
      exact .list has converted
    next =>
      cases plain
      exact named "list" (.inl (by simp))
  next type _ _ typed =>
    cases plain
    exact named _ (.inr ⟨type, typed, rfl⟩)

theorem described_of_compositeWith (parts : s.allOf ≠ []) (made : compositeWith convert s = .ok a) :
    Described convert s a := by
  obtain ⟨found, given, made⟩ := exists_of_bind_eq_ok made
  cases found with
  | none =>
    cases made
    exact .hash parts
  | some merged =>
    obtain ⟨own, found, made⟩ := exists_of_bind_eq_ok made
    cases made
    unfold ofFields
    split
    · exact .hash parts
    · exact .composite parts given found

theorem described_of_describeWith (described : describeWith convert s = .ok a) :
    Described convert s a := by
  unfold describeWith at described
  split at described
  next noParts =>
    rw [map_eq_pure_bind] at described
    obtain ⟨plain, found, described⟩ := exists_of_bind_eq_ok described
    cases described
    exact described_of_plainWith (List.isEmpty_iff.mp noParts) found
  next parts => exact described_of_compositeWith (by simpa using parts) described

theorem fieldsWith_congr {required : List String} {properties : List (String × Schema)}
    (same : ∀ property ∈ properties, convert property.2 = other property.2) :
    fieldsWith convert required properties = fieldsWith other required properties := by
  apply Pass.mapM_congr
  intro property member
  rw [fieldWith, fieldWith, same property member]

theorem partsWith_congr {parts : List Schema} (same : ∀ part ∈ parts, convert part = other part)
    (merged : Entries FieldDescription) :
    partsWith convert merged parts = partsWith other merged parts := by
  induction parts generalizing merged with
  | nil => rfl
  | cons part rest ih =>
    have later := ih fun p member => same p (List.mem_cons_of_mem _ member)
    simp only [partsWith, same part List.mem_cons_self, later]

/-- The description of a schema depends on those of the schemas below it. -/
theorem describeWith_congr (same : ∀ t, s.Below t → convert t = other t) :
    describeWith convert s = describeWith other s := by
  have fields : fieldsWith convert s.required s.properties =
      fieldsWith other s.required s.properties :=
    fieldsWith_congr fun property member => same property.2 (.property member)
  have parts : partsWith convert [] s.allOf = partsWith other [] s.allOf :=
    partsWith_congr (fun part member => same part (.part member)) []
  have plain : plainWith convert s = plainWith other s := by
    simp only [plainWith, fields]
    cases has : s.items with
    | none => rfl
    | some items => simp only [same items (.items has)]
  simp only [describeWith, compositeWith, fields, parts, plain]

end Schema

namespace Document

variable {d e : Document} {s t u : Schema} {active other : List String} {name : String}

theorem convertFields_eq (d : Document) (active required : List String)
    (properties : List (String × Schema)) :
    d.convertFields active required properties =
      Schema.fieldsWith (d.convert active) required properties := by
  induction properties with
  | nil =>
    rw [convertFields]
    rfl
  | cons property rest ih =>
    obtain ⟨key, t⟩ := property
    rw [convertFields, ih, Schema.fieldsWith, Schema.fieldsWith, List.mapM_cons, Schema.fieldWith]
    simp only [bind_assoc, pure_bind]

theorem convertParts_eq (d : Document) (active : List String) (merged : Entries FieldDescription)
    (parts : List Schema) :
    d.convertParts active merged parts = Schema.partsWith (d.convert active) merged parts := by
  induction parts generalizing merged with
  | nil =>
    rw [convertParts]
    rfl
  | cons part rest ih =>
    rw [convertParts, Schema.partsWith]
    refine bind_congr fun description => ?_
    cases description with
    | fields fields => exact ih _
    | named name =>
      dsimp only
      rw [ih]
    | list items => rfl

theorem convertObject_eq (d : Document) (active : List String) (s : Schema) :
    d.convertObject active s =
      Schema.ofFields <$> Schema.fieldsWith (d.convert active) s.required s.properties := by
  rw [convertObject, convertFields_eq, map_eq_pure_bind]
  rfl

/-- A schema that is no reference is described from the schemas below it. -/
theorem convert_node (noReference : s.reference = none) :
    d.convert active s = s.describeWith (d.convert active) := by
  by_cases noParts : s.allOf.isEmpty
  · rw [convert_plain noReference noParts, Schema.describeWith, if_pos noParts, Schema.plainWith,
      map_eq_pure_bind]
    simp only [convertObject_eq]
    cases typed : s.type with
    | none =>
      dsimp only
      split <;> rfl
    | some type =>
      by_cases isArray : type = "array"
      · subst isArray
        cases s.items with
        | none => rfl
        | some items =>
          have list : d.convert active items >>= (fun item => pure (.list [item])) =
              ((fun item => .list [item]) <$> d.convert active items) >>= fun list =>
                pure (withNull s.nullable list) := by
            rw [map_eq_pure_bind, bind_assoc]
            rfl
          exact list
      by_cases isObject : type = "object"
      · subst isObject
        rfl
      · simp only
        rfl
  · rw [convert_composite noReference noParts, Schema.describeWith, if_neg noParts,
      Schema.compositeWith, convertParts_eq, convertFields_eq]
    rfl

/-- Induction along a conversion: to the definition that a reference opens, or to the schemas below
one that is no reference. -/
theorem conversion {motive : List String → Schema → Prop}
    (unresolved : ∀ active s reference e, s.reference = some reference →
      d.definition reference = .error e → motive active s)
    (cut : ∀ active s reference name target, s.reference = some reference →
      d.definition reference = .ok (name, target) → name ∈ active → motive active s)
    (opened : ∀ active s reference name target, s.reference = some reference →
      d.definition reference = .ok (name, target) → name ∉ active →
        motive (name :: active) target → motive active s)
    (node : ∀ active s, s.reference = none → (∀ t, s.Below t → motive active t) → motive active s)
    (active : List String) (s : Schema) : motive active s := by
  match isReference : s.reference with
  | none =>
    exact node active s isReference fun t below =>
      conversion unresolved cut opened node active t
  | some reference =>
    match resolved : d.definition reference with
    | .error e => exact unresolved active s reference e isReference resolved
    | .ok (name, target) =>
      by_cases isActive : name ∈ active
      · exact cut active s reference name target isReference resolved isActive
      · exact opened active s reference name target isReference resolved isActive
          (conversion unresolved cut opened node (name :: active) target)
termination_by (d.unopened active, sizeOf s)
decreasing_by
  · exact Prod.Lex.right _ below.sizeOf_lt
  · exact Prod.Lex.left _ _ (unopened_cons_lt (mem_keys_of_definition resolved) isActive)

/-! ### What a conversion can come to -/

/-- The schemas that can be reached from a schema, through references and from any schema to those
below it. -/
inductive Reaches (d : Document) : Schema → Schema → Prop
  | self (s : Schema) : Reaches d s s
  | target {s t u : Schema} {reference name : String} (isReference : s.reference = some reference)
      (resolved : d.definition reference = .ok (name, t)) (rest : Reaches d t u) : Reaches d s u
  | child {s t u : Schema} (noReference : s.reference = none) (below : s.Below t)
      (rest : Reaches d t u) : Reaches d s u

theorem Reaches.trans (first : d.Reaches s t) (second : d.Reaches t u) : d.Reaches s u := by
  induction first with
  | self => exact second
  | target isReference resolved _ ih => exact .target isReference resolved (ih second)
  | child noReference below _ ih => exact .child noReference below (ih second)

/-- What can be reached is among any schemas that no step leads out of. -/
theorem Reaches.stays (reached : d.Reaches s t) (among : Schema → Prop) (start : among s)
    (target : ∀ s reference name t, among s → s.reference = some reference →
      d.definition reference = .ok (name, t) → among t)
    (child : ∀ s t, among s → s.reference = none → s.Below t → among t) : among t := by
  induction reached with
  | self => exact start
  | target isReference resolved _ ih => exact ih (target _ _ _ _ start isReference resolved)
  | child noReference below _ ih => exact ih (child _ _ start noReference below)

/-- From a schema that is no reference and has none below it nothing else is reached. -/
theorem Reaches.eq_of_leaf (reached : d.Reaches s u) (noReference : s.reference = none)
    (leaf : ∀ t, ¬s.Below t) : u = s := by
  cases reached with
  | self => rfl
  | target isReference =>
    rw [noReference] at isReference
    cases isReference
  | child _ below => exact absurd below (leaf _)

/-- A definition is mentioned from a schema if a reference that can be reached has its name,
whether the document has the definition or not. -/
def Mentions (d : Document) (s : Schema) (name : String) : Prop :=
  ∃ t reference, d.Reaches s t ∧ t.reference = some reference ∧
    Pointer.nameIn "definitions" reference = .ok name

theorem Mentions.of_reaches (reached : d.Reaches s t) (mentioned : d.Mentions t name) :
    d.Mentions s name := by
  obtain ⟨u, reference, later, isReference, named⟩ := mentioned
  exact ⟨u, reference, reached.trans later, isReference, named⟩

theorem lookupIn_eq_ok_iff {α : Type} {sectionName reference : String} {entries : Entries α}
    {a : α} : lookupIn sectionName entries reference = .ok (name, a) ↔
      Pointer.nameIn sectionName reference = .ok name ∧ Entries.lookup name entries = some a := by
  unfold lookupIn
  cases Pointer.nameIn sectionName reference with
  | error e => simp
  | ok other =>
    dsimp only
    cases found : Entries.lookup other entries with
    | none =>
      simp only [reduceCtorEq, Except.ok.injEq, false_iff, not_and]
      rintro rfl
      simp [found]
    | some b =>
      simp only [Except.ok.injEq, Prod.mk.injEq]
      constructor
      · rintro ⟨rfl, rfl⟩
        exact ⟨rfl, found⟩
      · rintro ⟨rfl, has⟩
        exact ⟨rfl, Option.some.inj (found.symm.trans has)⟩

theorem resolve_pointer_eq_ok_iff {α : Type} {sectionName reference : String} {entries : Entries α}
    {a : α} : resolve sectionName entries (.pointer reference) = .ok a ↔
      ∃ name, Pointer.nameIn sectionName reference = .ok name ∧
        Entries.lookup name entries = some a := by
  simp only [← lookupIn_eq_ok_iff, resolve]
  cases lookupIn sectionName entries reference <;> simp [Prod.ext_iff]

theorem definition_eq_ok_iff {reference : String} : d.definition reference = .ok (name, t) ↔
    Pointer.nameIn "definitions" reference = .ok name ∧
      Entries.lookup name d.definitions = some t :=
  lookupIn_eq_ok_iff

theorem mentions_of_definition {reference : String} (isReference : s.reference = some reference)
    (resolved : d.definition reference = .ok (name, t)) : d.Mentions s name :=
  ⟨s, reference, .self s, isReference, (definition_eq_ok_iff.mp resolved).1⟩

/-- Seen from a schema, two documents have the same definitions, and the same ones are being
converted. -/
structure SameFrom (d e : Document) (active other : List String) (s : Schema) : Prop where
  definitions : ∀ name, d.Mentions s name →
    Entries.lookup name d.definitions = Entries.lookup name e.definitions
  active : ∀ name, d.Mentions s name → (name ∈ active ↔ name ∈ other)

namespace SameFrom

theorem of_reaches (same : SameFrom d e active other s) (reached : d.Reaches s t) :
    SameFrom d e active other t where
  definitions name mentioned := same.definitions name (mentioned.of_reaches reached)
  active name mentioned := same.active name (mentioned.of_reaches reached)

theorem push (same : SameFrom d e active other s) (name : String) :
    SameFrom d e (name :: active) (name :: other) s where
  definitions := same.definitions
  active found mentioned := by simp only [List.mem_cons, same.active found mentioned]

theorem definition (same : SameFrom d e active other s) {reference : String}
    (isReference : s.reference = some reference) :
    e.definition reference = d.definition reference := by
  unfold Document.definition lookupIn
  cases named : Pointer.nameIn "definitions" reference with
  | error _ => rfl
  | ok name =>
    have mentioned : d.Mentions s name := ⟨s, reference, .self s, isReference, named⟩
    simp only [same.definitions name mentioned]

end SameFrom

/-- A conversion depends only on what can be reached from its schema. -/
theorem convert_congr (same : SameFrom d e active other s) :
    d.convert active s = e.convert other s := by
  induction active, s using conversion (d := d) generalizing other with
  | unresolved active s reference e isReference unresolved =>
    rw [convert_unresolved isReference unresolved,
      convert_unresolved isReference ((same.definition isReference).trans unresolved)]
  | cut active s reference name target isReference resolved isActive =>
    have isOther := (same.active name (mentions_of_definition isReference resolved)).mp isActive
    rw [convert_active isReference resolved isActive,
      convert_active isReference ((same.definition isReference).trans resolved) isOther]
  | opened active s reference name target isReference resolved fresh ih =>
    have free : name ∉ other :=
      fun taken =>
        fresh ((same.active name (mentions_of_definition isReference resolved)).mpr taken)
    have inner := ih ((same.of_reaches (.target isReference resolved (.self target))).push name)
    rw [convert_fresh isReference resolved fresh,
      convert_fresh isReference ((same.definition isReference).trans resolved) free, inner]
  | node active s noReference ih =>
    rw [convert_node noReference, convert_node noReference]
    exact Schema.describeWith_congr fun t below =>
      ih t below (same.of_reaches (.child noReference below (.self t)))

end Document

end ActionCatalogue.Swagger
