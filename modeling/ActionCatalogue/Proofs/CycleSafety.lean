import Mathlib.Data.List.Perm.Subperm
import ActionCatalogue.Swagger.Walk

/-!
Conversions end, whatever the definitions of a document refer to, and leave the stack as they found
it. The walk over a schema is followed along the recursion of `Document.convert`: on every way into
the document either a definition that was not being converted is opened or the schema becomes
smaller, which bounds how deep conversions nest. On the way every stack is the first one with
further definitions on top, all of them different.
-/

namespace ActionCatalogue.Swagger

variable {d : Document} {base stack : List String}

/-- A stack that has grown from another one by definitions of the document, without repetition. -/
structure GrownFrom (d : Document) (base stack : List String) : Prop where
  distinct : stack.Nodup
  opened : ∃ names, stack = names ++ base ∧ ∀ name ∈ names, name ∈ Entries.keys d.definitions

namespace GrownFrom

theorem refl (distinct : base.Nodup) : GrownFrom d base base :=
  ⟨distinct, [], rfl, by simp⟩

/-- What has grown from a stack with one more definition has grown from the stack itself. -/
theorem of_push {name : String} (known : name ∈ Entries.keys d.definitions)
    (grown : GrownFrom d (name :: base) stack) : GrownFrom d base stack := by
  obtain ⟨names, rfl, defined⟩ := grown.opened
  refine ⟨grown.distinct, names ++ [name], by simp, ?_⟩
  intro other member
  rcases List.mem_append.mp member with inside | last
  · exact defined other inside
  · rw [List.mem_singleton.mp last]
    exact known

/-- A stack never grows by more names than the document has definitions. -/
theorem length_le (grown : GrownFrom d base stack) :
    stack.length ≤ base.length + d.definitions.length := by
  obtain ⟨names, rfl, defined⟩ := grown.opened
  have distinct : names.Nodup := (List.nodup_append.mp grown.distinct).1
  have fewer : names.length ≤ (Entries.keys d.definitions).length :=
    (distinct.subperm defined).length_le
  simp only [Entries.keys, List.length_map] at fewer
  rw [List.length_append]
  omega

end GrownFrom

/-- A walk that, begun on a stack, ends with an outcome and the same stack, all its conversions
having begun on stacks that have grown from the first. -/
def Returns (d : Document) (base : List String) {α : Type} (w : Walk α)
    (outcome : Except SwaggerError α) : Prop :=
  ∀ before, ∃ begun, w.run.run ⟨base, before⟩ = some (outcome, ⟨base, before ++ begun⟩) ∧
    ∀ stack ∈ begun, GrownFrom d base stack

namespace Returns

variable {α β : Type}

theorem value (a : α) : Returns d base (pure a) (.ok a) := by
  intro before
  exact ⟨[], by simp, by simp⟩

theorem failure (e : SwaggerError) : Returns d base (throw e : Walk α) (.error e) := by
  intro before
  exact ⟨[], by simp, by simp⟩

theorem bind {w : Walk α} {outcome : Except SwaggerError α} {f : α → Walk β}
    {g : α → Except SwaggerError β} (first : Returns d base w outcome)
    (next : ∀ a, Returns d base (f a) (g a)) : Returns d base (w >>= f) (outcome >>= g) := by
  intro before
  obtain ⟨begun, ran, grown⟩ := first before
  cases outcome with
  | error e =>
    refine ⟨begun, ?_, grown⟩
    rw [ExceptT.run_bind, StateT.run_bind, ran]
    rfl
  | ok a =>
    obtain ⟨more, ended, grows⟩ := next a (before ++ begun)
    refine ⟨begun ++ more, ?_, ?_⟩
    · rw [ExceptT.run_bind, StateT.run_bind, ran, ← List.append_assoc]
      exact ended
    · intro stack member
      exact (List.mem_append.mp member).elim (grown stack) (grows stack)

theorem read {f : Converter → Walk α} {outcome : Except SwaggerError α}
    (next : ∀ before, Returns d base (f ⟨base, before⟩) outcome) :
    Returns d base (get >>= f) outcome := by
  intro before
  exact next before before

theorem begin {w : Walk α} {outcome : Except SwaggerError α} (distinct : base.Nodup)
    (next : Returns d base w outcome) :
    Returns d base (modify Converter.begin >>= fun _ => w) outcome := by
  intro before
  obtain ⟨begun, ended, grown⟩ := next (before ++ [base])
  refine ⟨base :: begun, ?_, ?_⟩
  · rw [List.append_cons]
    exact ended
  · intro stack member
    rcases List.mem_cons.mp member with first | later
    · rw [first]
      exact GrownFrom.refl distinct
    · exact grown stack later

theorem definition {convert : Schema → Walk TypeDescription} {name : String} {target : Schema}
    {outcome : Except SwaggerError TypeDescription} (known : name ∈ Entries.keys d.definitions)
    (inner : Returns d (name :: base) (convert target) outcome) :
    Returns d base (Walk.definition convert name target) outcome := by
  intro before
  obtain ⟨begun, ended, grown⟩ := inner before
  refine ⟨begun, ?_, fun stack member => (grown stack member).of_push known⟩
  change ((convert target).run.run ⟨name :: base, before⟩).bind
    (fun after => some (after.1, after.2.pop)) = _
  rw [ended]
  rfl

end Returns

namespace Document

/-- How much deeper conversions can nest by opening definitions. -/
noncomputable def reach (d : Document) (base : List String) : Nat :=
  d.unopened base * sizeOf d.definitions

theorem sizeOf_lt_of_definition {reference name : String} {target : Schema}
    (resolved : d.definition reference = .ok (name, target)) :
    sizeOf target < sizeOf d.definitions := by
  have member : (name, target) ∈ d.definitions := mem_definitions resolved
  have smaller := List.sizeOf_lt_of_mem member
  simp only [Prod.mk.sizeOf_spec] at smaller
  omega

theorem reach_push {reference name : String} {target : Schema}
    (resolved : d.definition reference = .ok (name, target)) (fresh : name ∉ base) :
    d.reach (name :: base) + sizeOf target < d.reach base := by
  have fewer := unopened_cons_lt (mem_keys_of_definition resolved) fresh
  have smaller := sizeOf_lt_of_definition resolved
  calc d.unopened (name :: base) * sizeOf d.definitions + sizeOf target
      < (d.unopened (name :: base) + 1) * sizeOf d.definitions := by rw [Nat.succ_mul]; omega
    _ ≤ d.unopened base * sizeOf d.definitions := Nat.mul_le_mul_right _ fewer

end Document

/-- A walk has some depth to go, and its first conversion takes one level of it. -/
theorem Returns.nested {s : Schema} {outcome : Except SwaggerError TypeDescription}
    (first : ∀ depth, d.reach base + sizeOf s ≤ depth + 1 →
      Returns d base (Walk.schema (d.walk depth) d s) outcome)
    (depth : Nat) (enough : d.reach base + sizeOf s ≤ depth) :
    Returns d base (d.walk depth s) outcome := by
  cases depth with
  | zero =>
    have positive : 0 < sizeOf s := by
      cases s
      simp only [Schema.mk.sizeOf_spec]
      omega
    omega
  | succ depth => exact first depth enough

open Returns in
/-- Nested deep enough, the walk over a schema ends as the conversion says. -/
theorem walk_returns (d : Document) (base : List String) (s : Schema) (distinct : base.Nodup)
    (depth : Nat) (enough : d.reach base + sizeOf s ≤ depth) :
    Returns d base (d.walk depth s) (d.convert base s) := by
  -- along the recursion of `convert`, in which a stack without repetition stays one
  refine Document.convert.induct d
    (fun base s => base.Nodup → ∀ depth, d.reach base + sizeOf s ≤ depth →
      Returns d base (d.walk depth s) (d.convert base s))
    (fun base required properties => base.Nodup → ∀ depth,
      d.reach base + sizeOf properties ≤ depth →
        Returns d base (Walk.fields (d.walk depth) required properties)
          (d.convertFields base required properties))
    (fun base merged parts => base.Nodup → ∀ depth, d.reach base + sizeOf parts ≤ depth →
      Returns d base (Walk.parts (d.walk depth) merged parts) (d.convertParts base merged parts))
    (fun base s => base.Nodup → ∀ depth, d.reach base + sizeOf s ≤ depth + 1 →
      Returns d base (Walk.object (d.walk depth) s) (d.convertObject base s))
    ?unresolved ?active ?fresh ?object ?untyped ?untypedObject ?list ?bareList ?named ?composite
    ?noFields ?field ?noParts ?part ?properties base s distinct depth enough
  case unresolved =>
    intro base s reference isReference e unresolved distinct
    refine nested fun depth enough => ?_
    rw [Walk.schema, Document.convert_unresolved isReference unresolved]
    simp only [isReference, unresolved]
    exact begin distinct (failure e)
  case active =>
    intro base s reference isReference name target resolved active distinct
    refine nested fun depth enough => ?_
    rw [Walk.schema, Document.convert_active isReference resolved active]
    simp only [isReference, resolved]
    refine begin distinct (read fun before => ?_)
    rw [if_pos active]
    exact value _
  case fresh =>
    intro base s reference isReference name target resolved fresh ih distinct
    refine nested fun depth enough => ?_
    rw [Walk.schema, Document.convert_fresh isReference resolved fresh]
    simp only [isReference, resolved]
    refine begin distinct (read fun before => ?_)
    rw [if_neg fresh]
    have reaches := Document.reach_push resolved fresh
    have inner := ih (List.nodup_cons.mpr ⟨fresh, distinct⟩) depth (by omega)
    exact bind (definition (Document.mem_keys_of_definition resolved) inner) fun _ => value _
  case object =>
    intro base s noReference noParts isObject ih distinct
    refine nested fun depth enough => ?_
    rw [Walk.schema, Document.convert_plain noReference noParts]
    simp only [noReference, noParts, isObject, if_true]
    exact begin distinct (bind (ih distinct depth enough) fun _ => value _)
  case untyped =>
    intro base s noReference noParts untyped noProperties distinct
    refine nested fun depth enough => ?_
    rw [Walk.schema, Document.convert_plain noReference noParts]
    simp only [noReference, noParts, untyped, noProperties, if_true]
    exact begin distinct (value _)
  case untypedObject =>
    intro base s noReference noParts untyped properties ih distinct
    refine nested fun depth enough => ?_
    rw [Walk.schema, Document.convert_plain noReference noParts]
    simp only [noReference, noParts, untyped, if_neg properties, if_true]
    exact begin distinct (bind (ih distinct depth enough) fun _ => value _)
  case list =>
    intro base s noReference noParts isArray items hasItems ih distinct
    refine nested fun depth enough => ?_
    rw [Walk.schema, Document.convert_plain noReference noParts]
    simp only [noReference, noParts, isArray, hasItems, if_true]
    have smaller := Schema.sizeOf_items_lt hasItems
    exact begin distinct (bind (ih distinct depth (by omega)) fun _ => value _)
  case bareList =>
    intro base s noReference noParts isArray noItems distinct
    refine nested fun depth enough => ?_
    rw [Walk.schema, Document.convert_plain noReference noParts]
    simp only [noReference, noParts, isArray, noItems, if_true]
    exact begin distinct (value _)
  case named =>
    intro base s noReference noParts type notObject notArray typed distinct
    refine nested fun depth enough => ?_
    rw [Walk.schema, Document.convert_plain noReference noParts]
    simp only [noReference, noParts, typed, if_true]
    exact begin distinct (value _)
  case composite =>
    intro base s noReference parts ihParts ihFields distinct
    refine nested fun depth enough => ?_
    rw [Walk.schema, Document.convert_composite noReference parts]
    simp only [noReference, if_neg parts]
    have partsSmaller := Schema.sizeOf_allOf_lt s
    have fieldsSmaller := Schema.sizeOf_properties_lt s
    refine begin distinct (bind (ihParts distinct depth (by omega)) fun merged => ?_)
    cases merged with
    | none => exact value _
    | some merged => exact bind (ihFields distinct depth (by omega)) fun _ => value _
  case noFields =>
    intro base required distinct depth enough
    rw [Walk.fields, Document.convertFields]
    exact value _
  case field =>
    intro base required name s rest ihField ihRest distinct depth enough
    simp only [List.cons.sizeOf_spec, Prod.mk.sizeOf_spec] at enough
    rw [Walk.fields, Walk.field, Document.convertFields]
    simp only [bind_assoc, pure_bind]
    exact bind (ihField distinct depth (by omega)) fun _ =>
      bind (ihRest distinct depth (by omega)) fun _ => value _
  case noParts =>
    intro base merged distinct depth enough
    rw [Walk.parts, Document.convertParts]
    exact value _
  case part =>
    intro base merged part rest ihPart ihFields ihRest distinct depth enough
    simp only [List.cons.sizeOf_spec] at enough
    rw [Walk.parts, Document.convertParts]
    refine bind (ihPart distinct depth (by omega)) fun description => ?_
    cases description with
    | fields fields => exact ihFields fields distinct depth (by omega)
    | named name =>
      dsimp only
      by_cases hash : namesHash name
      · rw [if_pos hash, if_pos hash]
        exact ihRest distinct depth (by omega)
      · rw [if_neg hash, if_neg hash]
        exact value _
    | list items => exact value _
  case properties =>
    intro base s ih distinct depth enough
    have smaller := Schema.sizeOf_properties_lt s
    rw [Walk.object, Document.convertObject]
    exact bind (ih distinct depth (by omega)) fun _ => value _

theorem field_returns (d : Document) (base : List String) (s : Schema) (required : Bool)
    (distinct : base.Nodup) (depth : Nat) (enough : d.reach base + sizeOf s ≤ depth) :
    Returns d base (Walk.field (d.walk depth) s required)
      (s.describedBy required <$> d.convert base s) := by
  rw [Walk.field, ← bind_pure_comp]
  exact (walk_returns d base s distinct depth enough).bind fun _ => .value _

theorem objectFields_returns (d : Document) (base : List String) (s : Schema)
    (distinct : base.Nodup) (depth : Nat) (enough : d.reach base + sizeOf s ≤ depth) :
    Returns d base (Walk.objectFields (d.walk depth) s) (fields? <$> d.convert base s) := by
  rw [Walk.objectFields, ← bind_pure_comp]
  exact (walk_returns d base s distinct depth enough).bind fun _ => .value _

/-- From every stack without repetition the three walks over a schema end, each with the outcome
of the conversion and with the stack on which it began. On the way the stack has grown by different
definitions of the document, so by no more names than there are definitions. With no definition
under conversion the outcomes are those of schemas that stand on their own. -/
theorem walks_end_on_their_stack (d : Document) (base : List String) (s : Schema) (required : Bool)
    (distinct : base.Nodup) :
    (∃ enough, ∀ depth ≥ enough,
      Returns d base (d.walk depth s) (d.convert base s) ∧
      Returns d base (Walk.objectFields (d.walk depth) s) (fields? <$> d.convert base s) ∧
      Returns d base (Walk.field (d.walk depth) s required)
        (s.describedBy required <$> d.convert base s)) ∧
    (∀ stack, GrownFrom d base stack → stack.length ≤ base.length + d.definitions.length) ∧
    d.typeOf s = d.convert [] s ∧
    d.objectFields s = fields? <$> d.convert [] s ∧
    d.fieldOf s required = s.describedBy required <$> d.convert [] s := by
  refine ⟨⟨d.reach base + sizeOf s, fun depth enough => ?_⟩, fun _ => GrownFrom.length_le, rfl,
    d.objectFields_eq_map s, rfl⟩
  exact ⟨walk_returns d base s distinct depth enough,
    objectFields_returns d base s distinct depth enough,
    field_returns d base s required distinct depth enough⟩

def referenceTo (name : String) : Schema := { reference := some ("#/definitions/" ++ name) }

/-- A node that refers to itself, and two names for one another. -/
def tangled : Document where
  definitions :=
    [("Node", { type := some "object"
                properties := [("next", referenceTo "Node"), ("alias", referenceTo "Here")] }),
      ("Here", referenceTo "There"), ("There", referenceTo "Here")]

theorem convert_tangled : tangled.convert ["Root"] (referenceTo "Node") =
    .ok (.fields [("next", { type := .named "hash" }), ("alias", { type := .named "hash" })]) := by
  have node : tangled.definition "#/definitions/Node" = .ok ("Node",
      { type := some "object"
        properties := [("next", referenceTo "Node"), ("alias", referenceTo "Here")] }) := rfl
  have here : tangled.definition "#/definitions/Here" = .ok ("Here", referenceTo "There") := rfl
  have there : tangled.definition "#/definitions/There" = .ok ("There", referenceTo "Here") := rfl
  have next : tangled.convert ["Node", "Root"] (referenceTo "Node") = .ok (.named "hash") :=
    Document.convert_active rfl node (by decide)
  have cut : tangled.convert ["Node", "Root"] (referenceTo "Here") = .ok (.named "hash") := by
    rw [Document.convert_fresh rfl here (by decide), Document.convert_fresh rfl there (by decide),
      Document.convert_active rfl here (by decide)]
    rfl
  rw [Document.convert_fresh rfl node (by decide), Document.convert_plain rfl rfl]
  simp only [Document.convertObject, Document.convertFields, next, cut]
  rfl

theorem tangled_walk_ends : ["Root"].Nodup ∧ ∃ depth,
    Returns tangled ["Root"] (tangled.walk depth (referenceTo "Node"))
      (.ok (.fields
        [("next", { type := .named "hash" }), ("alias", { type := .named "hash" })])) := by
  have distinct : ["Root"].Nodup := by decide
  obtain ⟨enough, ends⟩ :=
    (walks_end_on_their_stack tangled ["Root"] (referenceTo "Node") false distinct).1
  rw [convert_tangled] at ends
  exact ⟨distinct, enough, (ends enough enough.le_refl).1⟩

end ActionCatalogue.Swagger
