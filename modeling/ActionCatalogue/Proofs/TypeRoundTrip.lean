import ActionCatalogue.Proofs.RecordReading
import ActionCatalogue.Typing.OptionType

/-!
Types of options in JSON. A type that can be stored is read back as it was written: it has no
functions, its type names are names of the vocabulary, no value that it gives is null, no key comes
twice, and its options have names. Whatever is read from JSON is such a type, and every option in it
has the name that is written for it, or else its key.
-/

namespace ActionCatalogue

open Json

namespace AllowedValue

theorem ofNode_toJson {v : AllowedValue} (distinct : v.value.Distinct) :
    ofNode (.ofValue v.toJson) = .ok v := by
  refine Record.asRecord_object fun r shown => ?_
  have names : (Entries.keys [("value", v.value), ("display_name", .text v.displayName),
    ("short_desc", .text v.shortDescription), ("desc", .text v.description)]).Nodup := by
    simp [Entries.keys]
  have value : (r.required "value" Node.asValue).Give v.value :=
    Record.required_give shown names (by simp) (Node.asValue_ofValue v.value distinct)
  have displayName : (r.text "display_name").Give v.displayName :=
    Record.text_give shown names (by simp)
  have short : (r.text "short_desc").Give v.shortDescription :=
    Record.text_give shown names (by simp)
  have long : (r.text "desc").Give v.description :=
    Record.text_give shown names (by simp)
  exact (((value.map _).seq displayName).seq short).seq long

theorem distinct_of_ofNode {v : AllowedValue} {w : Value} (success : ofNode (.ofValue w) = .ok v) :
    v.value.Distinct := by
  obtain ⟨r, shown, give⟩ := Record.exists_of_asRecord success
  simp only [Fields.give_seq, Fields.give_map] at give
  obtain ⟨_, ⟨_, ⟨_, ⟨value, given, rfl⟩, _, -, rfl⟩, _, -, rfl⟩, _, -, rfl⟩ := give
  obtain ⟨u, -, -, read⟩ := Record.exists_of_requiredPart shown given
  exact Node.distinct_of_asValue u read

end AllowedValue

namespace ActionOption

/-- What an option writes, without its functions. -/
def members (o : ActionOption) : Object :=
  [("name", .text o.name), ("display_name", .text o.displayName),
    ("short_desc", .text o.shortDescription), ("desc", .text o.description),
    ("type", o.type.toJson)] ++
  Value.entry? "default_value" o.defaultValue ++
  Value.entry? "example_value" o.exampleValue ++
  (if o.allowedValues.isEmpty then []
    else [("allowed_values", .list (o.allowedValues.map AllowedValue.toJson))]) ++
  (if o.dependsOn.isEmpty then [] else [("depends_on", Value.texts o.dependsOn)]) ++
  [("required", .bool o.required), ("preselected", .bool o.preselected)]

theorem toJson_eq (o : ActionOption) : o.toJson = .object o.members := by
  cases o
  simp only [toJson, OptionType.optionToJson, members]

theorem nodup_keys_members (o : ActionOption) : (Entries.keys o.members).Nodup := by
  have written : (Entries.keys o.members).Sublist fieldNames := by
    simp only [members, Entries.keys_append]
    exact (((((List.Sublist.refl _).append (Value.keys_entry?_sublist _ _)).append
      (Value.keys_entry?_sublist _ _)).append (Value.keys_unless_sublist _ _ _)).append
      (Value.keys_unless_sublist _ _ _)).append (List.Sublist.refl _)
  exact written.nodup (by decide)

/-- What JSON can hold of an option, its type apart. -/
structure Storable (o : ActionOption) : Prop where
  getAllowedValues : o.getAllowedValues = none
  getDependentOptions : o.getDependentOptions = none
  defaultValue : Value.Kept o.defaultValue
  exampleValue : Value.Kept o.exampleValue
  allowedValues : ∀ v ∈ o.allowedValues, v.value.Distinct

/-- A record gives what an option has, its texts and its type apart. -/
structure Given {n : Node} (r : Record n) (o : ActionOption) : Prop where
  defaultValue : (r.optional "default_value" Node.asValue).Give o.defaultValue
  exampleValue : (r.optional "example_value" Node.asValue).Give o.exampleValue
  allowedValues : (r.orDefault "allowed_values" [] (Node.asListOf AllowedValue.ofNode)).Give
    o.allowedValues
  dependsOn : (r.texts "depends_on").Give o.dependsOn
  required : (r.flag "required").Give o.required
  preselected : (r.flag "preselected").Give o.preselected

theorem Storable.given {o : ActionOption} (storable : o.Storable) {n : Node} {r : Record n}
    (shown : r.Shows o.members) : o.Given r := by
  have names := o.nodup_keys_members
  have values : ∀ v ∈ o.allowedValues, AllowedValue.ofNode (.ofValue v.toJson) = .ok v :=
    fun v member => AllowedValue.ofNode_toJson (storable.allowedValues v member)
  have texts : ∀ s ∈ o.dependsOn, (Node.ofValue (.text s)).asText = .ok s := fun _ _ => rfl
  constructor
  case defaultValue => exact Record.value_give shown names (by simp [members]) storable.defaultValue
  case exampleValue => exact Record.value_give shown names (by simp [members]) storable.exampleValue
  case allowedValues => exact Record.list_give shown names (by simp [members]) values
  case dependsOn => exact Record.list_give shown names (by simp [members, Value.texts]) texts
  case required => exact Record.flag_give shown names (by simp [members])
  case preselected => exact Record.flag_give shown names (by simp [members])

/-- The members of an option are read back. -/
theorem ofNodeWith_members {o : ActionOption} (storable : o.Storable)
    {type : (v : Node) → sizeOf v < sizeOf (Node.ofValue (.object o.members)) → Reading OptionType}
    (back : ∀ smaller, type (.ofValue o.type.toJson) smaller = .ok o.type) :
    ofNodeWith (.ofValue (.object o.members)) type = .ok o := by
  refine Record.asRecord_object fun r shown => ?_
  have names := o.nodup_keys_members
  have name : (r.text "name").Give o.name := Record.text_give shown names (by simp [members])
  have displayName : (r.text "display_name").Give o.displayName :=
    Record.text_give shown names (by simp [members])
  have short : (r.text "short_desc").Give o.shortDescription :=
    Record.text_give shown names (by simp [members])
  have long : (r.text "desc").Give o.description :=
    Record.text_give shown names (by simp [members])
  have type : (r.requiredPart "type" type).Give o.type :=
    Record.requiredPart_give shown names (by simp [members]) back
  have given := storable.given shown
  have whole : { o with getAllowedValues := none, getDependentOptions := none } = o := by
    cases o
    cases storable.getAllowedValues
    cases storable.getDependentOptions
    rfl
  refine Eq.trans ?_ (congrArg Except.ok whole)
  exact ((((((((((name.map _).seq displayName).seq short).seq long).seq type).seq
    given.defaultValue).seq given.exampleValue).seq given.allowedValues).seq given.dependsOn).seq
    given.required).seq given.preselected

/-- The text that a value writes as the name of an option; where it writes none, an empty one. -/
def writtenName (w : Value) : String :=
  ((Entries.lookup "name" (w.fieldsUnder fieldNames)).bind Value.text?).getD ""

theorem namedBy_name (key : String) (o : ActionOption) :
    (o.namedBy key).name = if o.name = "" then key else o.name := by
  unfold namedBy
  by_cases nameless : o.name = "" <;> simp [nameless]

theorem namedBy_nameless {key : String} {o : ActionOption} (nameless : (o.namedBy key).name = "") :
    key = "" := by
  rw [namedBy_name] at nameless
  split at nameless
  · exact nameless
  · contradiction

@[simp] theorem namedBy_type (key : String) (o : ActionOption) : (o.namedBy key).type = o.type := by
  unfold namedBy
  split <;> rfl

theorem Storable.namedBy {o : ActionOption} (storable : o.Storable) (key : String) :
    (o.namedBy key).Storable := by
  unfold ActionOption.namedBy
  split
  next => exact ⟨storable.1, storable.2, storable.3, storable.4, storable.5⟩
  next => exact storable

theorem namedBy_eq_self {key : String} {o : ActionOption} (named : o.name = "" → key = "") :
    o.namedBy key = o := by
  unfold namedBy
  split
  next empty =>
    have nameless : o.name = "" := by simpa using empty
    cases o
    cases nameless
    rw [named rfl]
  next => rfl

/-- What is known of an option that was read. -/
theorem exists_of_ofNodeWith {w : Value}
    {type : (v : Node) → sizeOf v < sizeOf (Node.ofValue w) → Reading OptionType}
    {o : ActionOption} (success : ofNodeWith (.ofValue w) type = .ok o) :
    o.Storable ∧ o.name = writtenName w ∧ ∃ u smaller,
      Entries.lookup "type" (w.fieldsUnder fieldNames) = some u ∧
        type (.ofValue u) smaller = .ok o.type := by
  obtain ⟨r, shown, give⟩ := Record.exists_of_asRecord success
  simp only [Fields.give_seq, Fields.give_map] at give
  obtain ⟨_, ⟨_, ⟨_, ⟨_, ⟨_, ⟨_, ⟨_, ⟨_, ⟨_, ⟨_, ⟨name, hasName, rfl⟩, _, -, rfl⟩, _, -, rfl⟩, _, -,
    rfl⟩, t, hasType, rfl⟩, defaultValue, hasDefault, rfl⟩, exampleValue, hasExample, rfl⟩,
    allowedValues, hasAllowed, rfl⟩, _, -, rfl⟩, _, -, rfl⟩, _, -, rfl⟩ := give
  refine ⟨⟨rfl, rfl, Record.kept_of_value shown hasDefault,
    Record.kept_of_value shown hasExample, ?_⟩, ?_, Record.exists_of_requiredPart shown hasType⟩
  · intro a member
    obtain ⟨w, found⟩ := Record.exists_of_list shown hasAllowed a member
    exact AllowedValue.distinct_of_ofNode found
  · obtain ⟨missing, rfl⟩ | ⟨u, written, read⟩ := Record.exists_of_orDefault shown hasName
    · simp [writtenName, missing]
    obtain rfl := Node.eq_text_of_asText read
    simp [writtenName, written, Value.text?]

end ActionOption

namespace OptionType

theorem fieldsToJson_eq_map (fields : List (String × ActionOption)) :
    fieldsToJson fields = fields.map fun field => (field.1, field.2.toJson) := by
  induction fields with
  | nil => rfl
  | cons field rest ih => rw [fieldsToJson, ih, List.map_cons, ActionOption.toJson]

/-- Induction over the shape of a type. -/
@[induction_eliminator]
theorem shape {motive : OptionType → Prop} (primitive : ∀ p, motive (.primitive p))
    (list : ∀ item, motive item → motive (.list item))
    (hash : ∀ fields, (∀ key o, (key, o) ∈ fields → motive o.type) → motive (.hash fields)) :
    ∀ t, motive t
  | .primitive p => primitive p
  | .list item => list item (shape primitive list hash item)
  | .hash fields => hash fields fun _ o _ => shape primitive list hash o.type
termination_by t => sizeOf t
decreasing_by
  · simp
  next o member =>
    have whole := List.sizeOf_lt_of_mem member
    have part : sizeOf o.type < sizeOf o := by
      cases o
      simp only [ActionOption.mk.sizeOf_spec]
      omega
    simp only [Prod.mk.sizeOf_spec] at whole
    simp only [OptionType.hash.sizeOf_spec]
    omega

/-! ### What a type is read from -/

variable {t : OptionType}

theorem ofNode_text_eq_ok_iff {s : String} :
    ofNode (.ofValue (.text s)) = .ok t ↔ ∃ p : PrimitiveType, p.Allowed ∧ p.text = s ∧
      t = .primitive p := by
  simp only [← and_assoc, ← PrimitiveType.parse_eq_ok_iff]
  unfold ofNode
  cases parsed : PrimitiveType.parse s <;> simp [Node.ofValue, parsed, eq_comm]

theorem ofItems_eq_ok_iff {items : List OptionType} :
    ofItems items = .ok t ↔ ∃ item, items = [item] ∧ t = .list item := by
  match items with
  | [] => simp [ofItems]
  | [item] => simp [ofItems, eq_comm]
  | _ :: _ :: _ => simp [ofItems]

theorem withoutReason_eq_ok_iff {α : Type} {r : Reading α} {a : α} :
    Node.withoutReason r = .ok a ↔ r = .ok a := by
  cases r <;> simp [Node.withoutReason]

theorem ofNode_list_eq_ok_iff {items : List Value} :
    ofNode (.ofValue (.list items)) = .ok t ↔
      ∃ v item, items = [v] ∧ ofNode (.ofValue v) = .ok item ∧ t = .list item := by
  have run : ofNode (.ofValue (.list items)) =
      Node.withoutReason ((Node.ofValue (.list items)).asListOf ofNode) >>= ofItems := by
    unfold ofNode
    rfl
  rw [run]
  constructor
  · intro success
    obtain ⟨types, found, success⟩ := exists_of_bind_eq_ok success
    obtain ⟨item, rfl, rfl⟩ := ofItems_eq_ok_iff.mp success
    have each := Node.asListOf_ofValue.mp (withoutReason_eq_ok_iff.mp found)
    obtain ⟨v, rest, read, followed, rfl⟩ := List.forall₂_cons_right_iff.mp each
    cases followed
    exact ⟨v, item, rfl, read, rfl⟩
  · rintro ⟨v, item, rfl, read, rfl⟩
    rw [withoutReason_eq_ok_iff.mpr (Node.asListOf_ofValue.mpr (.cons read .nil))]
    rfl

theorem ofNode_object_eq_ok_iff {members : Object} :
    ofNode (.ofValue (.object members)) = .ok t ↔
      ∃ fields, (Node.ofValue (.object members)).asMapOf ActionOption.ofNode = .ok fields ∧
        t = .hash (fields.map fun field => (field.1, field.2.namedBy field.1)) := by
  have run : ofNode (.ofValue (.object members)) =
      Node.withoutReason ((Node.ofValue (.object members)).asMapOf ActionOption.ofNode) >>=
        fun fields => .ok (.hash (fields.map fun field => (field.1, field.2.namedBy field.1))) := by
    unfold ofNode
    rfl
  rw [run]
  constructor
  · intro success
    obtain ⟨fields, found, success⟩ := exists_of_bind_eq_ok success
    cases success
    exact ⟨fields, withoutReason_eq_ok_iff.mp found, rfl⟩
  · rintro ⟨fields, found, rfl⟩
    rw [withoutReason_eq_ok_iff.mpr found]
    rfl

/-- A type is read from a text, from a list of one item or from an object. -/
theorem ofNode_cases {v : Value} (success : ofNode (.ofValue v) = .ok t) :
    (∃ p : PrimitiveType, p.Allowed ∧ t = .primitive p) ∨
    (∃ w item, v = .list [w] ∧ ofNode (.ofValue w) = .ok item ∧ t = .list item) ∨
    ∃ members fields, v = .object members ∧
      (Node.ofValue (.object members)).asMapOf ActionOption.ofNode = .ok fields ∧
      t = .hash (fields.map fun field => (field.1, field.2.namedBy field.1)) := by
  cases v with
  | text s =>
    obtain ⟨p, allowed, -, same⟩ := ofNode_text_eq_ok_iff.mp success
    exact .inl ⟨p, allowed, same⟩
  | list items =>
    obtain ⟨w, item, rfl, read, same⟩ := ofNode_list_eq_ok_iff.mp success
    exact .inr (.inl ⟨w, item, rfl, read, same⟩)
  | object members =>
    obtain ⟨fields, read, same⟩ := ofNode_object_eq_ok_iff.mp success
    exact .inr (.inr ⟨members, fields, rfl, read, same⟩)
  | _ =>
    unfold ofNode at success
    cases success

/-! ### Types that JSON can hold -/

/-- The types that are read back as they are written: without functions, with `soft` only where the
base allows it, without null for a value, and with a name for every option that has a key. Keys are
distinct, as in every map that the program keeps. -/
inductive Storable : OptionType → Prop
  | primitive {p : PrimitiveType} (allowed : p.Allowed) : Storable (.primitive p)
  | list {item : OptionType} (storable : Storable item) : Storable (.list item)
  | hash {fields : List (String × ActionOption)} (distinct : (Entries.keys fields).Nodup)
      (named : ∀ key o, (key, o) ∈ fields → o.name = "" → key = "")
      (options : ∀ key o, (key, o) ∈ fields → o.Storable)
      (types : ∀ key o, (key, o) ∈ fields → Storable o.type) : Storable (.hash fields)

mutual

/-- Every option of a type has the name that a value writes for it, or else its key. -/
inductive NamedIn : Value → OptionType → Prop
  | primitive (v : Value) (p : PrimitiveType) : NamedIn v (.primitive p)
  | list {w : Value} {item : OptionType} (named : NamedIn w item) : NamedIn (.list [w]) (.list item)
  | hash {members : Object} {fields : List (String × ActionOption)}
      (options : ∀ key o, (key, o) ∈ fields → NamedUnder members key o) :
      NamedIn (.object members) (.hash fields)

inductive NamedUnder : Object → String → ActionOption → Prop
  | intro {members : Object} {key : String} {o : ActionOption} {w u : Value}
      (written : (key, w) ∈ members)
      (name : o.name = if ActionOption.writtenName w = "" then key else ActionOption.writtenName w)
      (type : Entries.lookup "type" (w.fieldsUnder ActionOption.fieldNames) = some u)
      (named : NamedIn u o.type) : NamedUnder members key o

end

/-- An option with a storable type is read back. -/
theorem ofNode_option {o : ActionOption} (storable : o.Storable)
    (back : ofNode (.ofValue o.type.toJson) = .ok o.type) :
    ActionOption.ofNode (.ofValue o.toJson) = .ok o := by
  rw [ActionOption.toJson_eq]
  exact ActionOption.ofNodeWith_members storable fun _ => back

theorem ofNode_toJson (storable : t.Storable) : ofNode (.ofValue t.toJson) = .ok t := by
  induction storable with
  | primitive allowed => exact ofNode_text_eq_ok_iff.mpr ⟨_, allowed, rfl, rfl⟩
  | list _ ih => exact ofNode_list_eq_ok_iff.mpr ⟨_, _, rfl, ih, rfl⟩
  | @hash fields distinct named options _ ih =>
    rw [toJson, fieldsToJson_eq_map]
    refine ofNode_object_eq_ok_iff.mpr ⟨fields, ?_, ?_⟩
    · exact Node.asMapOf_mapValues distinct fun key o member =>
        ofNode_option (options key o member) (ih key o member)
    · have same : ∀ field ∈ fields, (field.1, field.2.namedBy field.1) = field := by
        rintro ⟨key, o⟩ member
        rw [ActionOption.namedBy_eq_self (named key o member)]
      rw [List.map_congr_left same, List.map_id']

/-- What is known of an option that was read, once it is named. -/
theorem storable_namedUnder {members : Object} {key : String} {w : Value} {o : ActionOption}
    (written : (key, w) ∈ members) (success : ActionOption.ofNode (.ofValue w) = .ok o)
    (deeper : ∀ {u}, ofNode (.ofValue u) = .ok (o.namedBy key).type →
      (o.namedBy key).type.Storable ∧ NamedIn u (o.namedBy key).type) :
    (o.namedBy key).Storable ∧ ((o.namedBy key).name = "" → key = "") ∧
      (o.namedBy key).type.Storable ∧ NamedUnder members key (o.namedBy key) := by
  obtain ⟨storable, name, u, -, type, read⟩ := ActionOption.exists_of_ofNodeWith success
  obtain ⟨below, named⟩ := deeper (by rwa [ActionOption.namedBy_type])
  refine ⟨storable.namedBy key, ActionOption.namedBy_nameless, below, .intro written ?_ type named⟩
  rw [ActionOption.namedBy_name, name]

/-- What is known of a type that was read. -/
theorem storable_namedIn {v : Value} (success : ofNode (.ofValue v) = .ok t) :
    t.Storable ∧ NamedIn v t := by
  -- on the type and not on the value: a value may hold more than what is read
  induction t generalizing v with
  | primitive p =>
    obtain ⟨_, allowed, ⟨⟩⟩ | ⟨_, _, -, -, ⟨⟩⟩ | ⟨_, _, -, -, ⟨⟩⟩ := ofNode_cases success
    exact ⟨.primitive allowed, .primitive _ _⟩
  | list item ih =>
    obtain ⟨_, -, ⟨⟩⟩ | ⟨w, _, rfl, read, ⟨⟩⟩ | ⟨_, _, -, -, ⟨⟩⟩ := ofNode_cases success
    obtain ⟨storable, named⟩ := ih read
    exact ⟨.list storable, .list named⟩
  | hash fields ih =>
    obtain ⟨_, -, ⟨⟩⟩ | ⟨_, _, -, -, ⟨⟩⟩ | ⟨members, read, rfl, found, ⟨⟩⟩ := ofNode_cases success
    obtain ⟨_, written, distinct, each⟩ := Node.exists_of_asMapOf found
    cases written
    have known : ∀ key o, (key, o) ∈ read.map (fun field => (field.1, field.2.namedBy field.1)) →
        o.Storable ∧ (o.name = "" → key = "") ∧ o.type.Storable ∧ NamedUnder members key o := by
      intro _ _ member
      obtain ⟨⟨key, o⟩, among, ⟨⟩⟩ := List.mem_map.mp member
      obtain ⟨w, written, success⟩ := each key o among
      exact storable_namedUnder written success (ih key _ member)
    refine ⟨.hash ?_ ?_ ?_ ?_, .hash ?_⟩
    · simpa [Entries.keys, Function.comp_def] using distinct
    · exact fun key o member => (known key o member).2.1
    · exact fun key o member => (known key o member).1
    · exact fun key o member => (known key o member).2.2.1
    · exact fun key o member => (known key o member).2.2.2

/-- Types survive their JSON form: a type that can be stored is read back from what it writes, and
every type that is read from a value can be stored and has the names that the value gives. -/
theorem json_form_is_faithful :
    (∀ t : OptionType, t.Storable → ofNode (.ofValue t.toJson) = .ok t) ∧
    ∀ (v : Value) (t : OptionType), ofNode (.ofValue v) = .ok t →
      t.Storable ∧ NamedIn v t ∧ ofNode (.ofValue t.toJson) = .ok t := by
  refine ⟨fun t storable => ofNode_toJson storable, fun v t success => ?_⟩
  obtain ⟨storable, named⟩ := storable_namedIn success
  exact ⟨storable, named, ofNode_toJson storable⟩

theorem list_of_headers_survives :
    let accept : ActionOption :=
      { name := "accept", type := .primitive { base := .string, nullable := true },
        defaultValue := some (.list [.text "json", .null]), required := true }
    let headers : OptionType := .list (.hash [("accept", accept)])
    headers.Storable ∧ ofNode (.ofValue headers.toJson) = .ok headers ∧
      NamedIn headers.toJson headers := by
  intro accept headers
  have only : ∀ {P : String → ActionOption → Prop}, P "accept" accept →
      ∀ key o, (key, o) ∈ [("accept", accept)] → P key o := by
    rintro P holds key o member
    cases List.mem_singleton.mp member
    exact holds
  have plain : accept.Storable :=
    ⟨rfl, rfl, by simp [accept, Value.Distinct, Value.DistinctItems], by simp [accept],
      by simp [accept]⟩
  have storable : headers.Storable :=
    .list (.hash (by simp [Entries.keys]) (only (by simp [accept])) (only plain)
      (only (.primitive (by simp [PrimitiveType.Allowed]))))
  have read := json_form_is_faithful.1 headers storable
  exact ⟨storable, read, (json_form_is_faithful.2 headers.toJson headers read).2.1⟩

end OptionType

end ActionCatalogue
