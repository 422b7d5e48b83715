import ActionCatalogue.Proofs.SchemaRoundTrip

/-!
Documents in JSON. A document that can be stored is read back as it was written, and what is read
from JSON is such a document. What may be a pointer is tried as one first, which fails on everything
that writes no pointer; the responses, whose keys may be numbers elsewhere, are read as any map.
-/

namespace ActionCatalogue.Swagger

open Json

/-! ### Parameters and responses -/

namespace Location

theorem asVariant_name (l : Location) :
    (Node.ofValue (.text l.name)).asVariant table = .ok l := by
  cases l <;> rfl

end Location

namespace Parameter

variable {p : Parameter}

def members (p : Parameter) : Object :=
  [("name", .text p.name), ("in", .text p.location.name)] ++
  Value.entry? "description" (p.description.map .text) ++
  [("required", .bool p.required)] ++
  Value.entry? "schema" (p.schema.map Schema.toJson) ++
  Value.entry? "type" (p.type.map .text) ++
  Value.entry? "format" (p.format.map .text) ++
  Value.entry? "items" (p.items.map Schema.toJson) ++
  entryUnlessEmpty "enum" p.allowedValues .list ++
  Value.entry? "default" p.defaultValue ++
  [("x-nullable", .bool p.nullable)]

theorem nodup_keys_members (p : Parameter) : (Entries.keys p.members).Nodup := by
  have written : (Entries.keys p.members).Sublist fieldNames := by
    have entry := Value.keys_entry?_sublist
    simp only [members, Entries.keys_append]
    exact ((((((((((List.Sublist.refl _).append (entry _ _)).append (List.Sublist.refl _)).append
      (entry _ _)).append (entry _ _)).append (entry _ _)).append (entry _ _)).append
      (keys_entryUnlessEmpty_sublist _ _ _)).append (entry _ _)).append (List.Sublist.refl _))
  exact written.nodup (by decide)

/-- What JSON can hold of a parameter. -/
structure Storable (p : Parameter) : Prop where
  schema : ∀ s, p.schema = some s → s.Storable
  items : ∀ s, p.items = some s → s.Storable
  allowedValues : ∀ v ∈ p.allowedValues, v.Distinct
  defaultValue : Value.Kept p.defaultValue

theorem ofNode_toJson (storable : p.Storable) : ofNode (.ofValue p.toJson) = .ok p := by
  refine Record.asRecord_object fun r shown => ?_
  have names := p.nodup_keys_members
  have name : (r.required "name" Node.asText).Give p.name :=
    Record.required_give (v := .text p.name) shown names (by simp) rfl
  have location : (r.required "in" (Node.asVariant Location.table)).Give p.location :=
    Record.required_give shown names (by simp) p.location.asVariant_name
  have description : (r.optional "description" Node.asText).Give p.description :=
    Record.optionalText_give shown names (by simp)
  have required : (r.flag "required").Give p.required := Record.flag_give shown names (by simp)
  have schema : (r.optional "schema" Schema.ofNode).Give p.schema :=
    Record.optional_give shown names (by simp) Schema.toJson_ne_null
      fun s has => Schema.ofNode_toJson (storable.schema s has)
  have type : (r.optional "type" Node.asText).Give p.type :=
    Record.optionalText_give shown names (by simp)
  have format : (r.optional "format" Node.asText).Give p.format :=
    Record.optionalText_give shown names (by simp)
  have items : (r.optional "items" Schema.ofNode).Give p.items :=
    Record.optional_give shown names (by simp) Schema.toJson_ne_null
      fun s has => Schema.ofNode_toJson (storable.items s has)
  have allowedValues : (r.values "enum").Give p.allowedValues :=
    Record.values_give shown names (by simp) storable.allowedValues
  have defaultValue : (r.optional "default" Node.asValue).Give p.defaultValue :=
    Record.value_give shown names (by simp) storable.defaultValue
  have nullable : (r.flag "x-nullable").Give p.nullable := Record.flag_give shown names (by simp)
  exact ((((((((((name.map mk).seq location).seq description).seq required).seq schema).seq
    type).seq format).seq items).seq allowedValues).seq defaultValue).seq nullable

theorem storable_of_ofNode {v : Value} (success : ofNode (.ofValue v) = .ok p) : p.Storable := by
  obtain ⟨r, shown, give⟩ := Record.exists_of_asRecord success
  simp only [Fields.give_seq, Fields.give_map] at give
  obtain ⟨_, ⟨_, ⟨_, ⟨_, ⟨_, ⟨_, ⟨_, ⟨_, ⟨_, ⟨_, ⟨name, -, rfl⟩, location, -, rfl⟩, description, -,
    rfl⟩, required, -, rfl⟩, schema, hasSchema, rfl⟩, type, -, rfl⟩, format, -, rfl⟩, items,
    hasItems, rfl⟩, allowedValues, hasAllowed, rfl⟩, defaultValue, hasDefault, rfl⟩, nullable, -,
    rfl⟩ := give
  refine ⟨?_, ?_, Record.distinct_of_values shown hasAllowed,
    Record.kept_of_value shown hasDefault⟩
  · rintro s rfl
    obtain ⟨w, -, -, read⟩ := Record.exists_of_optional shown hasSchema
    exact Schema.storable_of_ofNode read
  · rintro s rfl
    obtain ⟨w, -, -, read⟩ := Record.exists_of_optional shown hasItems
    exact Schema.storable_of_ofNode read

end Parameter

namespace Response

variable {response : Response}

def members (r : Response) : Object :=
  [("description", .text r.description)] ++ Value.entry? "schema" (r.schema.map Schema.toJson)

theorem nodup_keys_members (r : Response) : (Entries.keys r.members).Nodup := by
  have written : (Entries.keys r.members).Sublist ["description", "schema"] := by
    simp only [members, Entries.keys_append]
    exact (List.Sublist.refl _).append (Value.keys_entry?_sublist _ _)
  exact written.nodup (by decide)

/-- What JSON can hold of a response. -/
def Storable (r : Response) : Prop := ∀ s, r.schema = some s → s.Storable

theorem ofNode_toJson (storable : response.Storable) :
    ofNode (.ofValue response.toJson) = .ok response := by
  refine Record.asRecord_object fun r shown => ?_
  have names := response.nodup_keys_members
  have description : (r.text "description").Give response.description :=
    Record.text_give shown names (by simp)
  have schema : (r.optional "schema" Schema.ofNode).Give response.schema :=
    Record.optional_give shown names (by simp) Schema.toJson_ne_null
      fun s has => Schema.ofNode_toJson (storable s has)
  exact (description.map mk).seq schema

theorem storable_of_ofNode {v : Value} (success : ofNode (.ofValue v) = .ok response) :
    response.Storable := by
  obtain ⟨r, shown, give⟩ := Record.exists_of_asRecord success
  simp only [Fields.give_seq, Fields.give_map] at give
  obtain ⟨_, ⟨description, -, rfl⟩, schema, hasSchema, rfl⟩ := give
  rintro s rfl
  obtain ⟨w, -, -, read⟩ := Record.exists_of_optional shown hasSchema
  exact Schema.storable_of_ofNode read

end Response

namespace Shared

variable {α : Type} {value : Node → Reading α} {a : α}

/-- Of something that stands in its place. -/
def Holds (P : α → Prop) : Shared α → Prop
  | .pointer _ => True
  | .inline a => P a

theorem ofNode_pointer (reference : String) :
    ofNode value (.ofValue (.object [("$ref", .text reference)])) = .ok (.pointer reference) := by
  have found : pointerOf (.ofValue (.object [("$ref", .text reference)])) = .ok reference := by
    refine Record.asRecord_object fun r shown => ?_
    exact Record.required_give (v := .text reference) shown (by simp [Entries.keys]) (by simp) rfl
  rw [ofNode, Node.settle_ofValue]
  simp only [bind, Except.bind, found]

/-- Where nothing is named as a pointer, the thing itself is read. -/
theorem ofNode_inline {members : Object} (noPointer : Entries.lookup "$ref" members = none)
    (back : value (.ofValue (.object members)) = .ok a) :
    ofNode value (.ofValue (.object members)) = .ok (.inline a) := by
  rw [ofNode, Node.settle_ofValue]
  simp only [bind, Except.bind, back]
  cases found : pointerOf (.ofValue (.object members)) with
  | error _ => rfl
  | ok reference =>
    obtain ⟨r, shown, give⟩ := Record.exists_of_asRecord found
    obtain ⟨v, -, written, -⟩ := Record.exists_of_requiredPart shown give
    simp [Value.fieldsUnder, noPointer] at written

theorem ofNode_parameter {p : Shared Parameter} (storable : p.Holds Parameter.Storable) :
    ofNode Parameter.ofNode (.ofValue (p.toJson Parameter.toJson)) = .ok p := by
  cases p with
  | pointer reference => exact ofNode_pointer reference
  | inline p => exact ofNode_inline (by simp) (Parameter.ofNode_toJson storable)

theorem ofNode_response {r : Shared Response} (storable : r.Holds Response.Storable) :
    ofNode Response.ofNode (.ofValue (r.toJson Response.toJson)) = .ok r := by
  cases r with
  | pointer reference => exact ofNode_pointer reference
  | inline r => exact ofNode_inline (by simp) (Response.ofNode_toJson storable)

theorem holds_of_ofNode {P : α → Prop} {v : Value} {shared : Shared α}
    (success : ofNode value (.ofValue v) = .ok shared)
    (inner : ∀ a, value (.ofValue v) = .ok a → P a) : shared.Holds P := by
  rw [ofNode, Node.settle_ofValue] at success
  simp only [bind, Except.bind] at success
  split at success
  · cases success
    trivial
  · split at success
    next a found =>
      cases success
      exact inner a found
    next => cases success

end Shared

/-! ### Operations and paths -/

/-- One entry of the responses, its key told from a number. -/
def readResponse (entry : Node × Node) : Reading (StatusKey × Shared Response) := do
  let key ← StatusKey.ofNode entry.1
  let response ← Shared.ofNode Response.ofNode entry.2
  return (key, response)

/-- A key of JSON is a text. -/
theorem readResponse_eq_ok_iff {key : String} {v : Value} {found : StatusKey × Shared Response} :
    readResponse (.text key, .ofValue v) = .ok found ↔
      found.1 = .text key ∧ Shared.ofNode Response.ofNode (.ofValue v) = .ok found.2 := by
  have text : StatusKey.ofNode (.text key) = .ok (.text key) := rfl
  obtain ⟨name, r⟩ := found
  cases read : Shared.ofNode Response.ofNode (.ofValue v) <;>
    simp [readResponse, text, read, bind, Except.bind, pure, Except.pure, eq_comm]

theorem mapM_readResponse_eq_ok_iff {members : Object}
    {pairs : List (StatusKey × Shared Response)} :
    (Node.ofMembers members).mapM readResponse = .ok pairs ↔
      ∃ texts, List.Forall₂ (fun member pair => member.1 = pair.1 ∧
        Shared.ofNode Response.ofNode (.ofValue member.2) = .ok pair.2) members texts ∧
          pairs = Entries.mapKeys .text texts := by
  rw [Pass.mapM_eq_ok_iff, Node.ofMembers_eq_map, List.forall₂_map_left_iff]
  simp only [readResponse_eq_ok_iff]
  constructor
  · intro each
    refine ⟨pairs.map fun pair => (pair.1.toText, pair.2), ?_, ?_⟩
    · rw [List.forall₂_map_right_iff]
      exact each.imp fun member pair read => ⟨by rw [read.1]; rfl, read.2⟩
    · rw [Entries.mapKeys, List.map_map]
      have same : ∀ pair ∈ pairs, (StatusKey.text pair.1.toText, pair.2) = pair := by
        intro pair member
        obtain ⟨_, -, text, -⟩ := Pass.exists_of_mem_right each member
        obtain ⟨key, r⟩ := pair
        cases text
        rfl
      exact (List.map_congr_left same |>.trans (List.map_id' pairs)).symm
  · rintro ⟨texts, each, rfl⟩
    rw [Entries.mapKeys, List.forall₂_map_right_iff]
    exact each.imp fun member pair read => ⟨congrArg StatusKey.text read.1.symm, read.2⟩

/-- In JSON responses are read as any other map. -/
theorem readResponses_ofValue {members : Object} {responses : Entries (Shared Response)} :
    readResponses (.ofValue (.object members)) = .ok responses ↔
      (Node.ofValue (.object members)).asMapOf (Shared.ofNode Response.ofNode) = .ok responses := by
  have run : readResponses (.ofValue (.object members)) =
      (Node.ofMembers members).mapM readResponse >>= fun pairs =>
        .ok (Entries.ofPairs (Entries.mapKeys StatusKey.toText (Entries.ofPairs pairs))) := rfl
  have apart : Function.Injective StatusKey.text := fun _ _ => StatusKey.text.inj
  have texts : ∀ pairs : Entries (Shared Response), Entries.ofPairs
      (Entries.mapKeys StatusKey.toText (Entries.ofPairs (Entries.mapKeys .text pairs))) =
        Entries.ofPairs pairs := by
    intro pairs
    have back : Entries.mapKeys StatusKey.toText (Entries.mapKeys .text (Entries.ofPairs pairs)) =
        Entries.ofPairs pairs := by
      simp [Entries.mapKeys, StatusKey.toText, Function.comp_def]
    rw [Entries.ofPairs_mapKeys apart, back,
      Entries.ofPairs_of_nodup (Entries.nodup_keys_ofPairs pairs)]
  rw [run, Node.asMapOf_ofValue]
  constructor
  · intro success
    obtain ⟨pairs, found, success⟩ := exists_of_bind_eq_ok success
    obtain ⟨read, each, rfl⟩ := mapM_readResponse_eq_ok_iff.mp found
    cases success
    exact ⟨read, each, (texts read).symm⟩
  · rintro ⟨read, each, rfl⟩
    rw [mapM_readResponse_eq_ok_iff.mpr ⟨read, each, rfl⟩]
    exact congrArg Except.ok (texts read)

section

variable {n : Node} {r : Record n} {members : Object} {name : String}

theorem holds_of_readParameters {parameters : List (Shared Parameter)} (shown : r.Shows members)
    (give : (r.orDefault name [] readParameters).Give parameters) :
    ∀ p ∈ parameters, p.Holds Parameter.Storable := by
  intro p member
  obtain ⟨w, read⟩ := Record.exists_of_list shown give p member
  exact Shared.holds_of_ofNode read fun p found => Parameter.storable_of_ofNode found

theorem nodup_of_readResponses {responses : Entries (Shared Response)} (shown : r.Shows members)
    (give : (r.orDefault name [] readResponses).Give responses) :
    (Entries.keys responses).Nodup ∧
      ∀ key r, (key, r) ∈ responses → r.Holds Response.Storable := by
  obtain ⟨-, rfl⟩ | ⟨v, -, found⟩ := Record.exists_of_orDefault shown give
  · exact ⟨List.nodup_nil, fun _ _ => nofun⟩
  cases v with
  | object members =>
    obtain ⟨_, -, distinct, each⟩ := Node.exists_of_asMapOf (readResponses_ofValue.mp found)
    refine ⟨distinct, fun key r member => ?_⟩
    obtain ⟨w, -, read⟩ := each key r member
    exact Shared.holds_of_ofNode read fun r found => Response.storable_of_ofNode found
  | _ => cases found

end

namespace Operation

variable {o : Operation}

def members (o : Operation) : Object :=
  Value.entry? "operationId" (o.id.map .text) ++
  Value.entry? "summary" (o.summary.map .text) ++
  Value.entry? "description" (o.description.map .text) ++
  entryUnlessEmpty "tags" o.tags Value.texts ++
  entryUnlessEmpty "parameters" (o.parameters.map (Shared.toJson Parameter.toJson)) .list ++
  [("responses", .object (Entries.mapValues (Shared.toJson Response.toJson) o.responses)),
    ("deprecated", .bool o.deprecated)]

theorem nodup_keys_members (o : Operation) : (Entries.keys o.members).Nodup := by
  have written : (Entries.keys o.members).Sublist fieldNames := by
    have entry := Value.keys_entry?_sublist
    simp only [members, Entries.keys_append]
    exact (((((entry _ _).append (entry _ _)).append (entry _ _)).append
      (keys_entryUnlessEmpty_sublist _ _ _)).append (keys_entryUnlessEmpty_sublist _ _ _)).append
      (List.Sublist.refl _)
  exact written.nodup (by decide)

/-- What JSON can hold of an operation. -/
structure Storable (o : Operation) : Prop where
  parameters : ∀ p ∈ o.parameters, p.Holds Parameter.Storable
  distinct : (Entries.keys o.responses).Nodup
  responses : ∀ key r, (key, r) ∈ o.responses → r.Holds Response.Storable

theorem toJson_ne_null (o : Operation) : o.toJson ≠ .null := nofun

theorem ofNode_toJson (storable : o.Storable) : ofNode (.ofValue o.toJson) = .ok o := by
  refine Record.asRecord_object fun r shown => ?_
  have names := o.nodup_keys_members
  have id : (r.optional "operationId" Node.asText).Give o.id :=
    Record.optionalText_give shown names (by simp)
  have summary : (r.optional "summary" Node.asText).Give o.summary :=
    Record.optionalText_give shown names (by simp)
  have description : (r.optional "description" Node.asText).Give o.description :=
    Record.optionalText_give shown names (by simp)
  have tags : (r.texts "tags").Give o.tags := Record.texts_give shown names (by simp)
  have parameters : (r.orDefault "parameters" [] readParameters).Give o.parameters :=
    Record.list_give shown names (by simp)
      fun p member => Shared.ofNode_parameter (storable.parameters p member)
  have responses : (r.orDefault "responses" [] readResponses).Give o.responses :=
    Record.orDefault_give shown names (by simp)
      (readResponses_ofValue.mpr (Node.asMapOf_mapValues storable.distinct
        fun key r member => Shared.ofNode_response (storable.responses key r member)))
  have deprecated : (r.flag "deprecated").Give o.deprecated :=
    Record.flag_give shown names (by simp)
  exact ((((((id.map mk).seq summary).seq description).seq tags).seq parameters).seq
    responses).seq deprecated

theorem storable_of_ofNode {v : Value} (success : ofNode (.ofValue v) = .ok o) : o.Storable := by
  obtain ⟨r, shown, give⟩ := Record.exists_of_asRecord success
  simp only [Fields.give_seq, Fields.give_map] at give
  obtain ⟨_, ⟨_, ⟨_, ⟨_, ⟨_, ⟨_, ⟨id, -, rfl⟩, summary, -, rfl⟩, description, -, rfl⟩, tags, -,
    rfl⟩, parameters, hasParameters, rfl⟩, responses, hasResponses, rfl⟩, deprecated, -,
    rfl⟩ := give
  obtain ⟨distinct, each⟩ := nodup_of_readResponses shown hasResponses
  exact ⟨holds_of_readParameters shown hasParameters, distinct, each⟩

end Operation

namespace PathItem

variable {item : PathItem}

def members (item : PathItem) : Object :=
  Value.entry? "get" (item.get.map Operation.toJson) ++
  Value.entry? "put" (item.put.map Operation.toJson) ++
  Value.entry? "post" (item.post.map Operation.toJson) ++
  Value.entry? "delete" (item.delete.map Operation.toJson) ++
  Value.entry? "options" (item.options.map Operation.toJson) ++
  Value.entry? "head" (item.head.map Operation.toJson) ++
  Value.entry? "patch" (item.patch.map Operation.toJson) ++
  entryUnlessEmpty "parameters" (item.parameters.map (Shared.toJson Parameter.toJson)) .list

theorem nodup_keys_members (item : PathItem) : (Entries.keys item.members).Nodup := by
  have written : (Entries.keys item.members).Sublist fieldNames := by
    have entry := Value.keys_entry?_sublist
    simp only [members, Entries.keys_append]
    exact (((((((entry _ _).append (entry _ _)).append (entry _ _)).append (entry _ _)).append
      (entry _ _)).append (entry _ _)).append (entry _ _)).append
      (keys_entryUnlessEmpty_sublist _ _ _)
  exact written.nodup (by decide)

/-- What JSON can hold of a path. -/
structure Storable (item : PathItem) : Prop where
  operations : ∀ method o, item.operation? method = some o → o.Storable
  parameters : ∀ p ∈ item.parameters, p.Holds Parameter.Storable

theorem ofNode_toJson (storable : item.Storable) : ofNode (.ofValue item.toJson) = .ok item := by
  refine Record.asRecord_object fun r shown => ?_
  have names := item.nodup_keys_members
  have slot : ∀ name (method : Method), Entries.lookup name item.members =
      (item.operation? method).map Operation.toJson →
        (r.optional name Operation.ofNode).Give (item.operation? method) :=
    fun _ method written => Record.optional_give shown names written Operation.toJson_ne_null
      fun o has => Operation.ofNode_toJson (storable.operations method o has)
  have get := slot "get" .get (by simp [members, operation?])
  have put := slot "put" .put (by simp [members, operation?])
  have post := slot "post" .post (by simp [members, operation?])
  have delete := slot "delete" .delete (by simp [members, operation?])
  have options := slot "options" .options (by simp [members, operation?])
  have head := slot "head" .head (by simp [members, operation?])
  have patch := slot "patch" .patch (by simp [members, operation?])
  have parameters : (r.orDefault "parameters" [] readParameters).Give item.parameters :=
    Record.list_give shown names (by simp)
      fun p member => Shared.ofNode_parameter (storable.parameters p member)
  exact (((((((get.map mk).seq put).seq post).seq delete).seq options).seq head).seq patch).seq
    parameters

theorem storable_of_ofNode {v : Value} (success : ofNode (.ofValue v) = .ok item) :
    item.Storable := by
  obtain ⟨r, shown, give⟩ := Record.exists_of_asRecord success
  simp only [Fields.give_seq, Fields.give_map] at give
  obtain ⟨_, ⟨_, ⟨_, ⟨_, ⟨_, ⟨_, ⟨_, ⟨get, hasGet, rfl⟩, put, hasPut, rfl⟩, post, hasPost, rfl⟩,
    delete, hasDelete, rfl⟩, options, hasOptions, rfl⟩, head, hasHead, rfl⟩, patch, hasPatch, rfl⟩,
    parameters, hasParameters, rfl⟩ := give
  refine ⟨fun method o offered => ?_, holds_of_readParameters shown hasParameters⟩
  have slot : ∀ {name}, (r.optional name Operation.ofNode).Give (some o) → o.Storable := by
    intro name given
    obtain ⟨w, -, -, read⟩ := Record.exists_of_optional shown given
    exact Operation.storable_of_ofNode read
  cases method <;> cases offered
  case get => exact slot hasGet
  case put => exact slot hasPut
  case post => exact slot hasPost
  case delete => exact slot hasDelete
  case options => exact slot hasOptions
  case head => exact slot hasHead
  case patch => exact slot hasPatch

end PathItem

/-! ### Documents -/

namespace Info

def members (i : Info) : Object :=
  [("title", .text i.title), ("version", .text i.version)] ++
  Value.entry? "description" (i.description.map .text)

theorem nodup_keys_members (i : Info) : (Entries.keys i.members).Nodup := by
  have written : (Entries.keys i.members).Sublist ["title", "version", "description"] := by
    simp only [members, Entries.keys_append]
    exact (List.Sublist.refl _).append (Value.keys_entry?_sublist _ _)
  exact written.nodup (by decide)

theorem ofNode_toJson (i : Info) : ofNode (.ofValue i.toJson) = .ok i := by
  refine Record.asRecord_object fun r shown => ?_
  have names := i.nodup_keys_members
  have title : (r.text "title").Give i.title := Record.text_give shown names (by simp)
  have version : (r.text "version").Give i.version := Record.text_give shown names (by simp)
  have description : (r.optional "description" Node.asText).Give i.description :=
    Record.optionalText_give shown names (by simp)
  exact ((title.map mk).seq version).seq description

end Info

namespace Document

variable {d : Document}

def members (d : Document) : Object :=
  [("swagger", .text d.version), ("info", d.info.toJson)] ++
  Value.entry? "host" (d.host.map .text) ++
  Value.entry? "basePath" (d.basePath.map .text) ++
  entryUnlessEmpty "schemes" d.schemes Value.texts ++
  [("paths", .object (Entries.mapValues PathItem.toJson d.paths))] ++
  entryUnlessEmpty "definitions" (Entries.mapValues Schema.toJson d.definitions) .object ++
  entryUnlessEmpty "parameters" (Entries.mapValues Parameter.toJson d.parameters) .object ++
  entryUnlessEmpty "responses" (Entries.mapValues Response.toJson d.responses) .object

theorem nodup_keys_members (d : Document) : (Entries.keys d.members).Nodup := by
  have written : (Entries.keys d.members).Sublist fieldNames := by
    have entry := Value.keys_entry?_sublist
    simp only [members, Entries.keys_append]
    exact ((((((((List.Sublist.refl _).append (entry _ _)).append (entry _ _)).append
      (keys_entryUnlessEmpty_sublist _ _ _)).append (List.Sublist.refl _)).append
      (keys_entryUnlessEmpty_sublist _ _ _)).append (keys_entryUnlessEmpty_sublist _ _ _)).append
      (keys_entryUnlessEmpty_sublist _ _ _))
  exact written.nodup (by decide)

/-- The documents that are read back as they are written. -/
structure Storable (d : Document) : Prop where
  distinctPaths : (Entries.keys d.paths).Nodup
  distinctDefinitions : (Entries.keys d.definitions).Nodup
  distinctParameters : (Entries.keys d.parameters).Nodup
  distinctResponses : (Entries.keys d.responses).Nodup
  paths : ∀ path item, (path, item) ∈ d.paths → item.Storable
  definitions : ∀ name s, (name, s) ∈ d.definitions → s.Storable
  parameters : ∀ name p, (name, p) ∈ d.parameters → p.Storable
  responses : ∀ name r, (name, r) ∈ d.responses → r.Storable

theorem ofNode_toJson (storable : d.Storable) : ofNode (.ofValue d.toJson) = .ok d := by
  refine Record.asRecord_object fun r shown => ?_
  have names := d.nodup_keys_members
  have version : (r.text "swagger").Give d.version := Record.text_give shown names (by simp)
  have info : (r.orDefault "info" {} Info.ofNode).Give d.info :=
    Record.orDefault_give shown names (by simp) d.info.ofNode_toJson
  have host : (r.optional "host" Node.asText).Give d.host :=
    Record.optionalText_give shown names (by simp)
  have basePath : (r.optional "basePath" Node.asText).Give d.basePath :=
    Record.optionalText_give shown names (by simp)
  have schemes : (r.texts "schemes").Give d.schemes := Record.texts_give shown names (by simp)
  have paths : (r.orDefault "paths" [] (Node.asMapOf PathItem.ofNode)).Give d.paths :=
    Record.orDefault_give shown names (by simp) (Node.asMapOf_mapValues storable.distinctPaths
      fun path item member => PathItem.ofNode_toJson (storable.paths path item member))
  have definitions : (r.orDefault "definitions" [] (Node.asMapOf Schema.ofNode)).Give
      d.definitions :=
    Record.map_give shown names (by simp) storable.distinctDefinitions
      fun name s member => Schema.ofNode_toJson (storable.definitions name s member)
  have parameters : (r.orDefault "parameters" [] (Node.asMapOf Parameter.ofNode)).Give
      d.parameters :=
    Record.map_give shown names (by simp) storable.distinctParameters
      fun name p member => Parameter.ofNode_toJson (storable.parameters name p member)
  have responses : (r.orDefault "responses" [] (Node.asMapOf Response.ofNode)).Give d.responses :=
    Record.map_give shown names (by simp) storable.distinctResponses
      fun name r member => Response.ofNode_toJson (storable.responses name r member)
  exact ((((((((version.map mk).seq info).seq host).seq basePath).seq schemes).seq paths).seq
    definitions).seq parameters).seq responses

theorem storable_of_ofNode {v : Value} (success : ofNode (.ofValue v) = .ok d) : d.Storable := by
  obtain ⟨r, shown, give⟩ := Record.exists_of_asRecord success
  simp only [Fields.give_seq, Fields.give_map] at give
  obtain ⟨_, ⟨_, ⟨_, ⟨_, ⟨_, ⟨_, ⟨_, ⟨_, ⟨version, -, rfl⟩, info, -, rfl⟩, host, -, rfl⟩, basePath,
    -, rfl⟩, schemes, -, rfl⟩, paths, hasPaths, rfl⟩, definitions, hasDefinitions, rfl⟩, parameters,
    hasParameters, rfl⟩, responses, hasResponses, rfl⟩ := give
  obtain ⟨distinctPaths, eachPath⟩ := Record.exists_of_map shown hasPaths
  obtain ⟨distinctDefinitions, eachDefinition⟩ := Record.exists_of_map shown hasDefinitions
  obtain ⟨distinctParameters, eachParameter⟩ := Record.exists_of_map shown hasParameters
  obtain ⟨distinctResponses, eachResponse⟩ := Record.exists_of_map shown hasResponses
  refine ⟨distinctPaths, distinctDefinitions, distinctParameters, distinctResponses,
    fun path item member => ?_, fun name s member => ?_, fun name p member => ?_,
    fun name r member => ?_⟩
  · obtain ⟨w, read⟩ := eachPath path item member
    exact PathItem.storable_of_ofNode read
  · obtain ⟨w, read⟩ := eachDefinition name s member
    exact Schema.storable_of_ofNode read
  · obtain ⟨w, read⟩ := eachParameter name p member
    exact Parameter.storable_of_ofNode read
  · obtain ⟨w, read⟩ := eachResponse name r member
    exact Response.storable_of_ofNode read

/-- Documents survive their JSON form: exactly those that can be stored are read back from what they
write, and every document that is read from a value can be stored. -/
theorem document_survives_json :
    (∀ d : Document, ofNode (.ofValue d.toJson) = .ok d ↔ d.Storable) ∧
    ∀ (v : Value) (d : Document), ofNode (.ofValue v) = .ok d →
      d.Storable ∧ ofNode (.ofValue d.toJson) = .ok d := by
  refine ⟨fun d => ⟨storable_of_ofNode, ofNode_toJson⟩, fun v d success => ?_⟩
  have storable := storable_of_ofNode success
  exact ⟨storable, ofNode_toJson storable⟩

end Document

theorem Schema.Storable.leaf {s : Schema} (plain : s.Plain) (noProperties : s.properties = [])
    (noItems : s.items = none) (noParts : s.allOf = []) : s.Storable :=
  .intro plain fun _ below => absurd below (not_below noProperties noItems noParts)

def pages : Schema where
  type := some "integer"
  defaultValue := some (.number (.int 1))
  allowedValues := [.null, .number (.int 1)]

def book : Schema where
  type := some "object"
  properties := [("pages", pages), ("sequel", { reference := some "#/definitions/Book" })]
  required := ["pages"]
  additionalProperties := some (.bool false)

def bookId : Parameter := { name := "id", location := .path, required := true }

/-- An operation with parameters and responses in their places and by pointers. -/
def library : Document where
  version := "2.0"
  paths := [("/books/{id}", {
    parameters := [.inline bookId]
    get := some {
      parameters := [.pointer "#/parameters/Language"]
      responses := [("200", .inline { schema := some { reference := some "#/definitions/Book" } }),
        ("default", .pointer "#/responses/Error")] } })]
  definitions := [("Book", book)]
  parameters := [("Language", { name := "lang", location := .query, type := some "string" })]
  responses := [("Error", { description := "failed" })]

theorem storable_bookReference : ({ reference := some "#/definitions/Book" } : Schema).Storable :=
  .leaf ⟨by simp [Entries.keys], by simp, by simp, by simp, by simp⟩ rfl rfl rfl

theorem storable_book : book.Storable := by
  have storable : pages.Storable :=
    .leaf ⟨by simp [pages, Entries.keys], by simp [pages], by simp [pages, Value.Distinct],
      by simp [pages, Value.Distinct], by simp [pages]⟩ rfl rfl rfl
  refine .intro ⟨by simp [book, Entries.keys], by simp [book, Value.Distinct], by simp [book],
    by simp [book], by simp [book]⟩ fun t below => ?_
  cases below with
  | property member =>
    simp only [book, List.mem_cons, Prod.mk.injEq, List.not_mem_nil, or_false] at member
    rcases member with ⟨-, rfl⟩ | ⟨-, rfl⟩
    · exact storable
    · exact storable_bookReference
  | items has => cases has
  | part member => cases member

theorem storable_library : library.Storable := by
  refine ⟨by decide, by decide, by decide, by decide, fun path item member => ?_,
    fun name s member => ?_, fun name p member => ?_, fun name r member => ?_⟩
  all_goals cases List.mem_singleton.mp member
  · refine ⟨fun method o offered => ?_, fun p member => ?_⟩
    · cases method <;> cases offered
      refine ⟨fun p member => ?_, by decide, fun key r member => ?_⟩
      · cases List.mem_singleton.mp member
        trivial
      · simp only [List.mem_cons, Prod.mk.injEq, List.not_mem_nil, or_false] at member
        rcases member with ⟨-, rfl⟩ | ⟨-, rfl⟩
        · rintro s ⟨⟩
          exact storable_bookReference
        · trivial
    · cases List.mem_singleton.mp member
      exact ⟨fun _ => nofun, fun _ => nofun, by simp [bookId], by simp [bookId]⟩
  · exact storable_book
  · exact ⟨fun _ => nofun, fun _ => nofun, by simp, by simp⟩
  · exact fun _ => nofun

theorem library_survives_json :
    library.Storable ∧ Document.ofNode (.ofValue library.toJson) = .ok library := by
  have read := (Document.document_survives_json.1 library).mpr storable_library
  exact Document.document_survives_json.2 library.toJson library read

end ActionCatalogue.Swagger
