import ActionCatalogue.Proofs.ChosenResponses
import ActionCatalogue.Proofs.ConversionSteps

/-!
What the action of an operation depends on. An endpoint shares parameters and responses by pointers,
and its schemas mention definitions, directly and through one another. Two documents that agree on
all of these derive the same action, or fail with the same error, whatever else they have and in
whatever order their sections stand.
-/

namespace ActionCatalogue.Swagger

variable {d other : Document} {e : Endpoint} {n : Normalizer}

namespace Endpoint

/-- The name of a shared parameter that one of an endpoint's pointers has, be it of the path or of
the operation. -/
def SharesParameter (e : Endpoint) (name : String) : Prop :=
  ∃ reference, .pointer reference ∈ e.item.parameters ++ e.operation.parameters ∧
    Pointer.nameIn "parameters" reference = .ok name

/-- The name of a shared response that one of an operation's pointers has. -/
def SharesResponse (e : Endpoint) (name : String) : Prop :=
  ∃ key reference, (key, .pointer reference) ∈ e.operation.responses ∧
    Pointer.nameIn "responses" reference = .ok name

/-- The schemas of an endpoint: of the values of its parameters, and of its responses. -/
inductive HasSchema (d : Document) (e : Endpoint) : Schema → Prop
  | parameter {shared : Shared Parameter} {p : Parameter}
      (member : shared ∈ e.item.parameters ++ e.operation.parameters)
      (found : d.parameter shared = .ok p) : HasSchema d e p.valueSchema
  | response {key : String} {shared : Shared Response} {r : Response} {s : Schema}
      (member : (key, shared) ∈ e.operation.responses) (found : d.response shared = .ok r)
      (has : r.schema = some s) : HasSchema d e s

/-- The name of a definition that can be reached from one of an endpoint's schemas. -/
def Mentions (d : Document) (e : Endpoint) (name : String) : Prop :=
  ∃ s, e.HasSchema d s ∧ d.Mentions s name

end Endpoint

/-- Two documents have the same of everything that an endpoint refers to, and lack the same. -/
structure SameReferences (d other : Document) (e : Endpoint) : Prop where
  parameters : ∀ name, e.SharesParameter name →
    Entries.lookup name d.parameters = Entries.lookup name other.parameters
  responses : ∀ name, e.SharesResponse name →
    Entries.lookup name d.responses = Entries.lookup name other.responses
  definitions : ∀ name, e.Mentions d name →
    Entries.lookup name d.definitions = Entries.lookup name other.definitions

/-! ### One endpoint -/

theorem resolve_congr {α : Type} {sectionName : String} {entries others : Entries α}
    {shared : Shared α} (same : ∀ reference name, shared = .pointer reference →
      Pointer.nameIn sectionName reference = .ok name →
        Entries.lookup name entries = Entries.lookup name others) :
    Document.resolve sectionName entries shared = Document.resolve sectionName others shared := by
  cases shared with
  | inline a => rfl
  | pointer reference =>
    have found : Document.lookupIn sectionName entries reference =
        Document.lookupIn sectionName others reference := by
      unfold Document.lookupIn
      cases named : Pointer.nameIn sectionName reference with
      | error _ => rfl
      | ok name => simp only [same reference name rfl named]
    simp only [Document.resolve, found]

theorem add_congr {p : Parameter} (same : d.typeOf p.valueSchema = other.typeOf p.valueSchema)
    (inputs : Inputs) : inputs.add d p = inputs.add other p := by
  simp only [Inputs.add, Document.objectFields, parameterField, Document.fieldOf, same]

/-- The parameters of an endpoint are among those that its path and its operation give. -/
theorem exists_of_mem_parametersOf {parameters : List Parameter} {p : Parameter}
    (merged : parametersOf d e = .ok parameters) (member : p ∈ parameters) :
    ∃ shared ∈ e.item.parameters ++ e.operation.parameters, d.parameter shared = .ok p := by
  obtain ⟨given, resolved, merged⟩ := exists_of_bind_eq_ok merged
  cases merged
  obtain ⟨key, put⟩ := Entries.mem_values.mp member
  obtain ⟨q, among, same⟩ := List.mem_map.mp (Entries.mem_of_mem_ofPairs put)
  cases same
  exact Pass.exists_of_mem_results resolved among

/-- The response that counts is one of the operation's. -/
theorem exists_of_successResponse? {op : Operation} {shared : Shared Response}
    (counts : successResponse? op = some shared) : ∃ key, (key, shared) ∈ op.responses := by
  generalize found : some shared = chosen at counts
  cases successResponse?_eq_iff.mp counts with
  | @success before after key code r place =>
    cases found
    exact ⟨key, place ▸ List.mem_append_right _ List.mem_cons_self⟩
  | default => exact ⟨"default", Entries.mem_of_lookup found.symm⟩

namespace SameReferences

theorem typeOf (same : SameReferences d other e) {s : Schema} (has : e.HasSchema d s) :
    d.typeOf s = other.typeOf s :=
  Document.convert_congr {
    definitions := fun name mentioned => same.definitions name ⟨s, has, mentioned⟩
    active := fun _ _ => Iff.rfl }

theorem parametersOf (same : SameReferences d other e) :
    parametersOf d e = parametersOf other e := by
  have each : ∀ shared ∈ e.item.parameters ++ e.operation.parameters,
      d.parameter shared = other.parameter shared := by
    intro shared member
    refine resolve_congr fun reference name isPointer named => ?_
    exact same.parameters name ⟨reference, isPointer ▸ member, named⟩
  rw [Swagger.parametersOf, Swagger.parametersOf, Pass.mapM_congr each]

theorem inputs (same : SameReferences d other e) {parameters : List Parameter}
    (merged : Swagger.parametersOf d e = .ok parameters) :
    parameters.foldlM (Inputs.add d) ({} : Inputs) = parameters.foldlM (Inputs.add other) {} := by
  apply Pass.foldlM_congr
  intro inputs p member
  obtain ⟨shared, among, found⟩ := exists_of_mem_parametersOf merged member
  exact add_congr (same.typeOf (.parameter among found)) inputs

theorem responseType (same : SameReferences d other e) :
    responseType d n e.operation = responseType other n e.operation := by
  unfold Swagger.responseType
  split
  · rfl
  next shared counts =>
    obtain ⟨key, member⟩ := exists_of_successResponse? counts
    have found : d.response shared = other.response shared := by
      refine resolve_congr fun reference name isPointer named => ?_
      exact same.responses name ⟨key, reference, isPointer ▸ member, named⟩
    rw [← found]
    cases resolved : d.response shared with
    | error _ => rfl
    | ok r =>
      cases has : r.schema with
      | none => simp only [has, bind, Except.bind]
      | some s => simp only [has, bind, Except.bind, same.typeOf (.response member resolved has)]

/-- Documents that agree on what an endpoint refers to describe it in the same way. -/
theorem describe (same : SameReferences d other e) : describe d n e = describe other n e := by
  unfold Swagger.describe
  rw [← same.parametersOf]
  cases merged : Swagger.parametersOf d e with
  | error _ => rfl
  | ok parameters =>
    simp only [bind, Except.bind, same.inputs merged, same.responseType]

end SameReferences

/-! ### One operation of two documents -/

/-- Two documents have the same path item at a path and, as far as the operation of a method there
refers to them, the same parameters, responses and definitions. -/
structure SameOperation (d other : Document) (path : String) (method : Method) : Prop where
  item : Entries.lookup path d.paths = Entries.lookup path other.paths
  references : ∀ item operation, Entries.lookup path d.paths = some item →
    item.operation? method = some operation →
      SameReferences d other { path, item, method, operation }

/-- The entries of all sections of a document stand in another one too, in any order. No name comes
twice in a section, as in every map that the program keeps. -/
structure Rearranged (d other : Document) : Prop where
  paths : d.paths.Perm other.paths
  definitions : d.definitions.Perm other.definitions
  parameters : d.parameters.Perm other.parameters
  responses : d.responses.Perm other.responses
  distinctPaths : (Entries.keys d.paths).Nodup
  distinctDefinitions : (Entries.keys d.definitions).Nodup
  distinctParameters : (Entries.keys d.parameters).Nodup
  distinctResponses : (Entries.keys d.responses).Nodup

theorem Rearranged.sameOperation (rearranged : Rearranged d other) (path : String)
    (method : Method) : SameOperation d other path method where
  item := Entries.lookup_perm rearranged.paths rearranged.distinctPaths path
  references _ _ _ _ := {
    parameters := fun name _ =>
      Entries.lookup_perm rearranged.parameters rearranged.distinctParameters name
    responses := fun name _ =>
      Entries.lookup_perm rearranged.responses rearranged.distinctResponses name
    definitions := fun name _ =>
      Entries.lookup_perm rearranged.definitions rearranged.distinctDefinitions name }

theorem SameOperation.buildOperation {path : String} {method : Method}
    (same : SameOperation d other path method) (n : Normalizer) :
    buildOperation d n path method = buildOperation other n path method := by
  unfold Swagger.buildOperation
  rw [← same.item]
  cases found : Entries.lookup path d.paths with
  | none => rfl
  | some item =>
    cases offered : item.operation? method with
    | none => simp only [offered]
    | some operation =>
      simp only [offered]
      exact (same.references item operation found offered).describe

/-- An operation depends only on what it references: documents that agree on that give the same
action or the same error, and the order of the sections of a document makes no difference. -/
theorem operation_depends_on_its_references (n : Normalizer) (path : String) (method : Method) :
    (∀ d other, SameOperation d other path method →
      buildOperation d n path method = buildOperation other n path method) ∧
    ∀ d other, Rearranged d other →
      buildOperation d n path method = buildOperation other n path method :=
  ⟨fun _ _ same => same.buildOperation n,
    fun _ _ rearranged => (rearranged.sameOperation path method).buildOperation n⟩

def tag : Schema := { type := some "string" }

def tagReference : Schema := { reference := some "#/definitions/Tag" }

def pet : Schema := { type := some "object", properties := [("tag", tagReference)] }

def petReference : Schema := { reference := some "#/definitions/Pet" }

def petId : Parameter := { name := "id", location := .path, type := some "integer" }

/-- An operation with a shared parameter, whose response refers to a definition that refers to
another one. -/
def clinic : Document where
  paths := [("/pets/{id}", {
    parameters := [.pointer "#/parameters/Id"]
    get := some { responses := [("200", .inline { schema := some petReference })] } })]
  definitions := [("Pet", pet), ("Tag", tag)]
  parameters := [("Id", petId)]

/-- The same with the definitions in another order, one more that leads nowhere, and one more path
that leads nowhere. -/
def largerClinic : Document where
  paths :=
    ("/vets", { get := some { parameters := [.pointer "#/parameters/None"] } }) :: clinic.paths
  definitions :=
    ("Broken", { reference := some "#/definitions/None" }) :: clinic.definitions.reverse
  parameters := clinic.parameters

theorem reaches_tagReference {s : Schema} (reached : clinic.Reaches tagReference s) :
    s = tagReference ∨ s = tag := by
  have found : clinic.definition "#/definitions/Tag" = .ok ("Tag", tag) := rfl
  cases reached with
  | self => exact .inl rfl
  | target isReference resolved rest =>
    cases isReference
    cases found.symm.trans resolved
    exact .inr (rest.eq_of_leaf rfl fun _ => Schema.not_below rfl rfl rfl)
  | child noReference => cases noReference

theorem reaches_petReference {s : Schema} (reached : clinic.Reaches petReference s) :
    s = petReference ∨ s = pet ∨ s = tagReference ∨ s = tag := by
  have found : clinic.definition "#/definitions/Pet" = .ok ("Pet", pet) := rfl
  cases reached with
  | self => exact .inl rfl
  | target isReference resolved rest =>
    cases isReference
    cases found.symm.trans resolved
    cases rest with
    | self => exact .inr (.inl rfl)
    | target isReference => cases isReference
    | child _ below rest =>
      cases below with
      | property member =>
        cases List.mem_singleton.mp member
        exact .inr (.inr (reaches_tagReference rest))
      | items has => cases has
      | part member => cases member
  | child noReference => cases noReference

theorem mentions_petReference {name : String} (mentioned : clinic.Mentions petReference name) :
    name = "Pet" ∨ name = "Tag" := by
  obtain ⟨s, reference, reached, isReference, named⟩ := mentioned
  rcases reaches_petReference reached with rfl | rfl | rfl | rfl
  · cases isReference
    exact .inl (Except.ok.inj named).symm
  · cases isReference
  · cases isReference
    exact .inr (Except.ok.inj named).symm
  · cases isReference

/-- The value of a parameter without a reference of its own mentions nothing. -/
theorem not_mentions_petId {name : String} : ¬clinic.Mentions petId.valueSchema name := by
  rintro ⟨s, reference, reached, isReference, -⟩
  rw [reached.eq_of_leaf rfl fun _ => Schema.not_below rfl rfl rfl] at isReference
  cases isReference

theorem sameOperation_clinic : SameOperation clinic largerClinic "/pets/{id}" .get where
  item := rfl
  references item operation found offered := by
    cases Option.some.inj found
    cases Option.some.inj offered
    refine ⟨fun _ _ => rfl, fun _ _ => rfl, ?_⟩
    rintro name ⟨s, has, mentioned⟩
    have known : name = "Pet" ∨ name = "Tag" := by
      cases has with
      | parameter member found =>
        cases List.mem_singleton.mp member
        cases found
        exact absurd mentioned not_mentions_petId
      | response member found has =>
        cases List.mem_singleton.mp member
        cases found
        cases has
        exact mentions_petReference mentioned
    rcases known with rfl | rfl <;> rfl

theorem clinic_operation_is_independent :
    let shuffled : Document := { clinic with definitions := clinic.definitions.reverse }
    SameOperation clinic largerClinic "/pets/{id}" .get ∧ Rearranged clinic shuffled ∧
      buildOperation clinic {} "/pets/{id}" .get =
        buildOperation largerClinic {} "/pets/{id}" .get ∧
      buildOperation clinic {} "/pets/{id}" .get =
        buildOperation shuffled {} "/pets/{id}" .get := by
  intro shuffled
  have rearranged : Rearranged clinic shuffled :=
    ⟨.refl _, (List.reverse_perm _).symm, .refl _, .refl _, by decide, by decide, by decide,
      by decide⟩
  obtain ⟨onReferences, onOrder⟩ := operation_depends_on_its_references {} "/pets/{id}" .get
  exact ⟨sameOperation_clinic, rearranged, onReferences clinic largerClinic sameOperation_clinic,
    onOrder clinic shuffled rearranged⟩

end ActionCatalogue.Swagger
