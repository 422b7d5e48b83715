import ActionCatalogue.Proofs.FieldOrigins
import ActionCatalogue.Proofs.LenientBuild
import ActionCatalogue.Proofs.NormalFixedPoint
import ActionCatalogue.Proofs.WellFormedDescriptions

/-!
All that can be wrong with an operation. As its descriptions are well-formed, the normalizer refuses
them only for a type string that nobody knows or for their depth, never for the number of items of a
list; what comes before can only fail for a pointer that leads nowhere. And as no fields are empty,
a type that is built is no deeper than what the normalizer allows, an empty shape being a level too.
-/

namespace ActionCatalogue

namespace OptionType

theorem optionDepth_eq (o : ActionOption) : optionDepth o = o.type.depth := by
  cases o
  rw [optionDepth]

theorem fieldsDepth_le {options : List (String × ActionOption)} {bound : Nat}
    (each : ∀ entry ∈ options, entry.2.type.depth ≤ bound) : fieldsDepth options ≤ bound := by
  induction options with
  | nil => exact Nat.zero_le bound
  | cons entry rest ih =>
    have first := each entry List.mem_cons_self
    have later := ih fun other member => each other (List.mem_cons_of_mem _ member)
    rw [fieldsDepth, optionDepth_eq]
    exact Nat.max_le.mpr ⟨first, later⟩

end OptionType

namespace Normalizer

variable {n : Normalizer} {Named : String → Prop}

/-- What the normalizer says of a well-formed description that it refuses. -/
inductive Fault (n : Normalizer) (Named : String → Prop) : DataError → Prop
  | unknownType {name path : String} (named : Named name) (unknown : ¬IsTypeName name) :
      Fault n Named (.unknownType name path)
  | tooDeep (path : String) : Fault n Named (n.tooDeep path)

/-- The fields of a shape stand one level below it, so there has to be one more level if there are
any. -/
theorem optionsAt_ends {depth : Nat} {fields : List (String × FieldDescription)}
    (each : ∀ entry ∈ fields, ∀ path, Ends (n.Fault Named)
      (fun type => depth + type.depth ≤ n.maxDepth) (n.typeAt path depth entry.2.type))
    (parent : String) :
    Ends (n.Fault Named) (fun options => (fields ≠ [] → depth ≤ n.maxDepth) ∧
      ∀ entry ∈ options, depth + entry.2.type.depth ≤ n.maxDepth)
      (n.optionsAt parent depth fields) := by
  induction fields with
  | nil =>
    rw [optionsAt]
    exact .ok ⟨nofun, nofun⟩
  | cons entry rest ih =>
    obtain ⟨name, field⟩ := entry
    have later := ih fun other member => each other (List.mem_cons_of_mem _ member)
    rw [optionsAt, optionAt_eq, bind_assoc]
    refine (each (name, field) List.mem_cons_self _).bind fun type bounded => ?_
    refine later.bind fun options bounds => .ok ⟨fun _ => by omega, ?_⟩
    rintro other (_ | ⟨_, member⟩)
    · exact bounded
    · exact bounds.2 other member

/-- A well-formed description is refused for a name or for its depth, or has a type that fits. -/
theorem typeAt_ends {a : TypeDescription} (formed : a.Formed Named) (path : String) (depth : Nat) :
    Ends (n.Fault Named) (fun type => depth + type.depth ≤ n.maxDepth) (n.typeAt path depth a) := by
  induction formed generalizing path depth with
  | @named name holds =>
    rw [typeAt]
    split
    next => exact .error (.tooDeep path)
    next shallow =>
      split
      next => exact .ok (Nat.le_of_not_lt shallow)
      next unknown =>
        refine .error (.unknownType holds ?_)
        rw [isTypeName_iff, unknown]
        rintro ⟨_, ⟨⟩⟩
  | list _ ih =>
    rw [typeAt]
    split
    next => exact .error (.tooDeep path)
    next =>
      refine (ih (path ++ "[]") (depth + 1)).bind fun type bounded => .ok ?_
      rw [OptionType.depth]
      omega
  | @fields fields filled _ ih =>
    rw [typeAt]
    split
    next => exact .error (.tooDeep path)
    next =>
      have each : ∀ entry ∈ fields, ∀ path, Ends (n.Fault Named)
          (fun type => depth + 1 + type.depth ≤ n.maxDepth)
          (n.typeAt path (depth + 1) entry.2.type) :=
        fun entry member path => ih entry member path (depth + 1)
      refine (optionsAt_ends each path).bind fun options bounds => .ok ?_
      have room := bounds.1 filled
      have inner : OptionType.fieldsDepth options ≤ n.maxDepth - (depth + 1) :=
        OptionType.fieldsDepth_le fun entry member => by
          have bound := bounds.2 entry member
          omega
      rw [OptionType.depth]
      omega

end Normalizer

namespace Swagger

/-- What can be wrong with an operation: a pointer that leads nowhere, be it of a parameter, of a
response or of a schema; a type string that neither swagger nor the catalogue has; or types nested
deeper than the normalizer allows. -/
inductive OperationFault (d : Document) (n : Normalizer) (e : Endpoint) : SwaggerError → Prop
  | parameter {reference : String} {error : SwaggerError}
      (member : .pointer reference ∈ e.item.parameters ++ e.operation.parameters)
      (fails : d.parameter (.pointer reference) = .error error) (unresolved : Unresolved error) :
      OperationFault d n e error
  | response {key reference : String} {error : SwaggerError}
      (member : (key, .pointer reference) ∈ e.operation.responses)
      (fails : d.response (.pointer reference) = .error error) (unresolved : Unresolved error) :
      OperationFault d n e error
  | definition {s : Schema} {error : SwaggerError} (has : e.HasSchema d s)
      (dangling : d.Dangling s error) (unresolved : Unresolved error) : OperationFault d n e error
  | unknownType {s : Schema} {name path : String} (has : e.HasSchema d s)
      (foreign : d.ForeignName s name) : OperationFault d n e (.data (.unknownType name path))
  | tooDeep (path : String) : OperationFault d n e
      (.data (.invalidType path s!"nesting deeper than {n.maxDepth} levels"))

/-- The names that the schemas of an endpoint can give to descriptions. -/
def Endpoint.NamedIn (d : Document) (e : Endpoint) (name : String) : Prop :=
  ∃ s, e.HasSchema d s ∧ d.NamedFrom s name

variable {d : Document} {n : Normalizer} {e : Endpoint} {p : Parameter} {inputs : Inputs}

theorem parametersOf_ends (d : Document) (n : Normalizer) (e : Endpoint) :
    Ends (OperationFault d n e) (fun parameters => ∀ p ∈ parameters, e.HasSchema d p.valueSchema)
      (parametersOf d e) := by
  have each : ∀ shared ∈ e.item.parameters ++ e.operation.parameters,
      Ends (OperationFault d n e) (fun _ => True) (d.parameter shared) := by
    intro shared member
    cases shared with
    | inline p => exact .ok trivial
    | pointer reference =>
      cases found : d.parameter (.pointer reference) with
      | ok p => exact .ok trivial
      | error error =>
        exact .error (.parameter member found (Document.resolve_fails _ _ _ error found))
  have ends : Ends (OperationFault d n e) (fun _ => True) (parametersOf d e) :=
    (Ends.mapM each).bind fun _ _ => .ok trivial
  refine ends.with_result fun parameters merged p member => ?_
  obtain ⟨shared, among, found⟩ := exists_of_mem_parametersOf merged member
  exact .parameter among found

theorem typeOf_ends {s : Schema} (has : e.HasSchema d s) :
    Ends (OperationFault d n e) (·.Formed (e.NamedIn d)) (d.typeOf s) := by
  refine (Document.convert_ends d [] s).mono (fun error dangling => ?_) fun a formed =>
    formed.mono fun name named => ⟨s, has, named⟩
  have unresolved : Unresolved error := by
    obtain ⟨t, reference, -, -, fails⟩ := dangling
    exact Document.lookupIn_fails _ _ reference error fails
  exact .definition has dangling unresolved

theorem parameterField_ends (has : e.HasSchema d p.valueSchema) (required : Bool) :
    Ends (OperationFault d n e) (·.type.Formed (e.NamedIn d)) (parameterField d p required) := by
  have field : Ends (OperationFault d n e) (·.type.Formed (e.NamedIn d))
      (d.fieldOf p.valueSchema required) := (typeOf_ends has).bind fun _ formed => .ok formed
  exact field.bind fun _ formed => .ok formed

theorem add_ends (has : e.HasSchema d p.valueSchema)
    (formed : inputs.Each fun entry => entry.2.type.Formed (e.NamedIn d)) :
    Ends (OperationFault d n e) (Inputs.Each fun entry => entry.2.type.Formed (e.NamedIn d))
      (inputs.add d p) := by
  refine Inputs.add_ends (parameterField_ends has)
    ((typeOf_ends has).mono (fun _ fault => fault) ?_) formed
  rintro _ described fields rfl
  cases described with
  | fields _ each => exact each

/-- What the normalizer says of an operation's descriptions is a fault of the operation. -/
theorem ofData_ends {α : Type} {Result : α → Prop} {scope : String} {x : Except DataError α}
    (ends : Ends ((n.within scope).Fault (e.NamedIn d)) Result x) :
    Ends (OperationFault d n e) Result (ofData x) := by
  cases x with
  | ok a => exact ends
  | error error =>
    cases ends with
    | tooDeep path => exact .error (.tooDeep path)
    | unknownType named unknown =>
      obtain ⟨s, has, isName | foreign⟩ := named
      · exact absurd isName unknown
      · exact .error (.unknownType has foreign)

theorem normalizeFields_ends {fields : Entries FieldDescription} {Named : String → Prop}
    (formed : FormedFields Named fields) :
    Ends (n.Fault Named) (fun options => ∀ entry ∈ options, entry.2.type.depth ≤ n.maxDepth)
      (n.normalizeFields fields) := by
  have each : ∀ entry ∈ fields, ∀ path, Ends (n.Fault Named)
      (fun type => 0 + type.depth ≤ n.maxDepth) (n.typeAt path 0 entry.2.type) :=
    fun entry member path => Normalizer.typeAt_ends (formed entry member) path 0
  refine (Normalizer.optionsAt_ends each "").mono (fun _ fault => fault) ?_
  intro options bounds entry member
  have bound := bounds.2 entry member
  omega

theorem responseType_ends (scope : String) :
    Ends (OperationFault d n e) (fun found => ∀ type, found = some type → type.depth ≤ n.maxDepth)
      (responseType d (n.within scope) e.operation) := by
  unfold responseType
  split
  · exact .ok nofun
  next shared counts =>
    obtain ⟨key, member⟩ := exists_of_successResponse? counts
    cases found : d.response shared with
    | error error =>
      cases shared with
      | inline response => cases found
      | pointer reference =>
        exact .error (.response member found (Document.resolve_fails _ _ _ error found))
    | ok response =>
      have first : Ends (OperationFault d n e) (response = ·) (.ok response) := .ok rfl
      refine first.bind ?_
      rintro _ rfl
      cases has : response.schema with
      | none => exact .ok nofun
      | some s =>
        refine (typeOf_ends (.response member found has)).bind fun a formed => ?_
        refine (ofData_ends (Normalizer.typeAt_ends formed "" 0)).bind fun type bounded => .ok ?_
        rintro _ ⟨⟩
        rw [Nat.zero_add] at bounded
        exact bounded

/-- The types of a described operation are no deeper than the normalizer allows. -/
structure Descriptor.Shallow (n : Normalizer) (a : Descriptor) : Prop where
  options : ∀ entry ∈ a.options, entry.2.type.depth ≤ n.maxDepth
  response : ∀ type, a.responseType = some type → type.depth ≤ n.maxDepth

theorem describe_ends (d : Document) (n : Normalizer) (e : Endpoint) :
    Ends (OperationFault d n e) (Descriptor.Shallow n) (describe d n e) := by
  refine (parametersOf_ends d n e).bind fun parameters has => ?_
  have inputs : Ends (OperationFault d n e)
      (Inputs.Each fun entry => entry.2.type.Formed (e.NamedIn d))
      (parameters.foldlM (Inputs.add d) {}) :=
    Ends.foldlM (fun inputs p member formed => add_ends (has p member) formed) ⟨nofun, nofun⟩
  refine inputs.bind fun inputs formed => ?_
  refine (ofData_ends (normalizeFields_ends formed.all)).bind fun options bounded => ?_
  exact (responseType_ends _).bind fun type response => .ok ⟨bounded, response⟩

/-- No fault of an operation is one of the number of items of a list. -/
theorem OperationFault.ne_arity {error : SwaggerError} (fault : OperationFault d n e error)
    (path : String) (length : Nat) :
    error ≠ .data (.invalidType path
      s!"list type must have exactly one element, got {length}") := by
  have arity : Begins 'l' s!"list type must have exactly one element, got {length}" :=
    .append (.head (by decide)) _
  cases fault with
  | parameter _ _ unresolved | response _ _ unresolved | definition _ _ unresolved =>
    obtain ⟨reason, rfl⟩ := unresolved
    exact nofun
  | unknownType => exact nofun
  | tooDeep =>
    intro same
    simp only [SwaggerError.data.injEq, DataError.invalidType.injEq] at same
    have deep : Begins 'n' s!"nesting deeper than {n.maxDepth} levels" :=
      .append (.append (.head (by decide)) _) _
    rw [same.2] at deep
    exact absurd (deep.unique arity) (by decide)

/-- Every list of a converted description has one item and no fields in it are empty, on any stack.
So an operation fails only for a pointer that leads nowhere, for a type string that neither swagger
nor the catalogue has, or for its depth, and never for the number of items of a list; and all types
of an operation that is described are no deeper than the normalizer allows. -/
theorem converted_types_fit_the_normalizer (d : Document) (n : Normalizer) (e : Endpoint) :
    (∀ active s,
      Ends (d.Dangling s) (TypeDescription.Formed (d.NamedFrom s)) (d.convert active s)) ∧
    Ends (OperationFault d n e) (Descriptor.Shallow n) (describe d n e) ∧
    ∀ (path : String) (length : Nat), describe d n e ≠ .error (.data (.invalidType path
      s!"list type must have exactly one element, got {length}")) := by
  have ends := describe_ends d n e
  refine ⟨d.convert_ends, ends, fun path length fails => ?_⟩
  rw [fails] at ends
  exact ends.ne_arity path length rfl

end Swagger

end ActionCatalogue
