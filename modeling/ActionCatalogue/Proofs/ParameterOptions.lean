import ActionCatalogue.Proofs.ConversionSteps
import ActionCatalogue.Proofs.LenientBuild
import ActionCatalogue.Proofs.NormalFixedPoint

/-!
The options that parameters become. The parameters of an operation are told apart by name and
location, its options by name alone: the option of a path, query or form parameter takes the place
of the one that an earlier parameter of that name has put there, be that in the path and required or
not. So these parameters all have an option of their own exactly if no two of them share a name.
-/

namespace ActionCatalogue.Swagger

variable {d : Document} {n : Normalizer} {e : Endpoint} {a : Descriptor} {p : Parameter}
  {parameters : List Parameter} {inputs next : Inputs}

/-- Parameters of the path, the query and a form become one option each. -/
def Parameter.isOption (p : Parameter) : Bool :=
  match p.location with
  | .path | .query | .formData => true
  | .header | .body => false

/-- A parameter of the path is required whatever it says. -/
def Parameter.isRequired (p : Parameter) : Bool :=
  p.location = .path || p.required

/-- An option is that of a parameter: it has its name, is required if it is, and has the type that
the schema of its value is converted to. -/
structure OptionOf (d : Document) (n : Normalizer) (p : Parameter) (o : ActionOption) : Prop where
  name : o.name = p.name
  required : o.required = p.isRequired
  type : ∃ t, d.typeOf p.valueSchema = .ok t ∧ n.typeAt p.name 0 t = .ok o.type

/-- Every path parameter has a required option of its own type under its name, and no two of the
parameters that become options share one. -/
structure KeepsParameters (d : Document) (n : Normalizer) (parameters : List Parameter)
    (options : Entries ActionOption) : Prop where
  path : ∀ p ∈ parameters, p.location = .path → ∃ o, Entries.lookup p.name options = some o ∧
    o.required = true ∧ OptionOf d n p o
  apart : ∃ own rest, options = own ++ rest ∧
    List.Forall₂ (fun p entry => p.name = entry.1 ∧ OptionOf d n p entry.2)
      (parameters.filter (·.isOption)) own

/-! ### The fields of parameters -/

/-- An entry has the field of a parameter under its name. -/
def OwnField (d : Document) (p : Parameter) (entry : String × FieldDescription) : Prop :=
  entry.1 = p.name ∧ parameterField d p p.isRequired = .ok entry.2

/-- What a body gives: the fields of an object, or else one field under its name. -/
inductive GivesBody (d : Document) (p : Parameter) : Entries FieldDescription → Prop
  | object {fields : Entries FieldDescription}
      (converted : d.typeOf p.valueSchema = .ok (.fields fields)) : GivesBody d p fields
  | single {field : FieldDescription}
      (other : ∀ fields, d.typeOf p.valueSchema ≠ .ok (.fields fields))
      (found : parameterField d p p.required = .ok field) : GivesBody d p [(p.name, field)]

/-- What becomes of a parameter that is added: the option of a parameter takes the place of one of
the same name, a body puts its fields in, and a header is passed over. -/
inductive Added (d : Document) (p : Parameter) (inputs : Inputs) : Inputs → Prop
  | option {entry : String × FieldDescription} (isOption : p.isOption) (own : OwnField d p entry) :
      Added d p inputs { inputs with fields := Entries.put entry.1 entry.2 inputs.fields }
  | body {part : Entries FieldDescription} (isBody : p.location = .body)
      (gives : GivesBody d p part) :
      Added d p inputs { inputs with body := Entries.putAll inputs.body part }
  | header (isHeader : p.location = .header) : Added d p inputs inputs

theorem added_body (isBody : p.location = .body) (added : inputs.add d p = .ok next) :
    Added d p inputs next := by
  simp only [Inputs.add, isBody] at added
  obtain ⟨found, given, added⟩ := exists_of_bind_eq_ok added
  obtain ⟨type, converted, given⟩ := exists_of_bind_eq_ok given
  cases found with
  | some fields =>
    cases added
    cases type with
    | fields own =>
      cases given
      exact .body isBody (.object converted)
    | named _ => cases given
    | list _ => cases given
  | none =>
    obtain ⟨field, found, added⟩ := exists_of_bind_eq_ok added
    cases added
    refine .body isBody (.single (fun fields same => ?_) found)
    cases converted.symm.trans same
    cases given

theorem added_of_add (added : inputs.add d p = .ok next) : Added d p inputs next := by
  cases location : p.location with
  | body => exact added_body location added
  | header =>
    simp only [Inputs.add, location] at added
    cases added
    exact .header location
  | _ =>
    -- each of the other locations has its own idea of what is required
    simp only [Inputs.add, location] at added
    obtain ⟨field, found, added⟩ := exists_of_bind_eq_ok added
    cases added
    have own : OwnField d p (p.name, field) :=
      ⟨rfl, by simpa [Parameter.isRequired, location] using found⟩
    exact .option (by simp [Parameter.isOption, location]) own

/-- Parameters that become options put their fields in one after another, and so do bodies. -/
theorem exists_of_foldlM (added : parameters.foldlM (Inputs.add d) inputs = .ok next) :
    ∃ own parts, List.Forall₂ (OwnField d) (parameters.filter (·.isOption)) own ∧
      List.Forall₂ (GivesBody d) (parameters.filter (·.location = .body)) parts ∧
      next = {
        fields := Entries.putAll inputs.fields own
        body := Entries.putAll inputs.body parts.flatten } := by
  induction parameters generalizing inputs with
  | nil =>
    cases added
    exact ⟨[], [], .nil, .nil, rfl⟩
  | cons p rest ih =>
    rw [List.foldlM_cons] at added
    obtain ⟨first, one, added⟩ := exists_of_bind_eq_ok added
    obtain ⟨own, parts, options, bodies, rfl⟩ := ih added
    cases added_of_add one with
    | @option entry isOption found =>
      have noBody : p.location ≠ .body := by
        intro isBody
        simp [Parameter.isOption, isBody] at isOption
      refine ⟨entry :: own, parts, ?_, by simpa [noBody] using bodies, rfl⟩
      rw [List.filter_cons_of_pos isOption]
      exact .cons found options
    | @body part isBody gives =>
      refine ⟨own, part :: parts, by simpa [Parameter.isOption, isBody] using options, ?_, ?_⟩
      · rw [List.filter_cons_of_pos (by simp [isBody])]
        exact .cons gives bodies
      · rw [List.flatten_cons, Entries.putAll_append]
    | header isHeader =>
      exact ⟨own, parts, by simpa [Parameter.isOption, isHeader] using options,
        by simpa [isHeader] using bodies, rfl⟩

theorem nodup_keys_all (own body : Entries FieldDescription) :
    (Entries.keys (Inputs.all ⟨Entries.ofPairs own, Entries.ofPairs body⟩)).Nodup := by
  rw [Inputs.all, Entries.keys_append, List.nodup_append]
  refine ⟨Entries.nodup_keys_ofPairs own,
    (Entries.nodup_keys_ofPairs body).sublist (List.filter_sublist.map Prod.fst), ?_⟩
  rintro key taken _ among rfl
  obtain ⟨entry, member, rfl⟩ := List.mem_map.mp among
  simp [Entries.has_eq, taken] at member

/-! ### Options -/

/-- Where a parameter stands among those of an operation. -/
def Parameter.place (p : Parameter) : String × Location := (p.name, p.location)

/-- Parameters under their places, later ones over earlier ones. -/
def merge (given : List Parameter) : List ((String × Location) × Parameter) :=
  Entries.ofPairs (given.map fun p => (p.place, p))

theorem parametersOf_eq_ok_iff : parametersOf d e = .ok parameters ↔
    ∃ given, (e.item.parameters ++ e.operation.parameters).mapM d.parameter = .ok given ∧
      Entries.values (merge given) = parameters := by
  unfold parametersOf
  cases (e.item.parameters ++ e.operation.parameters).mapM d.parameter with
  | error _ => simp [bind, Except.bind]
  | ok given => simp [bind, Except.bind, pure, Except.pure, merge, Parameter.place]

theorem place_of_mem_merge {given : List Parameter} {entry : (String × Location) × Parameter}
    (member : entry ∈ merge given) : entry.2.place = entry.1 := by
  obtain ⟨p, -, rfl⟩ := List.mem_map.mp (Entries.mem_of_mem_ofPairs member)
  rfl

theorem places_merge (given : List Parameter) :
    (Entries.values (merge given)).map (·.place) = Entries.keys (merge given) := by
  rw [Entries.values, Entries.keys, List.map_map]
  exact List.map_congr_left fun entry member => place_of_mem_merge member

theorem optionOf_of_optionAt {entry : String × FieldDescription} {o : ActionOption}
    (own : OwnField d p entry) (normalized : n.optionAt entry.1 entry.1 0 entry.2 = .ok o) :
    OptionOf d n p o := by
  obtain ⟨name, field⟩ := entry
  obtain ⟨rfl, found⟩ := own
  obtain ⟨described, isField, found⟩ := exists_of_bind_eq_ok found
  obtain ⟨t, typed, isField⟩ := exists_of_bind_eq_ok isField
  cases isField
  cases found
  obtain ⟨type, converted, rfl⟩ := Normalizer.optionAt_eq_ok_iff.mp normalized
  exact ⟨rfl, rfl, t, typed, converted⟩

/-- Options under the names of fields: each comes of the field in its place. -/
def Normalized (n : Normalizer) (field : String × FieldDescription)
    (option : String × ActionOption) : Prop :=
  field.1 = option.1 ∧ n.optionAt field.1 field.1 0 field.2 = .ok option.2

theorem forall₂_of_normalizeFields {fields : Entries FieldDescription}
    {options : Entries ActionOption} (normalized : n.normalizeFields fields = .ok options) :
    List.Forall₂ (Normalized n) fields options :=
  (Normalizer.optionsAt_eq_ok_iff.mp normalized).imp fun _ _ each => each

theorem exists_of_normalized {fields : Entries FieldDescription} {options : Entries ActionOption}
    (normalized : List.Forall₂ (Normalized n) fields options) {name : String}
    {field : FieldDescription} (found : Entries.lookup name fields = some field) :
    ∃ o, Entries.lookup name options = some o ∧ n.optionAt name name 0 field = .ok o := by
  induction normalized with
  | nil => cases found
  | @cons entry option _ _ first _ ih =>
    obtain ⟨key, o⟩ := option
    obtain ⟨rfl, own⟩ := first
    rw [Entries.lookup_cons]
    by_cases same : entry.1 = name
    · rw [Entries.lookup, if_pos same, Option.some.injEq] at found
      rw [if_pos same, ← found, ← same]
      exact ⟨o, rfl, own⟩
    · rw [Entries.lookup, if_neg same] at found
      rw [if_neg same]
      exact ih found

/-- What an action's options come of: the fields of its parameters, later ones in the place of
earlier ones of the same name, and then its body fields. -/
theorem exists_fields (built : describe d n e = .ok a) : ∃ parameters own fields,
    parametersOf d e = .ok parameters ∧
      List.Forall₂ (OwnField d) (parameters.filter (·.isOption)) own ∧
      (Entries.keys (Entries.ofPairs own ++ fields)).Nodup ∧
      List.Forall₂ (Normalized (n.within a.name)) (Entries.ofPairs own ++ fields) a.options := by
  obtain ⟨parameters, inputs, options, type, merged, added, normalized, -, rfl⟩ :=
    describe_eq_ok_iff.mp built
  obtain ⟨own, parts, each, -, rfl⟩ := exists_of_foldlM added
  exact ⟨parameters, own, _, merged, each, nodup_keys_all own parts.flatten,
    forall₂_of_normalizeFields normalized⟩

/-- The last of the parameters with a name gives the option under that name. -/
theorem exists_option {own fields : Entries FieldDescription} {options : Entries ActionOption}
    {before after : List Parameter} (each : List.Forall₂ (OwnField d) (before ++ p :: after) own)
    (normalized : List.Forall₂ (Normalized n) (Entries.ofPairs own ++ fields) options)
    (last : p.name ∉ after.map (·.name)) :
    ∃ o, Entries.lookup p.name options = some o ∧ OptionOf d n p o := by
  obtain ⟨earlier, _, rfl, -, each⟩ := Pass.forall₂_append each
  obtain ⟨entry, later, ownField, rest, rfl⟩ := List.forall₂_cons_left_iff.mp each
  have fresh : entry.1 ∉ Entries.keys later := by
    rw [ownField.1]
    intro taken
    obtain ⟨field, member, same⟩ := List.mem_map.mp taken
    obtain ⟨q, among, name, -⟩ := Pass.exists_of_mem_right rest member
    exact last (List.mem_map.mpr ⟨q, among, name.symm.trans same⟩)
  have found : Entries.lookup p.name (Entries.ofPairs (earlier ++ entry :: later) ++ fields) =
      some entry.2 := by
    rw [← ownField.1, Entries.lookup_append, Entries.lookup_ofPairs_last fresh]
    rfl
  obtain ⟨o, has, own⟩ := exists_of_normalized normalized found
  rw [← ownField.1] at own has ⊢
  exact ⟨o, has, optionOf_of_optionAt ownField own⟩

/-- The parameters that become options are told apart by name and location, and so are options by
name. The last parameter with a name gives the option of that name; and parameters keep options of
their own exactly if their names are distinct. -/
theorem parameters_kept_iff_names_distinct (d : Document) (n : Normalizer) (e : Endpoint)
    (a : Descriptor) (built : describe d n e = .ok a) :
    ∃ parameters, parametersOf d e = .ok parameters ∧
      (parameters.map fun p => (p.name, p.location)).Nodup ∧
      (∀ before p after, parameters.filter (·.isOption) = before ++ p :: after →
        p.name ∉ after.map (·.name) →
          ∃ o, Entries.lookup p.name a.options = some o ∧ OptionOf d (n.within a.name) p o) ∧
      (KeepsParameters d (n.within a.name) parameters a.options ↔
        ((parameters.filter (·.isOption)).map (·.name)).Nodup) := by
  obtain ⟨parameters, own, fields, merged, each, distinct, normalized⟩ := exists_fields built
  have last : ∀ before p after, parameters.filter (·.isOption) = before ++ p :: after →
      p.name ∉ after.map (·.name) →
        ∃ o, Entries.lookup p.name a.options = some o ∧ OptionOf d (n.within a.name) p o := by
    intro before p after split isLast
    rw [split] at each
    exact exists_option each normalized isLast
  have places : (parameters.map (·.place)).Nodup := by
    obtain ⟨given, -, rfl⟩ := parametersOf_eq_ok_iff.mp merged
    rw [places_merge]
    exact Entries.nodup_keys_ofPairs _
  refine ⟨parameters, merged, places, last, fun keeps => ?_, fun names => ?_⟩
  · obtain ⟨ownOptions, rest, all, apart⟩ := keeps.apart
    have sameKeys : Entries.keys (Entries.ofPairs own ++ fields) = Entries.keys a.options :=
      Pass.map_eq_of_forall₂ normalized fun _ _ each => each.1
    have names : (parameters.filter (·.isOption)).map (·.name) = Entries.keys ownOptions :=
      Pass.map_eq_of_forall₂ apart fun _ _ each => each.1
    rw [sameKeys, all, Entries.keys_append] at distinct
    rw [names]
    exact (List.nodup_append.mp distinct).1
  · constructor
    · intro p member inPath
      have isOption : p.isOption := by simp [Parameter.isOption, inPath]
      obtain ⟨before, after, split⟩ :=
        List.append_of_mem (List.mem_filter.mpr ⟨member, isOption⟩)
      rw [split, List.map_append, List.map_cons] at names
      have isLast := (List.nodup_cons.mp (List.nodup_append.mp names).2.1).1
      obtain ⟨o, found, optionOf⟩ := last before p after split isLast
      exact ⟨o, found, by simp [optionOf.required, Parameter.isRequired, inPath], optionOf⟩
    · have keys : (parameters.filter (·.isOption)).map (·.name) = Entries.keys own :=
        Pass.map_eq_of_forall₂ each fun _ _ own => own.1.symm
      rw [keys] at names
      rw [Entries.ofPairs_of_nodup names] at normalized
      obtain ⟨front, back, all, fronts, -⟩ := Pass.forall₂_append normalized
      refine ⟨front, back, all, Pass.forall₂_trans each fronts ?_⟩
      rintro p entry option ownField ⟨same, normalized⟩
      exact ⟨ownField.1.symm.trans same, optionOf_of_optionAt ownField normalized⟩

def idInPath : Parameter :=
  { name := "id", location := .path, required := true, type := some "integer" }

def idInQuery : Parameter := { name := "id", location := .query, type := some "string" }

def limitInQuery : Parameter := { name := "limit", location := .query, type := some "integer" }

/-- A document of one operation with some parameters. -/
def petDocument (parameters : List Parameter) : Document where
  paths := [("/pets/{id}", { get := some { parameters := parameters.map .inline } })]

def petById (parameters : List Parameter) : Endpoint where
  path := "/pets/{id}"
  item := { get := some { parameters := parameters.map .inline } }
  method := .get
  operation := { parameters := parameters.map .inline }

def petAction (options : Entries ActionOption) : Descriptor where
  name := "get_pets_id"
  path := "/pets/{id}"
  method := .get
  options

def labelled (name label : String) (base : BaseType) (required : Bool) : String × ActionOption :=
  (name, { name, displayName := label, shortDescription := label, description := label
           type := .primitive { base }, required })

theorem describe_petById {parameters : List Parameter} {fields : Entries FieldDescription}
    {options : Entries ActionOption}
    (merged : parametersOf (petDocument parameters) (petById parameters) = .ok parameters)
    (added : parameters.foldlM (Inputs.add (petDocument parameters)) {} = .ok { fields })
    (normalized : (Normalizer.within {} "get_pets_id").normalizeFields fields = .ok options) :
    describe (petDocument parameters) {} (petById parameters) = .ok (petAction options) := by
  have key : actionName "/pets/{id}" .get (petById parameters).operation = "get_pets_id" := rfl
  have named : (petById parameters).name = "get_pets_id" := key
  refine describe_eq_ok_iff.mpr ⟨parameters, { fields }, options, none, merged, added, ?_, rfl, ?_⟩
  · rw [named, Inputs.all, List.filter_nil, List.append_nil]
    exact normalized
  · rw [named]
    rfl

theorem typeOf_integer (d : Document) {p : Parameter}
    (integer : p.valueSchema = { type := some "integer" }) :
    d.typeOf p.valueSchema = .ok (.named "int") := by
  rw [integer, Document.typeOf, Document.convert_node rfl]
  rfl

theorem typeOf_string (d : Document) {p : Parameter}
    (string : p.valueSchema = { type := some "string" }) :
    d.typeOf p.valueSchema = .ok (.named "string") := by
  rw [string, Document.typeOf, Document.convert_node rfl]
  rfl

/-- A query parameter in the place of the path parameter of its name: the option is that of the
query, and nothing is reported. -/
theorem query_takes_the_place_of_path :
    let parameters := [idInPath, idInQuery]
    let d := petDocument parameters
    parametersOf d (petById parameters) = .ok parameters ∧
      ∃ a, buildOperation d {} "/pets/{id}" .get = .ok a ∧
        a.options = [labelled "id" "Id" .string false] ∧ a.shadowed = [] ∧
        ¬KeepsParameters d (Normalizer.within {} a.name) parameters a.options := by
  intro parameters d
  have merged : parametersOf d (petById parameters) = .ok parameters := rfl
  have integer := typeOf_integer d (p := idInPath) rfl
  have string := typeOf_string d (p := idInQuery) rfl
  have added : parameters.foldlM (Inputs.add d) {} = .ok {
      fields := [("id", idInQuery.valueSchema.describedBy false (.named "string"))] } := by
    simp only [parameters, List.foldlM_cons, Inputs.add, parameterField, Document.fieldOf, integer,
      string]
    rfl
  refine ⟨merged, petAction [labelled "id" "Id" .string false],
    describe_petById merged added rfl, rfl, rfl, fun keeps => ?_⟩
  obtain ⟨o, found, required, -⟩ := keeps.path idInPath List.mem_cons_self rfl
  cases found
  cases required

theorem distinct_names_are_kept :
    let parameters := [idInPath, limitInQuery]
    let d := petDocument parameters
    ∃ a, describe d {} (petById parameters) = .ok a ∧
      KeepsParameters d (Normalizer.within {} a.name) parameters a.options := by
  intro parameters d
  have merged : parametersOf d (petById parameters) = .ok parameters := rfl
  have id := typeOf_integer d (p := idInPath) rfl
  have limit := typeOf_integer d (p := limitInQuery) rfl
  have added : parameters.foldlM (Inputs.add d) {} = .ok {
      fields := [("id", idInPath.valueSchema.describedBy true (.named "int")),
        ("limit", limitInQuery.valueSchema.describedBy false (.named "int"))] } := by
    simp only [parameters, List.foldlM_cons, Inputs.add, parameterField, Document.fieldOf, id,
      limit]
    rfl
  have built : describe d {} (petById parameters) =
      .ok (petAction [labelled "id" "Id" .int true, labelled "limit" "Limit" .int false]) :=
    describe_petById merged added rfl
  obtain ⟨found, again, -, -, keeps⟩ :=
    parameters_kept_iff_names_distinct d {} (petById parameters) _ built
  cases merged.symm.trans again
  exact ⟨_, built, keeps.mpr (by decide)⟩

end ActionCatalogue.Swagger
