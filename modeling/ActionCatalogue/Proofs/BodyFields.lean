import ActionCatalogue.Proofs.ParameterOptions

/-!
What becomes of all parameters of an operation. They are merged by name and location, and those that
become options give the first options of the action. The fields of its bodies come after them, but
for the fields that have the name of such a parameter: these are reported, and the option is the
parameter's. Headers make no difference.
-/

namespace ActionCatalogue.Swagger

variable {d : Document} {n : Normalizer} {e : Endpoint} {a : Descriptor}
  {shared : Shared Parameter} {p : Parameter} {given merged : List Parameter}
  {parts : List (Entries FieldDescription)}

/-- What stands for a parameter: itself, or the shared parameter that a pointer leads to. -/
inductive StandsFor (d : Document) : Shared Parameter → Parameter → Prop
  | inline (p : Parameter) : StandsFor d (.inline p) p
  | pointer {reference name : String} {p : Parameter}
      (named : Pointer.nameIn "parameters" reference = .ok name)
      (found : Entries.lookup name d.parameters = some p) : StandsFor d (.pointer reference) p

/-- Merged parameters: one for each place, where that place comes first, and the last one given. -/
structure Merges (given merged : List Parameter) : Prop where
  places : merged.map (·.place) = (given.map (·.place)).eraseDups
  last : ∀ p ∈ merged, (given.filter (·.place = p.place)).getLast? = some p

/-- The different names of the parameters that become options. -/
def optionNames (merged : List Parameter) : List String :=
  ((merged.filter (·.isOption)).map (·.name)).eraseDups

/-- The different names of the fields that bodies give. -/
def bodyNames (parts : List (Entries FieldDescription)) : List String :=
  (Entries.keys parts.flatten).eraseDups

/-- The options of an action are those of its parameters and then those of its bodies, apart from
the ones that it reports to be shadowed. Of several fields with a name the last one counts. -/
structure KeepsFields (d : Document) (n : Normalizer) (merged : List Parameter)
    (parts : List (Entries FieldDescription)) (a : Descriptor) : Prop where
  keys : Entries.keys a.options =
    optionNames merged ++ (bodyNames parts).filter (· ∉ optionNames merged)
  shadowed : a.shadowed = (bodyNames parts).filter (· ∈ optionNames merged)
  parameter : ∀ name ∈ optionNames merged, ∃ p o,
    ((merged.filter (·.isOption)).filter (·.name = name)).getLast? = some p ∧
      Entries.lookup name a.options = some o ∧ OptionOf d n p o
  body : ∀ name ∈ bodyNames parts, name ∉ optionNames merged → ∃ field o,
    (Entries.values (parts.flatten.filter (·.1 = name))).getLast? = some field ∧
      Entries.lookup name a.options = some o ∧ n.optionAt name name 0 field = .ok o

def isHeader (d : Document) (shared : Shared Parameter) : Bool :=
  match d.parameter shared with
  | .ok p => p.location = .header
  | .error _ => false

/-- An endpoint without its header parameters. -/
def Endpoint.withoutHeaders (d : Document) (e : Endpoint) : Endpoint :=
  { e with
    item := { e.item with parameters := e.item.parameters.filter (!isHeader d ·) }
    operation :=
      { e.operation with parameters := e.operation.parameters.filter (!isHeader d ·) } }

/-! ### Merged parameters -/

theorem parameter_eq_ok_iff : d.parameter shared = .ok p ↔ StandsFor d shared p := by
  cases shared with
  | inline q =>
    constructor
    · intro same
      cases same
      exact .inline _
    · intro stands
      cases stands
      rfl
  | pointer reference =>
    refine Document.resolve_pointer_eq_ok_iff.trans ⟨?_, ?_⟩
    · rintro ⟨name, named, has⟩
      exact .pointer named has
    · rintro (_ | ⟨named, has⟩)
      exact ⟨_, named, has⟩

theorem merges_merge (given : List Parameter) : Merges given (Entries.values (merge given)) where
  places := by
    rw [places_merge, merge, CollisionPolicy.keys_ofPairs]
    have keys : Entries.keys (given.map fun p => (p.place, p)) = given.map (·.place) := by
      simp [Entries.keys]
    rw [keys]
    congr!
  last := by
    intro p member
    obtain ⟨key, stored⟩ := Entries.mem_values.mp member
    obtain rfl : p.place = key := place_of_mem_merge stored
    rw [merge, ← CollisionPolicy.collect_overwrite] at stored
    obtain ⟨_, last, rfl, -⟩ : ∃ q, CollisionPolicy.overwrite.winner?
        (given.filter (·.place = p.place)) = some q ∧ id q = p ∧ q.place = p.place :=
      CollisionPolicy.exists_of_mem_collect_defining stored
    exact last

/-- Resolved parameters are those that stand for the given ones. -/
theorem exists_given (resolved : parametersOf d e = .ok merged) : ∃ given,
    List.Forall₂ (StandsFor d) (e.item.parameters ++ e.operation.parameters) given ∧
      Entries.values (merge given) = merged := by
  obtain ⟨given, found, same⟩ := parametersOf_eq_ok_iff.mp resolved
  exact ⟨given, (Pass.mapM_eq_ok_iff.mp found).imp fun _ _ => parameter_eq_ok_iff.mp, same⟩

/-! ### Fields under their names -/

theorem exists_last {α : Type} {f : α → String} {name : String} {xs : List α}
    (member : name ∈ xs.map f) : ∃ before x after, xs = before ++ x :: after ∧ f x = name ∧
      name ∉ after.map f := by
  induction xs with
  | nil => simp at member
  | cons x rest ih =>
    by_cases later : name ∈ rest.map f
    · obtain ⟨before, y, after, rfl, found, last⟩ := ih later
      exact ⟨x :: before, y, after, rfl, found, last⟩
    · have first : f x = name := by
        simpa [later, eq_comm] using member
      exact ⟨[], x, rest, rfl, first, later⟩

theorem getLast?_filter_of_last {α : Type} {f : α → String} {before after : List α} {x : α}
    (last : f x ∉ after.map f) :
    ((before ++ x :: after).filter (f · = f x)).getLast? = some x := by
  have none : after.filter (f · = f x) = [] := by
    refine List.filter_eq_nil_iff.mpr fun y member same => last ?_
    exact List.mem_map.mpr ⟨y, member, of_decide_eq_true same⟩
  rw [List.filter_append, List.filter_cons_of_pos (by simp), none, List.getLast?_concat]

/-- The names of the fields of parameters are those of the parameters. -/
theorem keys_own {own : Entries FieldDescription}
    (each : List.Forall₂ (OwnField d) (merged.filter (·.isOption)) own) :
    Entries.keys (Entries.ofPairs own) = optionNames merged := by
  have names : (merged.filter (·.isOption)).map (·.name) = Entries.keys own :=
    Pass.map_eq_of_forall₂ each fun _ _ own => own.1.symm
  rw [CollisionPolicy.keys_ofPairs, optionNames, names]

theorem keepsFields {own : Entries FieldDescription}
    (each : List.Forall₂ (OwnField d) (merged.filter (·.isOption)) own)
    (shadows : a.shadowed =
      Inputs.shadowed ⟨Entries.ofPairs own, Entries.ofPairs parts.flatten⟩)
    (normalized : List.Forall₂ (Normalized n)
      (Inputs.all ⟨Entries.ofPairs own, Entries.ofPairs parts.flatten⟩) a.options) :
    KeepsFields d n merged parts a := by
  have names := keys_own each
  have body : Entries.keys (Entries.ofPairs parts.flatten) = bodyNames parts :=
    CollisionPolicy.keys_ofPairs _
  constructor
  case keys =>
    have same : Entries.keys (Inputs.all ⟨Entries.ofPairs own, Entries.ofPairs parts.flatten⟩) =
        Entries.keys a.options := Pass.map_eq_of_forall₂ normalized fun _ _ field => field.1
    rw [← same, Inputs.all, Entries.keys_append, names, ← body,
      ← Entries.keys_filter (fun name => decide (name ∉ optionNames merged))]
    simp only [Entries.has_eq, names, decide_not]
  case shadowed =>
    rw [shadows, Inputs.shadowed, body]
    simp only [Entries.has_eq, names]
  case parameter =>
    intro name member
    obtain ⟨before, p, after, split, rfl, last⟩ := exists_last (List.mem_eraseDups.mp member)
    rw [split] at each ⊢
    obtain ⟨o, found, option⟩ := exists_option each normalized last
    exact ⟨p, o, getLast?_filter_of_last last, found, option⟩
  case body =>
    intro name member fresh
    rw [← body] at member
    obtain ⟨⟨key, field⟩, stored, same⟩ := List.mem_map.mp member
    obtain rfl : key = name := same
    have distinct := nodup_keys_all own parts.flatten
    have unshadowed :
        (key, field) ∈ Inputs.all ⟨Entries.ofPairs own, Entries.ofPairs parts.flatten⟩ := by
      refine List.mem_append_right _ (List.mem_filter.mpr ⟨stored, ?_⟩)
      simpa [Entries.has_eq, names] using fresh
    obtain ⟨o, found, option⟩ :=
      exists_of_normalized normalized (Entries.lookup_of_mem distinct unshadowed)
    rw [← CollisionPolicy.collect_overwrite] at stored
    exact ⟨field, o, CollisionPolicy.winner_of_mem_collect stored, found, option⟩

/-! ### Headers -/

theorem values_merge_filter (keep : String × Location → Bool) (given : List Parameter) :
    Entries.values (merge (given.filter fun p => keep p.place)) =
      (Entries.values (merge given)).filter fun p => keep p.place := by
  have pairs : (given.filter fun p => keep p.place).map (fun p => (p.place, p)) =
      (given.map fun p => (p.place, p)).filter fun entry => keep entry.1 := by
    rw [List.filter_map]
    rfl
  rw [merge, pairs, ← Entries.filter_ofPairs, Entries.values, Entries.values, List.filter_map]
  congr 1
  refine List.filter_congr fun entry member => ?_
  rw [Function.comp, place_of_mem_merge member]

def noHeader (place : String × Location) : Bool := !decide (place.2 = .header)

theorem isHeader_eq (stands : StandsFor d shared p) : (!isHeader d shared) = noHeader p.place := by
  rw [isHeader, parameter_eq_ok_iff.mpr stands]
  rfl

theorem parametersOf_withoutHeaders (resolved : parametersOf d e = .ok merged) :
    parametersOf d (e.withoutHeaders d) = .ok (merged.filter fun p => noHeader p.place) := by
  obtain ⟨given, stand, rfl⟩ := exists_given resolved
  refine parametersOf_eq_ok_iff.mpr
    ⟨given.filter fun p => noHeader p.place, ?_, values_merge_filter noHeader given⟩
  have kept : (e.withoutHeaders d).item.parameters ++ (e.withoutHeaders d).operation.parameters =
      (e.item.parameters ++ e.operation.parameters).filter (!isHeader d ·) :=
    (List.filter_append ..).symm
  rw [kept, Pass.mapM_eq_ok_iff]
  refine (List.rel_filter (R := StandsFor d) ?_ stand).imp fun _ _ => parameter_eq_ok_iff.mpr
  intro shared p stands
  exact Bool.eq_iff_iff.mp (isHeader_eq stands)

theorem add_of_header (header : noHeader p.place = false) (inputs : Inputs) :
    inputs.add d p = .ok inputs := by
  have location : p.location = .header := by
    have isHeader : p.place.2 = .header := by simpa [noHeader] using header
    exact isHeader
  simp only [Inputs.add, location]

/-- An operation is described as it is without its headers. -/
theorem describe_withoutHeaders (built : describe d n e = .ok a) :
    describe d n (e.withoutHeaders d) = .ok a := by
  obtain ⟨merged, inputs, options, type, resolved, added, normalized, answers, rfl⟩ :=
    describe_eq_ok_iff.mp built
  refine describe_eq_ok_iff.mpr ⟨_, inputs, options, type, parametersOf_withoutHeaders resolved, ?_,
    normalized, answers, rfl⟩
  rw [Pass.foldlM_filter fun inputs p _ header => add_of_header header inputs]
  exact added

/-- The options of an action are those of its parameters and of its bodies. Of a body no field is
lost but those that are reported, none takes the place of a parameter, and headers have no part in
any of it. -/
theorem body_fields_are_kept_or_reported (d : Document) (n : Normalizer) (e : Endpoint)
    (a : Descriptor) (built : describe d n e = .ok a) :
    ∃ given merged parts,
      List.Forall₂ (StandsFor d) (e.item.parameters ++ e.operation.parameters) given ∧
      parametersOf d e = .ok merged ∧ Merges given merged ∧
      List.Forall₂ (GivesBody d) (merged.filter (·.location = .body)) parts ∧
      KeepsFields d (n.within a.name) merged parts a ∧
      describe d n (e.withoutHeaders d) = .ok a := by
  have headless := describe_withoutHeaders built
  obtain ⟨merged, inputs, options, type, resolved, added, normalized, -, rfl⟩ :=
    describe_eq_ok_iff.mp built
  obtain ⟨given, stand, rfl⟩ := exists_given resolved
  obtain ⟨own, parts, each, bodies, rfl⟩ := exists_of_foldlM added
  exact ⟨given, _, parts, stand, resolved, merges_merge given, bodies,
    keepsFields each rfl (forall₂_of_normalizeFields normalized), headless⟩

def noteBody : Parameter where
  name := "note"
  location := .body
  schema := some {
    type := some "object"
    properties := [("text", { type := some "string" }), ("id", { type := some "string" })] }

def notes : Document where
  parameters := [("Trace", { name := "X-Trace", location := .header, type := some "string" }),
    ("Limit", limitInQuery)]

/-- The path declares a parameter that the operation declares again, and a shared header. -/
def noteById : Endpoint where
  path := "/notes/{id}"
  item := { parameters := [.inline idInPath, .pointer "#/parameters/Trace"] }
  method := .put
  operation := {
    parameters := [.inline noteBody, .pointer "#/parameters/Limit",
      .inline { idInPath with type := some "string" }] }

def noteAction : Descriptor where
  name := "put_notes_id"
  path := "/notes/{id}"
  method := .put
  options := [labelled "id" "Id" .string true, labelled "limit" "Limit" .int false,
    labelled "text" "Text" .string false]
  shadowed := ["id"]

theorem typeOf_noteBody : notes.typeOf noteBody.valueSchema =
    .ok (.fields [("text", { type := .named "string" }), ("id", { type := .named "string" })]) := by
  have text : notes.convert [] { type := some "string" } = .ok (.named "string") := by
    rw [Document.convert_node rfl]
    rfl
  rw [Document.typeOf, Document.convert_node rfl]
  simp only [Schema.describeWith, Schema.plainWith, Schema.fieldsWith, noteBody,
    Parameter.valueSchema, List.mapM_cons, Schema.fieldWith, text]
  rfl

theorem describe_noteById : describe notes {} noteById = .ok noteAction := by
  let id : Parameter := { idInPath with type := some "string" }
  let trace : Parameter := { name := "X-Trace", location := .header, type := some "string" }
  let idField : FieldDescription := { type := .named "string", required := true }
  let limitField : FieldDescription := { type := .named "int" }
  let textField : FieldDescription := { type := .named "string" }
  have merged : parametersOf notes noteById = .ok [id, trace, noteBody, limitInQuery] := rfl
  have integer := typeOf_integer notes (p := limitInQuery) rfl
  have string := typeOf_string notes (p := id) rfl
  have added : [id, trace, noteBody, limitInQuery].foldlM (Inputs.add notes) {} = .ok {
      fields := [("id", idField), ("limit", limitField)]
      body := [("text", textField), ("id", textField)] } := by
    simp only [List.foldlM_cons, Inputs.add, Document.objectFields, parameterField,
      Document.fieldOf, integer, string, typeOf_noteBody]
    rfl
  exact describe_eq_ok_iff.mpr ⟨_, _, _, none, merged, added, rfl, rfl, rfl⟩

/-- The field of a body that has the name of a parameter in the path. -/
theorem note_fields_are_kept_or_reported :
    describe notes {} noteById = .ok noteAction ∧ ∃ given merged parts,
      List.Forall₂ (StandsFor notes) (noteById.item.parameters ++ noteById.operation.parameters)
        given ∧
      parametersOf notes noteById = .ok merged ∧ Merges given merged ∧
      List.Forall₂ (GivesBody notes) (merged.filter (·.location = .body)) parts ∧
      KeepsFields notes (Normalizer.within {} noteAction.name) merged parts noteAction ∧
      describe notes {} (noteById.withoutHeaders notes) = .ok noteAction :=
  ⟨describe_noteById,
    body_fields_are_kept_or_reported notes {} noteById noteAction describe_noteById⟩

end ActionCatalogue.Swagger
