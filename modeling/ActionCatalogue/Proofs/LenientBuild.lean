import ActionCatalogue.Proofs.Collision
import ActionCatalogue.Swagger.Derivation

/-!
What becomes of the operations of a document in a lenient build. The operations that can be
described are definitions of actions, which the collision policy settles as they are visited; the
others are skipped and have no part in it. Every operation is accounted for: it is the first of its
name, a collision, or skipped.
-/

namespace ActionCatalogue.Swagger

open CollisionPolicy

/-! ### The operations that are visited -/

def endpointsOn (entry : String × PathItem) : List Endpoint :=
  [Method.get, .put, .post, .delete, .options, .head, .patch].filterMap fun method =>
    (entry.2.operation? method).map fun operation => ⟨entry.1, entry.2, method, operation⟩

/-- The operations on offered paths: path by path as the document has them, then by method. -/
def visited (d : Document) (s : Settings) : List Endpoint :=
  (d.paths.filter fun entry => s.allows entry.1).flatMap endpointsOn

theorem path_of_mem_endpointsOn {entry : String × PathItem} {e : Endpoint}
    (member : e ∈ endpointsOn entry) : e.path = entry.1 := by
  obtain ⟨method, -, found⟩ := List.mem_filterMap.mp member
  obtain ⟨operation, -, rfl⟩ := Option.map_eq_some_iff.mp found
  rfl

theorem endpoints_eq (d : Document) : d.endpoints = d.paths.flatMap endpointsOn := by
  unfold Document.endpoints
  congr 1
  funext entry
  change entry.2.operations.map _ = endpointsOn entry
  unfold endpointsOn PathItem.operations
  rw [List.map_filterMap]
  simp only [Option.map_map]
  rfl

theorem filter_endpointsOn (s : Settings) (entry : String × PathItem) :
    (endpointsOn entry).filter (fun e => s.allows e.path) =
      if s.allows entry.1 then endpointsOn entry else [] := by
  split
  next allowed =>
    apply List.filter_eq_self.mpr
    intro e member
    rw [path_of_mem_endpointsOn member]
    exact allowed
  next refused =>
    apply List.filter_eq_nil_iff.mpr
    intro e member
    rw [path_of_mem_endpointsOn member]
    exact refused

theorem offered_eq_visited (d : Document) (s : Settings) : offered d s = visited d s := by
  rw [offered, endpoints_eq, visited]
  induction d.paths with
  | nil => rfl
  | cons entry rest ih =>
    rw [List.flatMap_cons, List.filter_append, filter_endpointsOn, ih, List.filter_cons]
    split
    · rfl
    · rfl

/-- The name of the action of an operation, whether it can be described or not. -/
def Endpoint.name (e : Endpoint) : String := actionName e.path e.method e.operation

theorem ofData_eq_ok_iff {α : Type} {x : Except DataError α} {found : α} :
    ofData x = .ok found ↔ x = .ok found := by
  cases x <;> simp [ofData]

/-- An action is derived if its parameters can be merged and added, and its options and its response
have types. -/
theorem describe_eq_ok_iff {d : Document} {n : Normalizer} {e : Endpoint} {a : Descriptor} :
    describe d n e = .ok a ↔
    ∃ parameters inputs options type, parametersOf d e = .ok parameters ∧
      parameters.foldlM (Inputs.add d) {} = .ok inputs ∧
      (n.within e.name).normalizeFields inputs.all = .ok options ∧
      responseType d (n.within e.name) e.operation = .ok type ∧
      a = {
        name := e.name
        path := e.path
        method := e.method
        operationId := e.operation.id
        summary := e.operation.summary
        description := e.operation.description
        deprecated := e.operation.deprecated
        options
        responseType := type
        shadowed := inputs.shadowed } := by
  unfold describe
  constructor
  · intro built
    obtain ⟨parameters, merged, built⟩ := exists_of_bind_eq_ok built
    obtain ⟨inputs, added, built⟩ := exists_of_bind_eq_ok built
    obtain ⟨options, normalized, built⟩ := exists_of_bind_eq_ok built
    obtain ⟨type, answered, built⟩ := exists_of_bind_eq_ok built
    cases built
    exact ⟨parameters, inputs, options, type, merged, added, ofData_eq_ok_iff.mp normalized,
      answered, rfl⟩
  · rintro ⟨parameters, inputs, options, type, merged, added, normalized, answered, rfl⟩
    simp only [Endpoint.name] at normalized answered
    simp only [merged, added, normalized, answered, ofData, bind, Except.bind]
    rfl

theorem describe_name {d : Document} {n : Normalizer} {e : Endpoint} {a : Descriptor}
    (described : describe d n e = .ok a) : a.name = e.name := by
  obtain ⟨parameters, inputs, options, type, -, -, -, -, rfl⟩ := describe_eq_ok_iff.mp described
  rfl

/-! ### One operation -/

namespace Outcome

variable (policy : CollisionPolicy) (o : Outcome) (e : Endpoint)

/-- The policy settles the action of an operation. A taken name is a collision, and a reason to skip
the operation where the first definition stays. -/
theorem add_ok (a : Descriptor) : o.add policy e (.ok a) =
    { o with
      built := policy.settle a.name a o.built
      skipped := if a.name ∈ Entries.keys o.built ∧ policy = .reject then
          o.skipped ++ [⟨e.path, e.method, a.name, Skipped.duplicateReason a.name⟩]
        else o.skipped
      collisions := if a.name ∈ Entries.keys o.built then o.collisions ++ [a.name]
        else o.collisions } := by
  have known : Entries.has a.name o.built ↔ a.name ∈ Entries.keys o.built := by
    rw [Entries.has_eq, decide_eq_true_iff]
  by_cases taken : a.name ∈ Entries.keys o.built
  · rw [if_pos taken]
    cases policy with
    | overwrite =>
      rw [settle_kept (by simp), if_neg (by simp)]
      exact if_pos (known.mpr taken)
    | reject =>
      rw [settle_dropped ⟨taken, rfl⟩, if_pos ⟨taken, rfl⟩]
      exact if_pos (known.mpr taken)
  · rw [settle_kept (mt And.left taken), if_neg taken, if_neg (mt And.left taken)]
    exact if_neg (mt known.mp taken)

/-- What an outcome accounts for. A definition that is dropped counts as skipped, one that is
replaced as a collision. -/
def total : Nat :=
  o.built.length + o.skipped.length + match policy with
    | .overwrite => o.collisions.length
    | .reject => 0

/-- An operation that is taken in is accounted for once. -/
theorem total_add (described : Except SwaggerError Descriptor) :
    (o.add policy e described).total policy = o.total policy + 1 := by
  cases described with
  | error error =>
    simp only [add, skip, total, List.length_append, List.length_singleton]
    omega
  | ok a =>
    rw [add_ok]
    by_cases dropped : a.name ∈ Entries.keys o.built ∧ policy = .reject
    · obtain ⟨taken, rfl⟩ := dropped
      rw [settle_dropped ⟨taken, rfl⟩, if_pos ⟨taken, rfl⟩]
      simp only [total, List.length_append, List.length_singleton]
      omega
    · rw [settle_kept dropped, if_neg dropped]
      by_cases taken : a.name ∈ Entries.keys o.built
      · have overwrites : policy = .overwrite := by
          cases policy with
          | overwrite => rfl
          | reject => exact absurd ⟨taken, rfl⟩ dropped
        subst overwrites
        simp only [total, Entries.length_put, if_pos taken, List.length_append,
          List.length_singleton]
        omega
      · simp only [total, Entries.length_put, if_neg taken]
        omega

end Outcome

/-! ### All operations -/

section Runs

variable (d : Document) (s : Settings) (ops : List Endpoint) (e : Endpoint)

def succeeding : List Endpoint :=
  ops.filter fun e => (describe d s.normalizer e).isOk

/-- The actions that operations are described by, under their names. -/
def definitions : Entries Descriptor :=
  ops.filterMap fun e => (describe d s.normalizer e).toOption.map fun a => (a.name, a)

/-- Why an operation is left out, if it is: it cannot be described, or its name is taken by an
earlier one and the first definition stays. -/
def leftOut (earlier : List Endpoint) (e : Endpoint) : Option Skipped :=
  match describe d s.normalizer e with
  | .error error => some ⟨e.path, e.method, e.name, error.message⟩
  | .ok _ =>
    if e.name ∈ (succeeding d s earlier).map Endpoint.name ∧ s.policy = .reject then
      some ⟨e.path, e.method, e.name, Skipped.duplicateReason e.name⟩
    else none

/-- The outcome of a lenient build that visits some operations. -/
def outcomeOf : Outcome :=
  ops.foldl (fun o e => o.add s.policy e (describe d s.normalizer e))
    { missingPaths := s.allowedPaths.filter fun path => !Entries.has path d.paths }

theorem build_eq_outcomeOf : build d s = outcomeOf d s (visited d s) := by
  rw [← offered_eq_visited]
  rfl

theorem outcomeOf_concat : outcomeOf d s (ops ++ [e]) =
    (outcomeOf d s ops).add s.policy e (describe d s.normalizer e) := by
  rw [outcomeOf, List.foldl_append]
  rfl

variable {d s e}

theorem succeeding_concat_error {error : SwaggerError}
    (failed : describe d s.normalizer e = .error error) :
    succeeding d s (ops ++ [e]) = succeeding d s ops := by
  simp [succeeding, failed, Except.isOk, Except.toBool]

theorem succeeding_concat_ok {a : Descriptor} (described : describe d s.normalizer e = .ok a) :
    succeeding d s (ops ++ [e]) = succeeding d s ops ++ [e] := by
  simp [succeeding, described, Except.isOk, Except.toBool]

theorem definitions_concat_error {error : SwaggerError}
    (failed : describe d s.normalizer e = .error error) :
    definitions d s (ops ++ [e]) = definitions d s ops := by
  simp [definitions, failed, Except.toOption]

theorem definitions_concat_ok {a : Descriptor} (described : describe d s.normalizer e = .ok a) :
    definitions d s (ops ++ [e]) = definitions d s ops ++ [(a.name, a)] := by
  simp [definitions, described, Except.toOption]

variable (d s)

theorem keys_definitions :
    Entries.keys (definitions d s ops) = (succeeding d s ops).map Endpoint.name := by
  induction ops using List.reverseRecOn with
  | nil => rfl
  | append_singleton ops e ih =>
    cases described : describe d s.normalizer e with
    | error error =>
      rw [definitions_concat_error ops described, succeeding_concat_error ops described, ih]
    | ok a =>
      rw [definitions_concat_ok ops described, succeeding_concat_ok ops described,
        Entries.keys_concat, ih, describe_name described, List.map_append]
      rfl

theorem values_definitions (name : String) :
    (Entries.values ((definitions d s ops).filter (·.1 = name))).map Except.ok =
      ((succeeding d s ops).filter (·.name = name)).map (describe d s.normalizer) := by
  induction ops using List.reverseRecOn with
  | nil => rfl
  | append_singleton ops e ih =>
    cases described : describe d s.normalizer e with
    | error error =>
      rw [definitions_concat_error ops described, succeeding_concat_error ops described, ih]
    | ok a =>
      rw [definitions_concat_ok ops described, succeeding_concat_ok ops described,
        List.filter_append, List.filter_append, List.map_append, ← ih]
      by_cases same : a.name = name
      · simp [Entries.values, same, described, ← describe_name described]
      · simp [Entries.values, same, ← describe_name described]

theorem built_outcomeOf :
    (outcomeOf d s ops).built = s.policy.collect (definitions d s ops) := by
  induction ops using List.reverseRecOn with
  | nil => rfl
  | append_singleton ops e ih =>
    rw [outcomeOf_concat]
    cases described : describe d s.normalizer e with
    | error error =>
      rw [definitions_concat_error ops described, ← ih]
      rfl
    | ok a =>
      rw [definitions_concat_ok ops described, collect_concat, ← ih, Outcome.add_ok]

theorem mem_keys_built (name : String) : name ∈ Entries.keys (outcomeOf d s ops).built ↔
    name ∈ (succeeding d s ops).map Endpoint.name := by
  rw [built_outcomeOf, mem_keys_collect, keys_definitions]

theorem collisions_outcomeOf :
    (outcomeOf d s ops).collisions = repeated ((succeeding d s ops).map Endpoint.name) := by
  induction ops using List.reverseRecOn with
  | nil => rfl
  | append_singleton ops e ih =>
    rw [outcomeOf_concat]
    cases described : describe d s.normalizer e with
    | error error =>
      rw [succeeding_concat_error ops described, ← ih]
      rfl
    | ok a =>
      rw [succeeding_concat_ok ops described, List.map_append, List.map_singleton,
        repeated_concat, Outcome.add_ok, ih, describe_name described]
      simp only [mem_keys_built]

theorem skipped_outcomeOf : (outcomeOf d s ops).skipped =
    (withEarlier ops).filterMap fun (earlier, e) => leftOut d s earlier e := by
  induction ops using List.reverseRecOn with
  | nil => rfl
  | append_singleton ops e ih =>
    rw [outcomeOf_concat, withEarlier_concat, List.filterMap_append, ← ih]
    cases described : describe d s.normalizer e with
    | error error => simp [leftOut, described, Outcome.add, Outcome.skip, Endpoint.name]
    | ok a =>
      rw [Outcome.add_ok, describe_name described]
      simp only [mem_keys_built]
      split
      next dropped =>
        have reported : leftOut d s ops e =
            some ⟨e.path, e.method, e.name, Skipped.duplicateReason e.name⟩ := by
          rw [leftOut, described]
          exact if_pos dropped
        simp [reported]
      next kept =>
        have unreported : leftOut d s ops e = none := by
          rw [leftOut, described]
          exact if_neg kept
        simp [unreported]

theorem total_outcomeOf : (outcomeOf d s ops).total s.policy = ops.length := by
  induction ops using List.reverseRecOn with
  | nil => cases policy : s.policy <;> rfl
  | append_singleton ops e ih =>
    rw [outcomeOf_concat, Outcome.total_add, ih, List.length_append, List.length_singleton]

theorem name_of_mem_built {name : String} {a : Descriptor}
    (member : (name, a) ∈ (outcomeOf d s ops).built) : name = a.name := by
  rw [built_outcomeOf] at member
  obtain ⟨e, -, found⟩ := List.mem_filterMap.mp (mem_of_mem_collect member)
  obtain ⟨described, -, pair⟩ := Option.map_eq_some_iff.mp found
  cases pair
  rfl

theorem names_outcomeOf :
    (outcomeOf d s ops).actions.map (·.name) = Entries.keys (outcomeOf d s ops).built := by
  rw [Outcome.actions, Entries.values, List.map_map]
  apply List.map_congr_left
  intro pair member
  exact (name_of_mem_built d s ops member).symm

theorem kept_outcomeOf {a : Descriptor} (member : a ∈ (outcomeOf d s ops).actions) :
    ∃ e, s.policy.winner? ((succeeding d s ops).filter (·.name = a.name)) = some e ∧
      describe d s.normalizer e = .ok a := by
  obtain ⟨pair, stored, rfl⟩ := List.mem_map.mp member
  have name : pair.1 = pair.2.name := name_of_mem_built d s ops stored
  rw [built_outcomeOf] at stored
  have won := winner_of_mem_collect stored
  rw [name] at won
  have described := congrArg (Option.map (Except.ok (ε := SwaggerError))) won
  rw [← winner_map, values_definitions, winner_map] at described
  exact Option.map_eq_some_iff.mp described

theorem definitions_succeeding :
    definitions d s (succeeding d s ops) = definitions d s ops := by
  rw [definitions, succeeding, List.filterMap_filter]
  congr 1
  funext e
  cases describe d s.normalizer e <;> rfl

theorem succeeding_succeeding :
    succeeding d s (succeeding d s ops) = succeeding d s ops := by
  simp [succeeding]

/-- What becomes of visited operations in an outcome. -/
structure Accounted (o : Outcome) : Prop where
  /-- The names are those of the operations that can be described, each where it is first. -/
  names : o.actions.map (·.name) = ((succeeding d s ops).map Endpoint.name).eraseDups
  distinct : (o.actions.map (·.name)).Nodup
  /-- An action describes the last operation of its name, or the first one. -/
  kept : ∀ a ∈ o.actions, ∃ e,
    s.policy.winner? ((succeeding d s ops).filter (·.name = a.name)) = some e ∧
      describe d s.normalizer e = .ok a
  collisions : o.collisions = repeated ((succeeding d s ops).map Endpoint.name)
  skipped : o.skipped = (withEarlier ops).filterMap fun (earlier, e) => leftOut d s earlier e
  /-- Operations that cannot be described make no difference to the others. -/
  undisturbed : o.actions = (outcomeOf d s (succeeding d s ops)).actions ∧
    o.collisions = (outcomeOf d s (succeeding d s ops)).collisions
  total : ops.length = o.actions.length + o.skipped.length + match s.policy with
    | .overwrite => o.collisions.length
    | .reject => 0

/-- No operation is lost by a lenient build. -/
theorem build_accounts : Accounted d s (visited d s) (build d s) := by
  rw [build_eq_outcomeOf]
  have names : (outcomeOf d s (visited d s)).actions.map (·.name) =
      ((succeeding d s (visited d s)).map Endpoint.name).eraseDups := by
    rw [names_outcomeOf, built_outcomeOf, keys_collect, keys_definitions]
  constructor
  case names => exact names
  case distinct =>
    rw [names]
    exact nodup_eraseDups _
  case kept =>
    intro a member
    exact kept_outcomeOf d s _ member
  case collisions => exact collisions_outcomeOf d s _
  case skipped => exact skipped_outcomeOf d s _
  case undisturbed =>
    rw [Outcome.actions, Outcome.actions, built_outcomeOf, built_outcomeOf,
      definitions_succeeding, collisions_outcomeOf, collisions_outcomeOf, succeeding_succeeding]
    exact ⟨rfl, rfl⟩
  case total =>
    rw [← total_outcomeOf d s (visited d s), Outcome.actions, Entries.values, List.length_map]
    rfl

end Runs

end ActionCatalogue.Swagger
