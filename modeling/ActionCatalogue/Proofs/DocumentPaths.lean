import ActionCatalogue.Proofs.LenientBuild
import ActionCatalogue.Proofs.RecordReading
import ActionCatalogue.Swagger.Source

/-!
The paths of a document. A document that was read has no path twice, so each of its endpoints is the
one that its path and its method lead to.
-/

namespace ActionCatalogue

/-! ### Fields of any record -/

namespace Node

variable {α : Type}

theorem nodup_keys_of_asMapOf {n : Node} {read : Node → Reading α} {entries : Entries α}
    (success : n.asMapOf read = .ok entries) : (Entries.keys entries).Nodup := by
  unfold asMapOf asMapOfParts at success
  split at success
  · cases success
  · obtain ⟨pairs, -, success⟩ := exists_of_bind_eq_ok success
    cases success
    exact Entries.nodup_keys_ofPairs pairs

end Node

namespace Record

variable {α : Type} {n : Node}

theorem exists_give {names : List String} {fields : Record n → Fields α} {a : α}
    (success : n.asRecord names fields = .ok a) : ∃ r, (fields r).Give a := by
  obtain ⟨r, -, success⟩ := exists_of_bind_eq_ok success
  refine ⟨r, ?_⟩
  unfold finish at success
  split at success
  next given =>
    split at success
    · cases success
    · cases success
      exact given
  next => split at success <;> cases success

theorem eq_default_or_read {r : Record n} {name : String} {default a : α}
    {read : Node → Reading α} (give : (r.orDefault name default read).Give a) :
    a = default ∨ ∃ v, read v = .ok a := by
  obtain ⟨found, part, rfl⟩ := Fields.give_map.mp give
  unfold Fields.Give part? at part
  split at part
  · cases part
    exact .inl rfl
  next v _ _ _ _ =>
    split at part
    · cases part
    next success =>
      split at part
      · cases part
        exact .inr ⟨v, success⟩
      · cases part

end Record

namespace Swagger

/-! ### Paths -/

namespace Document

variable {d : Document}

theorem nodup_paths_of_ofNode {n : Node} (read : ofNode n = .ok d) :
    (Entries.keys d.paths).Nodup := by
  obtain ⟨r, given⟩ := Record.exists_give read
  simp only [Fields.give_seq, Fields.give_map] at given
  obtain ⟨_, ⟨_, ⟨_, ⟨_, ⟨_, ⟨_, ⟨_, ⟨_, ⟨_, -, rfl⟩, _, -, rfl⟩, _, -, rfl⟩, _, -, rfl⟩, _, -,
    rfl⟩, paths, given, rfl⟩, _, -, rfl⟩, _, -, rfl⟩, _, -, rfl⟩ := given
  rcases Record.eq_default_or_read given with rfl | ⟨v, found⟩
  · exact List.nodup_nil
  · exact Node.nodup_keys_of_asMapOf found

/-- A document that is accepted was read from a node. -/
theorem exists_ofNode {reading : Reading Node} {fault : Refusal → SwaggerError}
    (accepted : (match reading.bind ofNode with
      | .ok read => read.supported
      | .error refusal => .error (fault refusal)) = .ok d) : ∃ n, ofNode n = .ok d := by
  split at accepted
  next read success =>
    obtain ⟨n, -, found⟩ := exists_of_bind_eq_ok success
    unfold supported at accepted
    split at accepted
    · cases accepted
      exact ⟨n, found⟩
    · cases accepted
  next => cases accepted

/-- A document that was read from a file has no path twice. -/
theorem nodup_paths_of_ofFile {files : Files} {path : String}
    (read : ofFile files path = .ok d) : (Entries.keys d.paths).Nodup := by
  have found : ∃ n, ofNode n = .ok d := by
    unfold ofFile at read
    split at read
    · cases read
    · split at read
      · exact exists_ofNode read
      · exact exists_ofNode read
  obtain ⟨n, found⟩ := found
  exact nodup_paths_of_ofNode found

end Document

/-! ### Endpoints -/

variable {d : Document} {e : Endpoint}

theorem mem_endpoints_iff : e ∈ d.endpoints ↔
    (e.path, e.item) ∈ d.paths ∧ e.item.operation? e.method = some e.operation := by
  rw [endpoints_eq, List.mem_flatMap]
  constructor
  · rintro ⟨entry, stands, member⟩
    obtain ⟨method, -, found⟩ := List.mem_filterMap.mp member
    obtain ⟨operation, offered, rfl⟩ := Option.map_eq_some_iff.mp found
    exact ⟨stands, offered⟩
  · rintro ⟨stands, offered⟩
    refine ⟨(e.path, e.item), stands, List.mem_filterMap.mpr ⟨e.method, e.method.mem_all, ?_⟩⟩
    rw [offered]
    rfl

theorem mem_endpoints_of_visited {s : Settings} (member : e ∈ visited d s) : e ∈ d.endpoints := by
  rw [← offered_eq_visited] at member
  exact (List.mem_filter.mp member).1

/-- The operation of an endpoint is the one that its path and its method lead to. -/
theorem operation?_of_mem (distinct : (Entries.keys d.paths).Nodup) (member : e ∈ d.endpoints) :
    d.operation? e.path e.method = some e.operation := by
  obtain ⟨stands, offered⟩ := mem_endpoints_iff.mp member
  rw [Document.operation?, Entries.lookup_of_mem distinct stands]
  exact offered

theorem buildOperation_of_mem (distinct : (Entries.keys d.paths).Nodup)
    (member : e ∈ d.endpoints) (n : Normalizer) :
    buildOperation d n e.path e.method = describe d n e := by
  obtain ⟨stands, offered⟩ := mem_endpoints_iff.mp member
  rw [buildOperation, Entries.lookup_of_mem distinct stands]
  simp only [offered]

/-- An action of one operation describes an endpoint with that path and method. -/
theorem exists_of_buildOperation {n : Normalizer} {path : String} {method : Method}
    {a : Descriptor} (built : buildOperation d n path method = .ok a) :
    ∃ e ∈ d.endpoints, e.path = path ∧ e.method = method ∧ describe d n e = .ok a := by
  unfold buildOperation at built
  split at built
  · cases built
  next item found =>
    split at built
    · cases built
    next operation offered =>
      exact ⟨⟨path, item, method, operation⟩,
        mem_endpoints_iff.mpr ⟨Entries.mem_of_lookup found, offered⟩, rfl, rfl, built⟩

theorem buildOperation_absent {path : String} {method : Method}
    (absent : ∀ e ∈ d.endpoints, ¬(e.path = path ∧ e.method = method)) (n : Normalizer) :
    buildOperation d n path method = .error (.operationNotFound path method) := by
  unfold buildOperation
  split
  · rfl
  next item found =>
    split
    · rfl
    next operation offered =>
      have member : ⟨path, item, method, operation⟩ ∈ d.endpoints :=
        mem_endpoints_iff.mpr ⟨Entries.mem_of_lookup found, offered⟩
      exact absurd ⟨rfl, rfl⟩ (absent _ member)

end Swagger

end ActionCatalogue
