import ActionCatalogue.Proofs.OperationReferences
import ActionCatalogue.Proofs.LenientBuild

/-!
What an allow-list does to a build: nothing but to restrict the document. The build visits the
operations of the document that has the listed paths alone, and describes them as they are described
in the whole document, since descriptions look at no path. The order of the list and what it repeats
make no difference, and its entries that are no paths are reported.
-/

namespace ActionCatalogue.Swagger

/-- A document with no other paths than those of a list. -/
def Document.restrictedTo (d : Document) (paths : List String) : Document :=
  { d with paths := d.paths.filter fun entry => entry.1 ∈ paths }

/-- Two builds that have the same actions, skip the same operations for the same reasons and find
the same names taken, and whose strict builds have the same result, be it actions or an error. -/
structure SameBuild (d : Document) (s : Settings) (other : Document) (t : Settings) : Prop where
  actions : (build d s).actions = (build other t).actions
  skipped : (build d s).skipped = (build other t).skipped
  collisions : (build d s).collisions = (build other t).collisions
  strict : buildStrict d s = buildStrict other t

def Settings.unlimited (s : Settings) : Settings := { s with allowedPaths := [] }

namespace Settings

variable (s : Settings)

theorem unlimited_allows (path : String) : s.unlimited.allows path = true := rfl

theorem allows_eq_mem (filled : s.allowedPaths ≠ []) (path : String) :
    s.allows path = decide (path ∈ s.allowedPaths) := by
  simp [allows, filled]

end Settings

variable (d : Document) (s : Settings) (ops : List Endpoint)

theorem describe_restrictedTo (paths : List String) (n : Normalizer) (e : Endpoint) :
    describe (d.restrictedTo paths) n e = describe d n e :=
  SameReferences.describe ⟨fun _ _ => rfl, fun _ _ => rfl, fun _ _ => rfl⟩

theorem visited_restrictedTo (filled : s.allowedPaths ≠ []) :
    visited (d.restrictedTo s.allowedPaths) s.unlimited = visited d s := by
  simp only [visited, Document.restrictedTo, s.unlimited_allows, s.allows_eq_mem filled,
    List.filter_true]

theorem restrictedTo_congr {paths others : List String}
    (same : ∀ path, path ∈ others ↔ path ∈ paths) :
    d.restrictedTo others = d.restrictedTo paths := by
  simp only [Document.restrictedTo, same]

/-! ### The two builds -/

/-- What is missing has no part in what becomes of an operation. -/
theorem Outcome.add_missingPaths (policy : CollisionPolicy) (o : Outcome) (e : Endpoint)
    (described : Except SwaggerError Descriptor) (paths : List String) :
    ({ o with missingPaths := paths } : Outcome).add policy e described =
      { o.add policy e described with missingPaths := paths } := by
  cases described with
  | error error => rfl
  | ok a => rw [add_ok, add_ok]

theorem outcomeOf_restrictedTo : outcomeOf d s ops =
    { outcomeOf (d.restrictedTo s.allowedPaths) s.unlimited ops with
      missingPaths := s.allowedPaths.filter (· ∉ Entries.keys d.paths) } := by
  induction ops using List.reverseRecOn with
  | nil => simp [outcomeOf, Entries.has_eq, Settings.unlimited]
  | append_singleton ops e ih =>
    rw [outcomeOf_concat, outcomeOf_concat, ih, Outcome.add_missingPaths, describe_restrictedTo]
    rfl

theorem build_restrictedTo (filled : s.allowedPaths ≠ []) : build d s =
    { build (d.restrictedTo s.allowedPaths) s.unlimited with
      missingPaths := s.allowedPaths.filter (· ∉ Entries.keys d.paths) } := by
  rw [build_eq_outcomeOf, build_eq_outcomeOf, visited_restrictedTo d s filled,
    outcomeOf_restrictedTo]

theorem buildStrict_restrictedTo (filled : s.allowedPaths ≠ []) :
    buildStrict d s = buildStrict (d.restrictedTo s.allowedPaths) s.unlimited := by
  unfold buildStrict
  rw [offered_eq_visited, offered_eq_visited, visited_restrictedTo d s filled]
  simp only [describe_restrictedTo]
  rfl

theorem sameBuild_restrictedTo (filled : s.allowedPaths ≠ []) :
    SameBuild d s (d.restrictedTo s.allowedPaths) s.unlimited := by
  have lenient := build_restrictedTo d s filled
  constructor
  case actions =>
    rw [lenient]
    rfl
  case skipped => rw [lenient]
  case collisions => rw [lenient]
  case strict => exact buildStrict_restrictedTo d s filled

/-- A build with an allow-list is the build without one of the document restricted to the listed
paths. Only which paths are listed counts, and those that the document lacks are missing. -/
theorem allow_list_restricts (d : Document) (s : Settings) (filled : s.allowedPaths ≠ []) :
    SameBuild d s (d.restrictedTo s.allowedPaths) s.unlimited ∧
    (∀ others : List String, (∀ path, path ∈ others ↔ path ∈ s.allowedPaths) →
      SameBuild d s d { s with allowedPaths := others }) ∧
    (build d s).missingPaths = s.allowedPaths.filter (· ∉ Entries.keys d.paths) := by
  have restricted := sameBuild_restrictedTo d s filled
  refine ⟨restricted, fun others same => ?_, ?_⟩
  · have also : others ≠ [] := by
      rintro rfl
      obtain ⟨path, rest, listed⟩ := List.exists_cons_of_ne_nil filled
      simpa [listed] using same path
    have rearranged := sameBuild_restrictedTo d { s with allowedPaths := others } also
    rw [restrictedTo_congr d same] at rearranged
    exact ⟨restricted.actions.trans rearranged.actions.symm,
      restricted.skipped.trans rearranged.skipped.symm,
      restricted.collisions.trans rearranged.collisions.symm,
      restricted.strict.trans rearranged.strict.symm⟩
  · rw [build_restrictedTo d s filled]

/-- Two paths with operations of one name, and one whose operation cannot be described. -/
def aviary : Document where
  paths := [("/cats", { get := some { id := some "list" } }),
    ("/dogs", { get := some { id := some "list" } }),
    ("/birds", { get := some { parameters := [.pointer "#/parameters/None"] } })]

/-- The name that collides in the whole document is free in the restricted one. -/
theorem aviary_is_restricted :
    let s : Settings := { allowedPaths := ["/dogs", "/fish", "/dogs", "/birds"], policy := .reject }
    let t : Settings := { s with allowedPaths := ["/birds", "/fish", "/dogs"] }
    s.allowedPaths ≠ [] ∧ (∀ path, path ∈ t.allowedPaths ↔ path ∈ s.allowedPaths) ∧
      SameBuild aviary s (aviary.restrictedTo s.allowedPaths) s.unlimited ∧
      SameBuild aviary s aviary t ∧ (build aviary s).missingPaths = ["/fish"] ∧
      (build aviary s).collisions = [] ∧ (build aviary {}).collisions = ["list"] := by
  intro s t
  have filled : s.allowedPaths ≠ [] := by simp [s]
  have same : ∀ path, path ∈ t.allowedPaths ↔ path ∈ s.allowedPaths := by
    intro path
    simp only [s, t, List.mem_cons, List.not_mem_nil]
    grind
  obtain ⟨restricted, rearranged, missing⟩ := allow_list_restricts aviary s filled
  exact ⟨filled, same, restricted, rearranged _ same, missing, rfl, rfl⟩

end ActionCatalogue.Swagger
