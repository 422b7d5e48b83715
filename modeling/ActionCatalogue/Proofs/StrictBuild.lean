import ActionCatalogue.Proofs.LenientBuild

/-!
A strict build next to a lenient one. Both visit the same operations. As long as the lenient build
has skipped nothing the two have built the same; at the first operation that it skips the strict
build stops, with the error whose message is the reason for skipping, and what the lenient build
visits later stands behind that reason.
-/

namespace ActionCatalogue.Swagger

/-- A strict build that has come as far as a lenient one: the same is built and nothing skipped, or
the error is the reason why an operation was the first to be skipped. -/
def Agrees (strict : Except SwaggerError (Entries Descriptor)) (o : Outcome) : Prop :=
  match strict with
  | .ok built => o.skipped = [] ∧ o.built = built
  | .error error => ∃ first rest, o.skipped = first :: rest ∧ first.reason = error.message

def strictStep (d : Document) (s : Settings) (built : Entries Descriptor) (e : Endpoint) :
    Except SwaggerError (Entries Descriptor) := do
  addStrict s.policy built (← describe d s.normalizer e)

namespace Outcome

variable (policy : CollisionPolicy) (o : Outcome) (e : Endpoint)

theorem prefix_skipped_add (described : Except SwaggerError Descriptor) :
    o.skipped <+: (o.add policy e described).skipped := by
  cases described with
  | error error => exact List.prefix_append _ _
  | ok a =>
    rw [add_ok]
    dsimp only
    split
    · exact List.prefix_append _ _
    · exact List.prefix_refl _

end Outcome

variable {d : Document} {s : Settings} {o : Outcome} {e : Endpoint}

theorem Agrees.after_error {error : SwaggerError} (agrees : Agrees (.error error) o)
    (described : Except SwaggerError Descriptor) :
    Agrees (.error error) (o.add s.policy e described) := by
  obtain ⟨first, rest, skipped, reason⟩ := agrees
  obtain ⟨more, extended⟩ := o.prefix_skipped_add s.policy e described
  refine ⟨first, rest ++ more, ?_, reason⟩
  rw [← extended, skipped]
  rfl

/-- The error of a taken name and the reason for skipping its operation read the same. -/
theorem message_duplicateAction (name : String) :
    (SwaggerError.duplicateAction name).message = Skipped.duplicateReason name := rfl

/-- The two builds keep step while nothing is skipped. -/
theorem Agrees.step {built : Entries Descriptor} (agrees : Agrees (.ok built) o) :
    Agrees (strictStep d s built e) (o.add s.policy e (describe d s.normalizer e)) := by
  obtain ⟨unskipped, rfl⟩ := agrees
  unfold strictStep
  cases described : describe d s.normalizer e with
  | error error =>
    refine ⟨⟨e.path, e.method, e.name, error.message⟩, [], ?_, rfl⟩
    change o.skipped ++ _ = _
    rw [unskipped]
    rfl
  | ok a =>
    change Agrees (addStrict s.policy o.built a) _
    unfold addStrict
    split
    next stops =>
      rw [Bool.and_eq_true, Entries.has_eq, decide_eq_true_iff, decide_eq_true_iff] at stops
      refine ⟨⟨e.path, e.method, a.name, Skipped.duplicateReason a.name⟩, [], ?_,
        (message_duplicateAction a.name).symm⟩
      rw [Outcome.add_ok, if_pos stops, unskipped]
      rfl
    next goes =>
      rw [Bool.and_eq_true, Entries.has_eq, decide_eq_true_iff, decide_eq_true_iff] at goes
      rw [Outcome.add_ok, if_neg goes, CollisionPolicy.settle_kept goes]
      exact ⟨unskipped, rfl⟩

theorem agrees_run (d : Document) (s : Settings) (ops : List Endpoint) :
    Agrees (ops.foldlM (strictStep d s) []) (outcomeOf d s ops) := by
  induction ops using List.reverseRecOn with
  | nil => exact ⟨rfl, rfl⟩
  | append_singleton ops e ih =>
    rw [List.foldlM_append, outcomeOf_concat]
    cases strict : ops.foldlM (strictStep d s) [] with
    | error error =>
      rw [strict] at ih
      exact ih.after_error _
    | ok built =>
      rw [strict] at ih
      change Agrees ([e].foldlM (strictStep d s) built) _
      rw [List.foldlM_cons]
      have last : (strictStep d s built e >>= fun after => [].foldlM (strictStep d s) after) =
          strictStep d s built e := bind_pure _
      rw [last]
      exact ih.step

theorem agrees_build (d : Document) (s : Settings) :
    Agrees ((offered d s).foldlM (strictStep d s) []) (build d s) :=
  agrees_run d s (offered d s)

/-- A strict build succeeds where a lenient one skips nothing, with the same actions, and fails with
the reason why the lenient one skips the first operation it skips. -/
theorem strict_agrees_with_lenient (d : Document) (s : Settings) :
    (∀ actions, buildStrict d s = .ok actions ↔
      (build d s).skipped = [] ∧ (build d s).actions = actions) ∧
    ∀ error, buildStrict d s = .error error →
      ∃ first rest, (build d s).skipped = first :: rest ∧ first.reason = error.message := by
  have agrees := agrees_build d s
  have result : buildStrict d s =
      Entries.values <$> (offered d s).foldlM (strictStep d s) [] := rfl
  rw [result]
  cases strict : (offered d s).foldlM (strictStep d s) [] with
  | ok built =>
    rw [strict] at agrees
    obtain ⟨unskipped, rfl⟩ := agrees
    constructor
    · intro actions
      constructor
      · intro succeeds
        cases succeeds
        exact ⟨unskipped, rfl⟩
      · rintro ⟨-, rfl⟩
        rfl
    · intro error fails
      cases fails
  | error error =>
    rw [strict] at agrees
    obtain ⟨first, rest, skipped, reason⟩ := agrees
    constructor
    · intro actions
      constructor
      · intro succeeds
        cases succeeds
      · rintro ⟨unskipped, -⟩
        rw [skipped] at unskipped
        cases unskipped
    · intro other fails
      cases fails
      exact ⟨first, rest, skipped, reason⟩

end ActionCatalogue.Swagger
