import Mathlib.Data.List.Forall2
import ActionCatalogue.Data.Error

/-!
Passes over a list that stop at the first error. Two passes that agree on every item have the same
outcome, errors included, and a pass that succeeds has a result for every item. What a computation
ends with, an error of some kind or a result of some kind, is put together from what its steps end
with.
-/

namespace ActionCatalogue

namespace Pass

variable {ε α β σ : Type} {f g : α → Except ε β} {step next : σ → α → Except ε σ} {items : List α}

theorem mapM_congr (same : ∀ item ∈ items, f item = g item) : items.mapM f = items.mapM g := by
  induction items with
  | nil => rfl
  | cons item rest ih =>
    have later := ih fun other member => same other (List.mem_cons_of_mem _ member)
    rw [List.mapM_cons, List.mapM_cons, same item List.mem_cons_self, later]

theorem foldlM_congr (same : ∀ state, ∀ item ∈ items, step state item = next state item)
    (state : σ) : items.foldlM step state = items.foldlM next state := by
  induction items generalizing state with
  | nil => rfl
  | cons item rest ih =>
    have later := fun state =>
      ih (fun s other member => same s other (List.mem_cons_of_mem _ member))
      state
    simp only [List.foldlM_cons, same state item List.mem_cons_self, later]

/-- Items that leave the state as it is can be left out. -/
theorem foldlM_filter {counts : α → Bool}
    (idle : ∀ state, ∀ item ∈ items, counts item = false → step state item = .ok state)
    (state : σ) : (items.filter counts).foldlM step state = items.foldlM step state := by
  induction items generalizing state with
  | nil => rfl
  | cons item rest ih =>
    have later := ih fun state other member => idle state other (List.mem_cons_of_mem _ member)
    rw [List.filter_cons]
    cases counted : counts item with
    | true => simp only [if_true, List.foldlM_cons, later]
    | false =>
      rw [if_neg (by simp), List.foldlM_cons, idle state item List.mem_cons_self counted]
      exact later state

theorem mapM_eq_ok_iff {results : List β} :
    items.mapM f = .ok results ↔ List.Forall₂ (fun item b => f item = .ok b) items results := by
  induction items generalizing results with
  | nil =>
    rw [List.mapM_nil, List.forall₂_nil_left_iff]
    exact ⟨fun same => (Except.ok.inj same).symm, fun same => congrArg Except.ok same.symm⟩
  | cons item rest ih =>
    rw [List.mapM_cons]
    constructor
    · intro success
      obtain ⟨b, found, success⟩ := exists_of_bind_eq_ok success
      obtain ⟨others, followed, success⟩ := exists_of_bind_eq_ok success
      cases success
      exact .cons found (ih.mp followed)
    · rintro (_ | ⟨found, followed⟩)
      rw [found, ih.mpr followed]
      rfl

theorem forall₂_of_mem {R S : α → β → Prop} {ys : List β} (related : List.Forall₂ R items ys)
    (next : ∀ item y, item ∈ items → R item y → S item y) : List.Forall₂ S items ys := by
  induction related with
  | nil => exact .nil
  | cons first _ ih =>
    exact .cons (next _ _ List.mem_cons_self first)
      (ih fun item y member => next item y (List.mem_cons_of_mem _ member))

theorem forall₂_append {R : α → β → Prop} {first second : List α} {ys : List β}
    (related : List.Forall₂ R (first ++ second) ys) : ∃ front back, ys = front ++ back ∧
      List.Forall₂ R first front ∧ List.Forall₂ R second back := by
  induction first generalizing ys with
  | nil => exact ⟨[], ys, rfl, .nil, related⟩
  | cons item rest ih =>
    cases related with
    | cons found related =>
      obtain ⟨front, back, rfl, fronts, backs⟩ := ih related
      exact ⟨_ :: front, back, rfl, .cons found fronts, backs⟩

theorem forall₂_trans {γ : Type} {R : α → β → Prop} {S : β → γ → Prop} {T : α → γ → Prop}
    {ys : List β} {zs : List γ} (first : List.Forall₂ R items ys) (second : List.Forall₂ S ys zs)
    (both : ∀ x y z, R x y → S y z → T x z) : List.Forall₂ T items zs := by
  induction first generalizing zs with
  | nil =>
    cases second
    exact .nil
  | cons related _ ih =>
    cases second with
    | cons follows second => exact .cons (both _ _ _ related follows) (ih second)

theorem map_eq_of_forall₂ {γ : Type} {R : α → β → Prop} {ys : List β} {f : α → γ} {g : β → γ}
    (related : List.Forall₂ R items ys) (same : ∀ x y, R x y → f x = g y) :
    items.map f = ys.map g := by
  rw [← List.forall₂_eq_eq_eq, List.forall₂_map_left_iff, List.forall₂_map_right_iff]
  exact related.imp same

theorem exists_of_mem_right {R : α → β → Prop} {ys : List β} {y : β}
    (related : List.Forall₂ R items ys) (member : y ∈ ys) : ∃ item ∈ items, R item y := by
  induction related with
  | nil => cases member
  | cons first _ ih =>
    rcases List.mem_cons.mp member with rfl | later
    · exact ⟨_, List.mem_cons_self, first⟩
    · obtain ⟨item, among, found⟩ := ih later
      exact ⟨item, List.mem_cons_of_mem _ among, found⟩

/-- A result of a pass comes of one of its items. -/
theorem exists_of_mem_results {results : List β} {b : β} (success : items.mapM f = .ok results)
    (member : b ∈ results) : ∃ item ∈ items, f item = .ok b := by
  obtain ⟨item, among, found⟩ := exists_of_mem_right (mapM_eq_ok_iff.mp success) member
  exact ⟨item, among, found⟩

/-- A pass succeeds if it succeeds on every item. -/
theorem mapM_succeeds_iff :
    (∃ results, items.mapM f = .ok results) ↔ ∀ item ∈ items, ∃ b, f item = .ok b := by
  induction items with
  | nil => simp [pure, Except.pure]
  | cons item rest ih =>
    rw [List.mapM_cons, List.forall_mem_cons, ← ih]
    constructor
    · rintro ⟨results, success⟩
      obtain ⟨b, found, success⟩ := exists_of_bind_eq_ok success
      obtain ⟨others, followed, -⟩ := exists_of_bind_eq_ok success
      exact ⟨⟨b, found⟩, others, followed⟩
    · rintro ⟨⟨b, found⟩, others, followed⟩
      exact ⟨b :: others, by rw [found, followed]; rfl⟩

/-- A pass fails as the first item on which it does. -/
theorem mapM_eq_error_iff {e : ε} :
    items.mapM f = .error e ↔ ∃ earlier item later, items = earlier ++ item :: later ∧
      (∀ other ∈ earlier, ∃ b, f other = .ok b) ∧ f item = .error e := by
  constructor
  · intro failure
    induction items with
    | nil => cases failure
    | cons item rest ih =>
      cases found : f item with
      | error own =>
        rw [List.mapM_cons, found] at failure
        cases failure
        exact ⟨[], item, rest, rfl, nofun, found⟩
      | ok b =>
        cases followed : rest.mapM f with
        | ok others =>
          rw [List.mapM_cons, found, followed] at failure
          cases failure
        | error own =>
          rw [List.mapM_cons, found, followed] at failure
          cases failure
          obtain ⟨earlier, failing, later, rfl, fine, fails⟩ := ih followed
          exact ⟨item :: earlier, failing, later, rfl,
            List.forall_mem_cons.mpr ⟨⟨b, found⟩, fine⟩, fails⟩
  · rintro ⟨earlier, item, later, rfl, fine, fails⟩
    obtain ⟨results, passed⟩ := mapM_succeeds_iff.mpr fine
    rw [List.mapM_append, passed, List.mapM_cons, fails]
    rfl

end Pass

/-- A computation ends with an error of one kind or with a result of another kind. -/
def Ends {ε α : Type} (Fault : ε → Prop) (Result : α → Prop) : Except ε α → Prop
  | .ok a => Result a
  | .error e => Fault e

namespace Ends

variable {ε α β σ : Type} {Fault Other : ε → Prop} {Result Stronger : α → Prop} {Next : β → Prop}
  {x : Except ε α}

theorem ok {a : α} (holds : Result a) : Ends Fault Result (.ok a) := holds

theorem error {e : ε} (fails : Fault e) : Ends Fault Result (.error e) := fails

theorem mono (ends : Ends Fault Result x) (faults : ∀ e, Fault e → Other e)
    (results : ∀ a, Result a → Stronger a) : Ends Other Stronger x := by
  cases x with
  | error e => exact faults e ends
  | ok a => exact results a ends

theorem result {a : α} (ends : Ends Fault Result x) (success : x = .ok a) : Result a := by
  rw [success] at ends
  exact ends

/-- A computation of which only the results matter. -/
theorem of_result (known : ∀ a, x = .ok a → Result a) : Ends (fun _ => True) Result x := by
  cases x with
  | error e => trivial
  | ok a => exact known a rfl

/-- What is known of the results of a computation by itself. -/
theorem with_result (ends : Ends Fault Result x) (known : ∀ a, x = .ok a → Stronger a) :
    Ends Fault Stronger x := by
  cases x with
  | error e => exact ends
  | ok a => exact known a rfl

theorem bind {f : α → Except ε β} (first : Ends Fault Result x)
    (next : ∀ a, Result a → Ends Fault Next (f a)) : Ends Fault Next (x >>= f) := by
  cases x with
  | error e => exact first
  | ok a => exact next a first

theorem map {f : α → β} (ends : Ends Fault Result x) (next : ∀ a, Result a → Next (f a)) :
    Ends Fault Next (f <$> x) := by
  cases x with
  | error e => exact ends
  | ok a => exact next a ends

theorem mapM {f : α → Except ε β} {items : List α}
    (each : ∀ item ∈ items, Ends Fault Next (f item)) :
    Ends Fault (fun results => ∀ b ∈ results, Next b) (items.mapM f) := by
  induction items with
  | nil => exact ok nofun
  | cons item rest ih =>
    have later := ih fun other member => each other (List.mem_cons_of_mem _ member)
    rw [List.mapM_cons]
    refine bind (each item List.mem_cons_self) fun b holds => bind later fun others all => ok ?_
    rintro c (_ | ⟨_, member⟩)
    · exact holds
    · exact all c member

/-- A pass keeps what each of its steps keeps. -/
theorem foldlM {Kept : σ → Prop} {step : σ → α → Except ε σ} {items : List α}
    (each : ∀ state, ∀ item ∈ items, Kept state → Ends Fault Kept (step state item)) {state : σ}
    (kept : Kept state) : Ends Fault Kept (items.foldlM step state) := by
  induction items generalizing state with
  | nil => exact ok kept
  | cons item rest ih =>
    rw [List.foldlM_cons]
    refine bind (each state item List.mem_cons_self kept) fun next keeps => ?_
    exact ih (fun s other member => each s other (List.mem_cons_of_mem _ member)) keeps

end Ends

end ActionCatalogue
