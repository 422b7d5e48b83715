import ActionCatalogue.Json.Value

/-!
What happens when a function of the catalogue is called. It may ask the world outside one question
after the other, and it goes on with each reply until it answers or fails. The world has a state,
from which a reply may depend and which every question may change.
-/

namespace ActionCatalogue

open Json

inductive Inquiry (ε α : Type) where
  | done (outcome : Except ε α)
  | ask (question : Value) (goOn : Value → Inquiry ε α)

/-- The reply of the world to a question, and the state in which it is afterwards. -/
abbrev World (σ : Type) := Value → σ → Value × σ

namespace Inquiry

variable {ε δ α β σ : Type}

/-- Goes on with the answer; after a failure nothing more is asked. -/
protected def bind : Inquiry ε α → (α → Inquiry ε β) → Inquiry ε β
  | done (.ok a), next => next a
  | done (.error e), _ => done (.error e)
  | ask question goOn, next => ask question fun reply => (goOn reply).bind next

instance : Monad (Inquiry ε) where
  pure a := done (.ok a)
  bind := Inquiry.bind

instance : MonadLift (Except ε) (Inquiry ε) := ⟨done⟩

def mapError (f : ε → δ) : Inquiry ε α → Inquiry δ α
  | done outcome => done (outcome.mapError f)
  | ask question goOn => ask question fun reply => (goOn reply).mapError f

/-- What comes of a call in a world that is in a state. -/
def run (world : World σ) : Inquiry ε α → σ → Except ε α × σ
  | done outcome, s => (outcome, s)
  | ask question goOn, s =>
    let (reply, s) := world question s
    (goOn reply).run world s

@[simp] theorem run_done (world : World σ) (outcome : Except ε α) (s : σ) :
    (done outcome).run world s = (outcome, s) := rfl

@[simp] theorem run_ask (world : World σ) (question : Value) (goOn : Value → Inquiry ε α) (s : σ) :
    (ask question goOn).run world s = (goOn (world question s).1).run world (world question s).2 :=
  rfl

theorem run_bind_ok {world : World σ} {inquiry : Inquiry ε α} {a : α} {s t : σ}
    (answers : inquiry.run world s = (.ok a, t)) (next : α → Inquiry ε β) :
    (inquiry >>= next).run world s = (next a).run world t := by
  induction inquiry generalizing s with
  | done outcome =>
    cases answers
    rfl
  | ask question goOn ih => exact ih _ answers

theorem run_bind_error {world : World σ} {inquiry : Inquiry ε α} {e : ε} {s t : σ}
    (fails : inquiry.run world s = (.error e, t)) (next : α → Inquiry ε β) :
    (inquiry >>= next).run world s = (.error e, t) := by
  induction inquiry generalizing s with
  | done outcome =>
    cases fails
    rfl
  | ask question goOn ih => exact ih _ fails

/-- Where nobody is outside, every reply is `null`. -/
def nobody : World Unit := fun _ _ => (.null, ())

/-- A call with nobody outside is its outcome. -/
instance : MonadLift (Inquiry ε) (Except ε) := ⟨fun inquiry => (inquiry.run nobody ()).1⟩

end Inquiry

end ActionCatalogue
