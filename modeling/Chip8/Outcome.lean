import Chip8.Failure

/-!
# Outcomes

An operation that stops short leaves a state behind too, so an outcome holds the state reached
together with the failure.
-/

namespace Chip8

/-- The state that an operation reached, and why it went no further if it stopped short. -/
inductive Outcome (σ : Type)
  | done (state : σ)
  | failed (why : Failure) (state : σ)
  deriving DecidableEq

namespace Outcome

variable {σ τ : Type}

def state : Outcome σ → σ
  | done s => s
  | failed _ s => s

def failure? : Outcome σ → Option Failure
  | done _ => none
  | failed why _ => some why

def map (f : σ → τ) : Outcome σ → Outcome τ
  | done s => done (f s)
  | failed why s => failed why (f s)

/-- Goes on with the state reached, unless the operation stopped short. -/
def andThen : Outcome σ → (σ → Outcome σ) → Outcome σ
  | done s, f => f s
  | failed why s, _ => failed why s

@[simp] theorem state_done (s : σ) : (done s).state = s := rfl

@[simp] theorem state_failed (why : Failure) (s : σ) : (failed why s).state = s := rfl

@[simp] theorem failure?_done (s : σ) : (done s).failure? = none := rfl

@[simp] theorem failure?_failed (why : Failure) (s : σ) : (failed why s).failure? = some why := rfl

theorem failure?_done_ne (s : σ) (why : Failure) : (done s).failure? ≠ some why := by simp

@[simp] theorem state_map (f : σ → τ) (o : Outcome σ) : (o.map f).state = f o.state := by
  cases o <;> rfl

@[simp] theorem failure?_map (f : σ → τ) (o : Outcome σ) : (o.map f).failure? = o.failure? := by
  cases o <;> rfl

theorem map_map {υ : Type} (g : τ → υ) (f : σ → τ) (o : Outcome σ) :
    (o.map f).map g = o.map fun s => g (f s) := by
  cases o <;> rfl

end Outcome

end Chip8
