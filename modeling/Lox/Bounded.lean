/-!
# Bounded computations

A `Bounded` computation works on a state and ends in one of three ways, its `Outcome`: it is done
with a value, it failed with an error, or the bound it was given on nesting and repetition was
exhausted. The first two keep the state that was reached; the third is neither a value nor an error
and says only that a larger bound is needed.

Computations are chained as in any monad: what comes second runs only if the first is done.
`Bounded.attempt` hands a failure on as a value, and `Bounded.within` changes the state for the time
of a computation and undoes the change, whichever way the computation ends.
-/

set_option autoImplicit false
set_option relaxedAutoImplicit false

namespace Lox

/-- How a computation on states `σ` with errors `ε` and values `α` ends. -/
inductive Outcome (σ ε α : Type) where
  | done (value : α) (state : σ)
  | failed (error : ε) (state : σ)
  | exhausted

/-- A computation on states `σ` with errors `ε` and values `α`. -/
def Bounded (σ ε α : Type) : Type := σ → Outcome σ ε α

namespace Bounded

variable {σ ε α β : Type}

/-- Runs a computation from a state. -/
@[always_inline, inline]
def run (computation : Bounded σ ε α) (state : σ) : Outcome σ ε α := computation state

@[always_inline]
instance : Monad (Bounded σ ε) where
  pure value := fun state ↦ .done value state
  bind first next := fun state ↦
    match first state with
    | .done value state => next value state
    | .failed error state => .failed error state
    | .exhausted => .exhausted

/-- Fails with an error, in the state reached so far. -/
@[always_inline, inline]
def fail (error : ε) : Bounded σ ε α := fun state ↦ .failed error state

/-- Gives up for want of a larger bound. -/
@[always_inline, inline]
def exhausted : Bounded σ ε α := fun _ ↦ .exhausted

/-- Takes over a result that is known already. -/
@[always_inline, inline]
def ofExcept : Except ε α → Bounded σ ε α
  | .ok value => fun state ↦ .done value state
  | .error error => fail error

/-- A view of the state. -/
@[always_inline, inline]
def gets (view : σ → α) : Bounded σ ε α := fun state ↦ .done (view state) state

/-- A change of the state. -/
@[always_inline, inline]
def modify (change : σ → σ) : Bounded σ ε Unit := fun state ↦ .done () (change state)

/-- A change of the state that yields a value. -/
@[always_inline, inline]
def update (change : σ → α × σ) : Bounded σ ε α := fun state ↦
  let (value, state) := change state
  .done value state

/-- Runs a computation and hands on its failure as a value. -/
@[always_inline, inline]
def attempt (computation : Bounded σ ε α) : Bounded σ ε (Except ε α) := fun state ↦
  match computation state with
  | .done value state => .done (.ok value) state
  | .failed error state => .done (.error error) state
  | .exhausted => .exhausted

/-- Renames the failure of a computation. -/
@[always_inline, inline]
def mapError {ζ : Type} (rename : ε → ζ) (computation : Bounded σ ε α) : Bounded σ ζ α :=
  fun state ↦
  match computation state with
  | .done value state => .done value state
  | .failed error state => .failed (rename error) state
  | .exhausted => .exhausted

/-- Runs a computation in a changed state. The change also yields what has to be known to undo it,
and it is undone whether the computation is done or has failed. -/
@[always_inline, inline]
def within {κ : Type} (enter : σ → κ × σ) (leave : κ → σ → σ) (computation : Bounded σ ε α) :
    Bounded σ ε α := fun state ↦
  let (saved, state) := enter state
  match computation state with
  | .done value state => .done value (leave saved state)
  | .failed error state => .failed error (leave saved state)
  | .exhausted => .exhausted

end Bounded

end Lox
