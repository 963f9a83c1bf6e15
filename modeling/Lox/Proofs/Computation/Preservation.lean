import Lox.Bounded
import Mathlib.Order.Defs.Unbundled

/-!
# What a computation preserves

A `Bounded` computation that is not exhausted leaves a state behind, whether it is done or has
failed: `Outcome.state?`. It keeps a relation between states if the state before and every state
that it can leave behind are related, `Bounded.Keeps`. If the relation is a preorder, a computation
keeps it as soon as its parts do: there is one lemma for each way of putting computations together,
of which `Bounded.Keeps.bind` is the one that all the others are used with.

In the same way `Bounded.Yields` says of a computation that its value has a property whenever there
is one.

The equations `Bounded.run_bind` and `Bounded.run_bind_of_done` say what a chain of computations
does; the monad laws hold.
-/

set_option autoImplicit false
set_option relaxedAutoImplicit false

namespace Lox

/-- The state that was reached, unless the bound was exhausted. -/
def Outcome.state? {σ ε α : Type} : Outcome σ ε α → Option σ
  | done _ state => some state
  | failed _ state => some state
  | exhausted => none

namespace Bounded

variable {σ ε α β : Type}

/-- Two computations one after the other: the second one is run from where the first one is done,
and a failure or the exhaustion of the first one is that of both. -/
theorem run_bind (first : Bounded σ ε α) (next : α → Bounded σ ε β) (state : σ) :
    (first >>= next).run state =
      match first.run state with
      | .done value state => (next value).run state
      | .failed error state => .failed error state
      | .exhausted => .exhausted := rfl

/-- What comes behind a computation that is done. -/
theorem run_bind_of_done {first : Bounded σ ε α} {next : α → Bounded σ ε β} {state reached : σ}
    {value : α} (hfirst : first.run state = .done value reached) :
    (first >>= next).run state = (next value).run reached := by
  rw [run_bind, hfirst]

/-- Two computations are done exactly if both of them are, one from the state that the other has
reached. -/
theorem run_bind_eq_done {first : Bounded σ ε α} {next : α → Bounded σ ε β} {state last : σ}
    {result : β} :
    (first >>= next).run state = .done result last ↔
      ∃ value reached, first.run state = .done value reached ∧
        (next value).run reached = .done result last := by
  rw [run_bind]
  constructor
  · intro hrun
    cases hfirst : first.run state <;> rw [hfirst] at hrun
    case done value reached => exact ⟨value, reached, rfl, hrun⟩
    all_goals cases hrun
  · rintro ⟨value, reached, hfirst, hrun⟩
    rw [hfirst]
    exact hrun

/-- Two computations fail exactly if the first one does, or if it is done and the second one fails.
-/
theorem run_bind_eq_failed {first : Bounded σ ε α} {next : α → Bounded σ ε β} {state last : σ}
    {error : ε} :
    (first >>= next).run state = .failed error last ↔ first.run state = .failed error last ∨
      ∃ value reached, first.run state = .done value reached ∧
        (next value).run reached = .failed error last := by
  rw [run_bind]
  constructor
  · intro hrun
    cases hfirst : first.run state <;> rw [hfirst] at hrun
    case done value reached => exact .inr ⟨value, reached, rfl, hrun⟩
    case failed =>
      cases hrun
      exact .inl rfl
    case exhausted => cases hrun
  · rintro (hfirst | ⟨value, reached, hfirst, hrun⟩)
    · rw [hfirst]
    · rw [hfirst]
      exact hrun

@[simp]
theorem run_pure (value : α) (state : σ) :
    (pure value : Bounded σ ε α).run state = .done value state := rfl

@[simp]
theorem run_fail (error : ε) (state : σ) :
    (fail error : Bounded σ ε α).run state = .failed error state := rfl

@[simp]
theorem run_exhausted (state : σ) : (exhausted : Bounded σ ε α).run state = .exhausted := rfl

@[simp]
theorem run_gets (view : σ → α) (state : σ) :
    (gets view : Bounded σ ε α).run state = .done (view state) state := rfl

@[simp]
theorem run_modify (change : σ → σ) (state : σ) :
    (modify change : Bounded σ ε Unit).run state = .done () (change state) := rfl

@[simp]
theorem run_update (change : σ → α × σ) (state : σ) :
    (update change : Bounded σ ε α).run state = .done (change state).1 (change state).2 := rfl

/-- An attempt is done even if it fails, and the error is its value. -/
theorem run_attempt (computation : Bounded σ ε α) (state : σ) :
    (attempt computation).run state =
      match computation.run state with
      | .done value reached => .done (.ok value) reached
      | .failed error reached => .done (.error error) reached
      | .exhausted => .exhausted := rfl

/-- A computation between two changes of the state: the second change is made however the
computation ends, and it is given what the first one has kept. -/
theorem run_within {κ : Type} (enter : σ → κ × σ) (leave : κ → σ → σ)
    (computation : Bounded σ ε α) (state : σ) :
    (within enter leave computation).run state =
      match computation.run (enter state).2 with
      | .done value reached => .done value (leave (enter state).1 reached)
      | .failed error reached => .failed error (leave (enter state).1 reached)
      | .exhausted => .exhausted := rfl

/-- A computation between two changes is done exactly if it is done inside. -/
theorem run_within_eq_done {κ : Type} {enter : σ → κ × σ} {leave : κ → σ → σ}
    {computation : Bounded σ ε α} {state last : σ} {value : α} :
    (within enter leave computation).run state = .done value last ↔
      ∃ inner, computation.run (enter state).2 = .done value inner ∧
        leave (enter state).1 inner = last := by
  rw [run_within]
  constructor
  · intro hrun
    cases hinner : computation.run (enter state).2 <;> rw [hinner] at hrun <;> cases hrun
    exact ⟨_, rfl, rfl⟩
  · rintro ⟨inner, hinner, rfl⟩
    rw [hinner]

/-- What a chain leaves behind is left behind by its first part, if that fails, or by what comes
next. -/
theorem state?_run_bind {first : Bounded σ ε α} {next : α → Bounded σ ε β} {before after : σ}
    (hafter : ((first >>= next).run before).state? = some after) :
    (∃ error, first.run before = .failed error after) ∨
      ∃ value middle, first.run before = .done value middle ∧
        ((next value).run middle).state? = some after := by
  rw [run_bind] at hafter
  cases hfirst : first.run before <;> rw [hfirst] at hafter
  case done value middle => exact .inr ⟨value, middle, rfl, hafter⟩
  case failed error middle => exact .inl ⟨error, by rw [← Option.some.inj hafter]⟩
  case exhausted => simp [Outcome.state?] at hafter

/-- A changed state is left however the computation in it ends. -/
theorem state?_run_within {κ : Type} {enter : σ → κ × σ} {leave : κ → σ → σ}
    {computation : Bounded σ ε α} {before after : σ}
    (hafter : ((within enter leave computation).run before).state? = some after) :
    ∃ inner, (computation.run (enter before).2).state? = some inner ∧
      after = leave (enter before).1 inner := by
  rw [run_within] at hafter
  cases hrun : computation.run (enter before).2 <;> rw [hrun] at hafter
  case done value inner => exact ⟨inner, rfl, (Option.some.inj hafter).symm⟩
  case failed error inner => exact ⟨inner, rfl, (Option.some.inj hafter).symm⟩
  case exhausted => simp [Outcome.state?] at hafter

/-- The monad laws, of which the first and the last go by the ways in which a computation can end.
-/
instance : LawfulMonad (Bounded σ ε) := by
  refine LawfulMonad.mk' (Bounded σ ε) ?_ (fun _ _ ↦ rfl) ?_
  · intro α computation
    funext state
    change (match computation state with
      | .done value state => _
      | .failed error state => _
      | .exhausted => _) = computation state
    cases computation state <;> rfl
  · intro α β γ computation first second
    funext state
    change (match (match computation state with
        | .done value state => first value state
        | .failed error state => .failed error state
        | .exhausted => .exhausted) with
      | .done value state => second value state
      | .failed error state => .failed error state
      | .exhausted => .exhausted) =
      match computation state with
      | .done value state => _
      | .failed error state => _
      | .exhausted => _
    cases computation state <;> rfl

/-! ### Relations that a computation keeps -/

/-- Every state that is left behind is related to the state before. -/
def Keeps (related : σ → σ → Prop) (computation : Bounded σ ε α) : Prop :=
  ∀ before after, (computation.run before).state? = some after → related before after

namespace Keeps

variable {related : σ → σ → Prop}

/-- What is kept may be weakened. -/
theorem mono {wider : σ → σ → Prop} {computation : Bounded σ ε α}
    (hcomputation : Keeps related computation)
    (hwider : ∀ before after, related before after → wider before after) :
    Keeps wider computation :=
  fun before after hafter ↦ hwider before after (hcomputation before after hafter)

theorem exhausted : Keeps related (Bounded.exhausted : Bounded σ ε α) := by
  intro before after hafter
  simp [Outcome.state?] at hafter

/-- A change of the state keeps a relation if it relates each state to the changed one. -/
theorem modify {change : σ → σ} (hchange : ∀ state, related state (change state)) :
    Keeps related (Bounded.modify change : Bounded σ ε Unit) := by
  intro before after hafter
  obtain rfl := Option.some.inj hafter
  exact hchange before

theorem update {change : σ → α × σ} (hchange : ∀ state, related state (change state).2) :
    Keeps related (Bounded.update change : Bounded σ ε α) := by
  intro before after hafter
  obtain rfl := Option.some.inj hafter
  exact hchange before

/-- Renaming errors changes nothing about the states. -/
theorem mapError {ζ : Type} {rename : ε → ζ} {computation : Bounded σ ε α}
    (hcomputation : Keeps related computation) : Keeps related (computation.mapError rename) := by
  intro before after hafter
  apply hcomputation before after
  rw [← hafter]
  change _ = (match computation.run before with
    | .done value state => Outcome.done value state
    | .failed error state => .failed (rename error) state
    | .exhausted => .exhausted).state?
  cases computation.run before <;> rfl

/-- A failure that is caught has left the same state behind. -/
theorem attempt {computation : Bounded σ ε α} (hcomputation : Keeps related computation) :
    Keeps related computation.attempt := by
  intro before after hafter
  apply hcomputation before after
  rw [← hafter, run_attempt]
  cases computation.run before <;> rfl

section Preorder

variable [IsPreorder σ related]

/-- A preorder relates every state to itself, and so what does not change the state keeps it. -/
theorem pure (value : α) : Keeps related (Pure.pure value : Bounded σ ε α) := by
  intro before after hafter
  obtain rfl := Option.some.inj hafter
  exact refl before

theorem fail (error : ε) : Keeps related (Bounded.fail error : Bounded σ ε α) := by
  intro before after hafter
  obtain rfl := Option.some.inj hafter
  exact refl before

theorem gets (view : σ → α) : Keeps related (Bounded.gets view : Bounded σ ε α) := by
  intro before after hafter
  obtain rfl := Option.some.inj hafter
  exact refl before

theorem ofExcept (result : Except ε α) : Keeps related (Bounded.ofExcept result) := by
  cases result with
  | ok value => exact pure value
  | error error => exact fail error

/-- A preorder is transitive, and so computations one after the other keep it. The first one may
fail, and has kept it then as well. -/
theorem bind {first : Bounded σ ε α} {next : α → Bounded σ ε β} (hfirst : Keeps related first)
    (hnext : ∀ value, Keeps related (next value)) : Keeps related (first >>= next) := by
  intro before after hafter
  obtain ⟨error, hrun⟩ | ⟨value, middle, hrun, hafter⟩ := state?_run_bind hafter
  · exact hfirst before after (by rw [hrun, Outcome.state?])
  · have hmiddle := hfirst before middle (by rw [hrun, Outcome.state?])
    exact trans_of related hmiddle (hnext value middle after hafter)

theorem map {computation : Bounded σ ε α} (hcomputation : Keeps related computation)
    (convert : α → β) : Keeps related (convert <$> computation) := by
  rw [← bind_pure_comp]
  exact .bind hcomputation fun value ↦ .pure _

end Preorder

end Keeps

/-! ### Values that a computation yields -/

/-- Every value that the computation is done with has the property. -/
def Yields (holds : α → Prop) (computation : Bounded σ ε α) : Prop :=
  ∀ before value after, computation.run before = .done value after → holds value

namespace Yields

variable {holds : α → Prop}

theorem exhausted : Yields holds (Bounded.exhausted : Bounded σ ε α) := by
  rintro before value after ⟨⟩

theorem pure {value : α} (hvalue : holds value) :
    Yields holds (Pure.pure value : Bounded σ ε α) := by
  rintro before value after ⟨⟩
  exact hvalue

/-- The value of a chain is the one of its last part, and this may use what is known of the values
before. -/
theorem bind {result : β → Prop} {first : Bounded σ ε α} {next : α → Bounded σ ε β}
    (hfirst : Yields holds first) (hnext : ∀ value, holds value → Yields result (next value)) :
    Yields result (first >>= next) := by
  intro before last after hrun
  obtain ⟨value, middle, hvalue, hlast⟩ := run_bind_eq_done.mp hrun
  exact hnext value (hfirst before value middle hvalue) middle last after hlast

/-- What comes first does not count if every value of it is good enough. -/
theorem bind_right {result : β → Prop} {first : Bounded σ ε α} {next : α → Bounded σ ε β}
    (hnext : ∀ value, Yields result (next value)) : Yields result (first >>= next) :=
  have hfirst : Yields (fun _ ↦ True) first := fun _ _ _ _ ↦ trivial
  hfirst.bind fun value _ ↦ hnext value

/-- What surrounds a computation does not change its value. -/
theorem within {κ : Type} {enter : σ → κ × σ} {leave : κ → σ → σ} {computation : Bounded σ ε α}
    (hcomputation : Yields holds computation) :
    Yields holds (computation.within enter leave) := by
  intro before value after hrun
  obtain ⟨inner, hinner, -⟩ := run_within_eq_done.mp hrun
  exact hcomputation _ _ _ hinner

end Yields

end Bounded

end Lox
