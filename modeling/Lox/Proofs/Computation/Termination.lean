import Lox.Proofs.Computation.Preservation
import Mathlib.Order.Filter.AtTopBot.Basic

/-!
# How computations end

A family of computations, one for each bound, stands for a computation without a bound. It `Ends`
with an outcome if its members with a large enough bound all do, so it ends in at most one way
(`Ends.unique`).

A chain ends as its last part does, if all the parts before it are done, and otherwise with the
first failure. The converse, `ends_bind_iff`, asks more of what comes first: as soon as one bound is
large enough, all larger ones have to lead to the same outcome (`Converges`).
-/

set_option autoImplicit false
set_option relaxedAutoImplicit false

namespace Lox

open Filter

variable {σ ε ζ α β : Type}

/-- The outcome in other words: with its error renamed and its state changed. -/
def Outcome.map {τ : Type} (rename : ε → ζ) (change : σ → τ) : Outcome σ ε α → Outcome τ ζ α
  | done value state => .done value (change state)
  | failed error state => .failed (rename error) (change state)
  | exhausted => .exhausted

theorem Outcome.map_eq_exhausted_iff {τ : Type} {rename : ε → ζ} {change : σ → τ}
    {outcome : Outcome σ ε α} : outcome.map rename change = .exhausted ↔ outcome = .exhausted := by
  cases outcome <;> simp [map]

theorem Bounded.run_mapError_eq_map (rename : ε → ζ) (computation : Bounded σ ε α) (state : σ) :
    (computation.mapError rename).run state = (computation.run state).map rename id := by
  change (match computation.run state with
    | .done value state => Outcome.done value state
    | .failed error state => .failed (rename error) state
    | .exhausted => .exhausted) = _
  cases computation.run state <;> rfl

theorem Bounded.mapError_bind (rename : ε → ζ) (first : Bounded σ ε α) (next : α → Bounded σ ε β) :
    (first >>= next).mapError rename =
      first.mapError rename >>= fun value ↦ (next value).mapError rename := by
  funext state
  change ((first >>= next).mapError rename).run state = (first.mapError rename >>= _).run state
  rw [run_mapError_eq_map, run_bind, run_bind, run_mapError_eq_map]
  cases first.run state with
  | done value reached => exact (run_mapError_eq_map rename (next value) reached).symm
  | failed error reached => rfl
  | exhausted => rfl

theorem Bounded.run_within_eq_map {κ : Type} (enter : σ → κ × σ) (leave : κ → σ → σ)
    (computation : Bounded σ ε α) (state : σ) :
    (computation.within enter leave).run state =
      (computation.run (enter state).2).map id (leave (enter state).1) := by
  rw [run_within]
  cases computation.run (enter state).2 <;> rfl

/-- From a state, every large enough bound leads to the same outcome, which is a value or an error.
-/
def Ends (family : Nat → Bounded σ ε α) (state : σ) (outcome : Outcome σ ε α) : Prop :=
  outcome ≠ .exhausted ∧ ∀ᶠ bound in atTop, (family bound).run state = outcome

/-- If a bound is large enough to reach an outcome, then every large enough bound reaches the same
one. -/
def Converges (family : Nat → Bounded σ ε α) : Prop :=
  ∀ bound state, (family bound).run state ≠ .exhausted → ∃ outcome, Ends family state outcome

namespace Ends

variable {family : Nat → Bounded σ ε α} {next : Nat → α → Bounded σ ε β} {state reached : σ}
  {value : α} {error : ε} {outcome : Outcome σ ε α} {last : Outcome σ ε β}

theorem unique {other : Outcome σ ε α} (houtcome : Ends family state outcome)
    (hother : Ends family state other) : outcome = other := by
  obtain ⟨bound, hbound, hbound'⟩ := (houtcome.2.and hother.2).exists
  rw [← hbound, hbound']

/-- An outcome that is reached with every bound. -/
theorem of_forall (hne : outcome ≠ .exhausted)
    (hrun : ∀ bound, (family bound).run state = outcome) : Ends family state outcome :=
  ⟨hne, .of_forall hrun⟩

theorem exists_run (hends : Ends family state outcome) :
    ∃ bound, (family bound).run state = outcome := hends.2.exists

/-- The smallest bounds do not count. -/
theorem add_iff (count : Nat) :
    Ends (fun bound ↦ family (bound + count)) state outcome ↔ Ends family state outcome := by
  refine and_congr_right fun _ ↦ ?_
  rw [← eventually_map (m := fun bound ↦ bound + count)
    (P := fun bound ↦ (family bound).run state = outcome), map_add_atTop_eq_nat]

theorem succ_iff :
    Ends (fun bound ↦ family (bound + 1)) state outcome ↔ Ends family state outcome := add_iff 1

theorem bind (hfirst : Ends family state (.done value reached))
    (hnext : Ends (next · value) reached last) :
    Ends (fun bound ↦ family bound >>= next bound) state last := by
  refine ⟨hnext.1, ?_⟩
  filter_upwards [hfirst.2, hnext.2] with bound hbound hbound'
  rw [Bounded.run_bind_of_done hbound, hbound']

theorem bind_of_failed (hfirst : Ends family state (.failed error reached)) :
    Ends (fun bound ↦ family bound >>= next bound) state (.failed error reached) := by
  refine ⟨by simp, ?_⟩
  filter_upwards [hfirst.2] with bound hbound
  rw [Bounded.run_bind, hbound]

/-- What is done in a changed state ends with the change undone. -/
theorem within {κ : Type} {enter : σ → κ × σ} {leave : κ → σ → σ}
    (hends : Ends family (enter state).2 outcome) :
    Ends (fun bound ↦ (family bound).within enter leave) state
      (outcome.map id (leave (enter state).1)) := by
  refine ⟨fun hexhausted ↦ hends.1 (Outcome.map_eq_exhausted_iff.mp hexhausted), ?_⟩
  filter_upwards [hends.2] with bound hbound
  rw [Bounded.run_within_eq_map, hbound]

end Ends

/-- A chain ends with what follows the end of its first part. -/
theorem ends_bind_iff {first : Nat → Bounded σ ε α} {next : Nat → α → Bounded σ ε β} {state : σ}
    {outcome : Outcome σ ε β} (hfirst : Converges first) :
    Ends (fun bound ↦ first bound >>= next bound) state outcome ↔
      (∃ value reached, Ends first state (.done value reached) ∧
        Ends (next · value) reached outcome) ∨
      ∃ error reached, Ends first state (.failed error reached) ∧
        outcome = .failed error reached := by
  constructor
  · intro hends
    obtain ⟨bound, hbound⟩ := hends.exists_run
    have hne : (first bound).run state ≠ .exhausted := by
      intro hrun
      rw [Bounded.run_bind, hrun] at hbound
      exact hends.1 hbound.symm
    obtain ⟨reached, hreached⟩ := hfirst bound state hne
    cases reached with
    | done value middle =>
      refine .inl ⟨value, middle, hreached, hends.1, ?_⟩
      filter_upwards [hreached.2, hends.2] with bound hbound hbound'
      rw [← hbound', Bounded.run_bind_of_done hbound]
    | failed error middle =>
      exact .inr ⟨error, middle, hreached, hends.unique hreached.bind_of_failed⟩
    | exhausted => exact absurd rfl hreached.1
  · rintro (⟨value, reached, hvalue, hends⟩ | ⟨error, reached, herror, rfl⟩)
    · exact hvalue.bind hends
    · exact herror.bind_of_failed

/-- What is done in a changed state ends as it does there, with the change undone. -/
theorem ends_within_iff {κ : Type} {enter : σ → κ × σ} {leave : κ → σ → σ}
    {family : Nat → Bounded σ ε α} (hfamily : Converges family) {state : σ}
    {outcome : Outcome σ ε α} :
    Ends (fun bound ↦ (family bound).within enter leave) state outcome ↔
      ∃ origin, Ends family (enter state).2 origin ∧
        outcome = origin.map id (leave (enter state).1) := by
  constructor
  · intro hends
    obtain ⟨bound, hbound⟩ := hends.exists_run
    obtain ⟨origin, horigin⟩ := hfamily bound (enter state).2 fun hrun ↦ by
      rw [Bounded.run_within_eq_map, hrun] at hbound
      exact hends.1 hbound.symm
    exact ⟨origin, horigin, hends.unique horigin.within⟩
  · rintro ⟨origin, horigin, rfl⟩
    exact horigin.within

/-- Two chains with the same first part end alike if what follows the end of that part does. -/
theorem ends_bind_congr {first : Nat → Bounded σ ε α} {next next' : Nat → α → Bounded σ ε β}
    {state : σ} {outcome : Outcome σ ε β} (hfirst : Converges first)
    (hnext : ∀ value reached, Ends first state (.done value reached) →
      (Ends (next · value) reached outcome ↔ Ends (next' · value) reached outcome)) :
    Ends (fun bound ↦ first bound >>= next bound) state outcome ↔
      Ends (fun bound ↦ first bound >>= next' bound) state outcome := by
  rw [ends_bind_iff hfirst, ends_bind_iff hfirst]
  refine or_congr_left (exists_congr fun value ↦ exists_congr fun reached ↦ ?_)
  exact and_congr_right (hnext value reached)

/-- Renaming errors one to one renames them in what a computation ends with. -/
theorem ends_mapError_iff {rename : ε → ζ} (hrename : rename.Injective)
    {family : Nat → Bounded σ ε α} {state : σ} {outcome : Outcome σ ζ α} :
    Ends (fun bound ↦ (family bound).mapError rename) state outcome ↔
      ∃ origin, Ends family state origin ∧ outcome = origin.map rename id := by
  have hinjective : (Outcome.map (σ := σ) (α := α) rename id).Injective := by
    intro first second heq
    cases first <;> cases second <;> simp_all [Outcome.map, hrename.eq_iff]
  constructor
  · intro hends
    obtain ⟨bound, rfl⟩ := hends.exists_run
    rw [Bounded.run_mapError_eq_map] at hends ⊢
    refine ⟨_, ⟨fun hrun ↦ hends.1 (Outcome.map_eq_exhausted_iff.mpr hrun), ?_⟩, rfl⟩
    filter_upwards [hends.2] with other hother
    rw [Bounded.run_mapError_eq_map] at hother
    exact hinjective hother
  · rintro ⟨origin, hends, rfl⟩
    refine ⟨fun hexhausted ↦ hends.1 (Outcome.map_eq_exhausted_iff.mp hexhausted), ?_⟩
    filter_upwards [hends.2] with bound hbound
    rw [Bounded.run_mapError_eq_map, hbound]

end Lox
