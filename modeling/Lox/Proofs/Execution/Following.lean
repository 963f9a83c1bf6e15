import Lox.Proofs.Computation.Termination
import Lox.Proofs.Execution.Correspondence
import Lox.Interpreter

/-!
# One run that follows another

`Follows` compares a computation with a family of computations, one for each bound: from states that
stand for each other, and unless the computation is exhausted, the family ends with the same value
or error up to what stands for each other, in states that stand for each other again. When two
states do so is left open; it depends on a correspondence between scopes and functions that may grow
on the way.

There is one lemma for each way of putting computations together, of which `Follows.bind` is the one
that all the others are used with.
-/

set_option autoImplicit false
set_option relaxedAutoImplicit false

namespace Lox

variable {κ ε α α' β β' : Type} [Preorder κ] {states : κ → Interpreter → Interpreter → Prop}
  {related : κ → α → α' → Prop} {result : κ → β → β' → Prop} {between grown : κ}

/-- Two computations are done with values that stand for each other, or have failed with the same
error, in states that stand for each other. -/
inductive Outcome.Matches (states : κ → Interpreter → Interpreter → Prop)
    (related : κ → α → α' → Prop) (between : κ) :
    Outcome Interpreter ε α → Outcome Interpreter ε α' → Prop
  | done {grown : κ} {value : α} {value' : α'} {state state' : Interpreter} :
    between ≤ grown → related grown value value' → states grown state state' →
    Matches states related between (.done value state) (.done value' state')
  | failed {grown : κ} {error : ε} {state state' : Interpreter} :
    between ≤ grown → states grown state state' →
    Matches states related between (.failed error state) (.failed error state')

theorem Outcome.Matches.shrink {outcome : Outcome Interpreter ε α}
    {outcome' : Outcome Interpreter ε α'}
    (houtcome : Matches states related grown outcome outcome') (hgrown : between ≤ grown) :
    Matches states related between outcome outcome' := by
  cases houtcome with
  | done hmore hvalue hstates => exact .done (hgrown.trans hmore) hvalue hstates
  | failed hmore hstates => exact .failed (hgrown.trans hmore) hstates

/-- More may be known about the states in which computations end. -/
theorem Outcome.Matches.mono {wider : κ → Interpreter → Interpreter → Prop}
    {outcome : Outcome Interpreter ε α} {outcome' : Outcome Interpreter ε α'}
    (houtcome : Matches states related between outcome outcome')
    (hwider : ∀ {more state state'}, between ≤ more → outcome.state? = some state →
      outcome'.state? = some state' → states more state state' → wider more state state') :
    Matches wider related between outcome outcome' := by
  cases houtcome with
  | done hmore hvalue hstates => exact .done hmore hvalue (hwider hmore rfl rfl hstates)
  | failed hmore hstates => exact .failed hmore (hwider hmore rfl rfl hstates)

theorem Outcome.Matches.ne_exhausted {outcome : Outcome Interpreter ε α}
    {outcome' : Outcome Interpreter ε α'}
    (houtcome : Matches states related between outcome outcome') : outcome' ≠ .exhausted := by
  cases houtcome <;> simp

/-- As soon as the computation ends, the family ends in the same way. -/
def Follows (states : κ → Interpreter → Interpreter → Prop)
    (related : κ → α → α' → Prop) (between : κ)
    (computation : Bounded Interpreter ε α) (family : Nat → Bounded Interpreter ε α') : Prop :=
  ∀ grown, between ≤ grown → ∀ state state', states grown state state' →
    computation.run state = .exhausted ∨
      ∃ outcome, Ends family state' outcome ∧
        (computation.run state).Matches states related grown outcome

namespace Follows

variable {computation : Bounded Interpreter ε α} {family : Nat → Bounded Interpreter ε α'}

theorem exhausted : Follows states related between Bounded.exhausted family :=
  fun _ _ _ _ _ ↦ .inl rfl

/-- A computation that does not depend on a bound. -/
theorem matches_run {computation' : Bounded Interpreter ε α'}
    (hfollows : Follows states related between computation fun _ ↦ computation')
    {state state' : Interpreter} (hstates : states between state state') :
    computation.run state = .exhausted ∨
      (computation.run state).Matches states related between (computation'.run state') := by
  refine (hfollows between le_rfl state state' hstates).imp_right ?_
  rintro ⟨outcome, hends, houtcome⟩
  obtain ⟨-, rfl⟩ := hends.exists_run
  exact houtcome

/-- The smallest bound does not count. -/
theorem succ_iff :
    (Follows states related between computation fun bound ↦ family (bound + 1)) ↔
      Follows states related between computation family := by
  simp only [Follows, Ends.succ_iff]

/-- Computations that do not depend on a bound. -/
theorem of_matches {computation' : Bounded Interpreter ε α'}
    (hmatches : ∀ grown, between ≤ grown → ∀ state state', states grown state state' →
      (computation.run state).Matches states related grown (computation'.run state')) :
    Follows states related between computation fun _ ↦ computation' := by
  intro grown hgrown state state' hstates
  have houtcome := hmatches grown hgrown state state' hstates
  exact .inr ⟨_, .of_forall houtcome.ne_exhausted fun _ ↦ rfl, houtcome⟩

theorem pure {value : α} {value' : α'}
    (hvalue : ∀ grown, between ≤ grown → related grown value value') :
    Follows states related between (Pure.pure value : Bounded Interpreter ε α)
      fun _ ↦ Pure.pure value' :=
  of_matches fun grown hgrown _ _ hstates ↦ .done le_rfl (hvalue grown hgrown) hstates

theorem fail (error : ε) :
    Follows states related between (Bounded.fail error) fun _ ↦ Bounded.fail error :=
  of_matches fun _ _ _ _ hstates ↦ .failed le_rfl hstates

/-- The same result, whose value stands for itself. -/
theorem ofExcept {related : κ → α → α → Prop} {result : Except ε α}
    (hresult : ∀ grown value, result = .ok value → related grown value value) :
    Follows states related between (Bounded.ofExcept result) fun _ ↦ Bounded.ofExcept result := by
  cases result with
  | ok value => exact pure fun grown _ ↦ hresult grown value rfl
  | error error => exact fail error

theorem gets {view : Interpreter → α} {view' : Interpreter → α'}
    (hview : ∀ grown, between ≤ grown → ∀ state state', states grown state state' →
      related grown (view state) (view' state')) :
    Follows states related between (Bounded.gets view : Bounded Interpreter ε α)
      fun _ ↦ Bounded.gets view' :=
  of_matches fun grown hgrown state state' hstates ↦
    .done le_rfl (hview grown hgrown state state' hstates) hstates

theorem update {change : Interpreter → α × Interpreter} {change' : Interpreter → α' × Interpreter}
    (hchange : ∀ grown, between ≤ grown → ∀ state state', states grown state state' →
      ∃ more, grown ≤ more ∧ related more (change state).1 (change' state').1 ∧
        states more (change state).2 (change' state').2) :
    Follows states related between (Bounded.update change : Bounded Interpreter ε α)
      fun _ ↦ Bounded.update change' := by
  refine of_matches fun grown hgrown state state' hstates ↦ ?_
  obtain ⟨more, hmore, hvalue, hchanged⟩ := hchange grown hgrown state state' hstates
  exact .done hmore hvalue hchanged

theorem modify {change change' : Interpreter → Interpreter}
    (hchange : ∀ grown, between ≤ grown → ∀ state state', states grown state state' →
      states grown (change state) (change' state')) :
    Follows states (fun _ _ _ ↦ True) between (Bounded.modify change : Bounded Interpreter ε Unit)
      fun _ ↦ Bounded.modify change' :=
  of_matches fun grown hgrown state state' hstates ↦
    .done le_rfl trivial (hchange grown hgrown state state' hstates)

/-- More may be known about the values that the computation yields. -/
theorem restrict {holds : α → Prop} (hfollows : Follows states related between computation family)
    (hholds : computation.Yields holds) :
    Follows states (fun between value value' ↦ holds value ∧ related between value value') between
      computation family := by
  intro grown hgrown state state' hstates
  refine (hfollows grown hgrown state state' hstates).imp_right ?_
  rintro ⟨outcome, hends, houtcome⟩
  refine ⟨outcome, hends, ?_⟩
  have hvalues := hholds state
  generalize computation.run state = reached at houtcome hvalues
  cases houtcome with
  | done hmore hvalue hreached => exact .done hmore ⟨hvalues _ _ rfl, hvalue⟩ hreached
  | failed hmore hreached => exact .failed hmore hreached

theorem bind {next : α → Bounded Interpreter ε β} {next' : Nat → α' → Bounded Interpreter ε β'}
    (hfirst : Follows states related between computation family)
    (hnext : ∀ grown, between ≤ grown → ∀ value value', related grown value value' →
      Follows states result grown (next value) fun bound ↦ next' bound value') :
    Follows states result between (computation >>= next)
      fun bound ↦ family bound >>= next' bound := by
  intro grown hgrown state state' hstates
  rw [Bounded.run_bind]
  rcases hfirst grown hgrown state state' hstates with hrun | ⟨outcome, hends, houtcome⟩
  · exact .inl (by rw [hrun])
  · generalize computation.run state = reached at houtcome
    cases houtcome with
    | done hmore hvalue hreached =>
      refine (hnext _ (hgrown.trans hmore) _ _ hvalue _ le_rfl _ _ hreached).imp_right ?_
      rintro ⟨last, hlast, hmatches⟩
      exact ⟨last, hends.bind hlast, hmatches.shrink hmore⟩
    | failed hmore hreached =>
      exact .inr ⟨_, hends.bind_of_failed, .failed hmore hreached⟩

/-- What is run in other scopes follows if it does so by itself, and the former scopes are current
again afterwards. -/
theorem inScope {states : Correspondence → Interpreter → Interpreter → Prop}
    {related : Correspondence → α → α' → Prop} {between : Correspondence} {body : Run α}
    {bodies : Nat → Run α'} {scope scope' : ScopeId}
    (hcurrent : ∀ {between state state'}, states between state state' →
      between.scopes state.current state'.current)
    (henter : ∀ {between state state' scope scope'}, states between state state' →
      between.scopes scope scope' → states between (state.enter scope).2 (state'.enter scope').2)
    (hscope : between.scopes scope scope') (hbody : Follows states related between body bodies) :
    Follows states related between (Run.inScope scope body)
      fun bound ↦ Run.inScope scope' (bodies bound) := by
  intro grown hgrown state state' hstates
  have hinside := henter hstates (hgrown.1 _ _ hscope)
  simp only [Run.inScope, Bounded.run_within_eq_map]
  refine (hbody grown hgrown _ _ hinside).imp Outcome.map_eq_exhausted_iff.mpr ?_
  rintro ⟨outcome, hends, houtcome⟩
  refine ⟨_, hends.within, ?_⟩
  have hformer := hcurrent hstates
  generalize body.run (state.enter scope).2 = reached at houtcome
  cases houtcome with
  | done hmore hvalue hreached => exact .done hmore hvalue (henter hreached (hmore.1 _ _ hformer))
  | failed hmore hreached => exact .failed hmore (henter hreached (hmore.1 _ _ hformer))

/-- If every member of a family is followed, the other family ends as the family does. -/
theorem exists_ends {families : Nat → Bounded Interpreter ε α} {state state' : Interpreter}
    {outcome : Outcome Interpreter ε α}
    (hfollows : ∀ bound, Follows states related between (families bound) family)
    (hstates : states between state state') (hends : Ends families state outcome) :
    ∃ outcome', Ends family state' outcome' ∧ outcome.Matches states related between outcome' := by
  obtain ⟨bound, hrun⟩ := hends.exists_run
  have hreached := hfollows bound between le_rfl state state' hstates
  rw [hrun] at hreached
  exact hreached.resolve_left hends.1

theorem converges {families : Nat → Bounded Interpreter ε α}
    {related : κ → α → α → Prop}
    (hfollows : ∀ bound, Follows states related between (families bound) families)
    (hstates : ∀ state, states between state state) : Converges families := by
  intro bound state hne
  obtain ⟨outcome, hends, -⟩ := (hfollows bound between le_rfl _ _ (hstates state)).resolve_left hne
  exact ⟨outcome, hends⟩

end Follows

end Lox
