import Lox.Proofs.Syntax.StatementPair

/-!
# Reading every list of tokens

Whatever a list of tokens is, it is read to an end, and with a bound beyond the number of tokens the
bound makes no difference (`Program.exists_forall_run_parse`). So a list of tokens is a program or
has errors, `Program.errorsOf`, which are the ones reported where reading ends.

The bounds are compared by reading the tokens side by side with themselves, where being alike is
being equal (`Likeness.same`).
-/

set_option autoImplicit false
set_option relaxedAutoImplicit false

namespace Lox

namespace Likeness

theorem Identifiers.eq {cursors : Cursor → Cursor → Prop}
    {causes : SyntaxCause → SyntaxCause → Prop} {expressions : Expr → Expr → Prop}
    {statements : Stmt → Stmt → Prop} {identifier identifier' : Identifier}
    (hidentifiers : (⟨cursors, Eq, causes, expressions, statements⟩ : Likeness).Identifiers
      identifier identifier') : identifier = identifier' := by
  obtain ⟨name, span⟩ := identifier
  obtain ⟨name', span'⟩ := identifier'
  obtain ⟨rfl, rfl⟩ := hidentifiers
  rfl

theorem Errors.eq {cursors : Cursor → Cursor → Prop} {expressions : Expr → Expr → Prop}
    {statements : Stmt → Stmt → Prop} {error error' : SyntaxError}
    (herrors : (⟨cursors, Eq, Eq, expressions, statements⟩ : Likeness).Errors error error') :
    error = error' := by
  obtain ⟨cause, span⟩ := error
  obtain ⟨cause', span'⟩ := error'
  obtain ⟨rfl, rfl⟩ := herrors
  rfl

/-- Expressions are put together from equal parts as equal ones. -/
theorem CongruentExpressions.of_eq {cursors : Cursor → Cursor → Prop}
    {causes : SyntaxCause → SyntaxCause → Prop} {statements : Stmt → Stmt → Prop} :
    (⟨cursors, Eq, causes, Eq, statements⟩ : Likeness).CongruentExpressions where
  join hfirst hlast := by rw [hfirst, hlast]
  union hfirst hlast := by rw [hfirst, hlast]
  span htrees := congrArg Expr.span htrees
  isName {tree _} htrees := by
    obtain rfl := htrees
    cases tree with
    | name target => exact .inl ⟨target, target, rfl, rfl, rfl, rfl⟩
    | _ => exact .inr ⟨by rintro _ ⟨⟩, by rintro _ ⟨⟩⟩
  literal hspans := by rw [hspans]
  grouping hinner hspans := by rw [hinner, hspans]
  unary hoperand hspans := by rw [hoperand, hspans]
  binary hleft hright hspans := by rw [hleft, hright, hspans]
  logical hleft hright hspans := by rw [hleft, hright, hspans]
  name hidentifiers := by rw [hidentifiers.eq]
  assign htargets hvalues hspans := by rw [htargets.eq, hvalues, hspans]
  call hcallee harguments hspans := by
    rw [List.forall₂_eq_eq_eq] at harguments
    rw [hcallee, harguments, hspans]

theorem eq_of_rel {α : Type} {value value' : Option α} (hrel : Option.Rel Eq value value') :
    value = value' := by
  cases hrel with
  | none => rfl
  | some heq => rw [heq]

/-- Trees are put together from equal parts as equal ones. -/
theorem Congruent.of_eq {cursors : Cursor → Cursor → Prop}
    {causes : SyntaxCause → SyntaxCause → Prop} :
    (⟨cursors, Eq, causes, Eq, Eq⟩ : Likeness).Congruent where
  toCongruentExpressions := .of_eq
  expression hvalue := by rw [hvalue]
  print hvalue := by rw [hvalue]
  declare htarget hinitializer := by
    rw [htarget.eq, eq_of_rel hinitializer]
  block hbody := by
    rw [List.forall₂_eq_eq_eq] at hbody
    rw [hbody]
  conditional hcondition hthen helse := by
    rw [hcondition, hthen, eq_of_rel helse]
  loop hcondition hbody := by rw [hcondition, hbody]
  function hname hparameters hbody hspan := by
    have hparameters := hparameters.imp fun _ _ hidentifiers ↦ hidentifiers.eq
    rw [List.forall₂_eq_eq_eq] at hparameters hbody
    rw [hname.eq, hparameters, hbody, hspan]
  «return» hvalue hspan := by
    rw [eq_of_rel hvalue, hspan]

/-- Readings of the same tokens, with whatever bounds. -/
def same : Likeness := ⟨Eq, Eq, Eq, Eq, Eq⟩

theorem same_heldBySteps : same.HeldBySteps where
  congruent := .of_eq
  next_eq hcursors := by rw [hcursors]
  depth_eq hcursors := congrArg Cursor.depth hcursors
  place hcursors := congrArg Cursor.place hcursors
  cause _ := rfl
  unexpected kind hcursors :=
    congrArg (fun cursor : Cursor ↦ SyntaxCause.unexpectedToken kind cursor.next?) hcursors
  advance hcursors := congrArg Cursor.advance hcursors
  report hcursors herrors := congr (congrArg Cursor.report herrors.eq) hcursors
  resynchronize hcursors := congrArg Cursor.resynchronize hcursors
  within depth hcursors := by
    cases hcursors
    rfl

end Likeness

/-! ### Reading to the end -/

namespace Program

/-- More than there are tokens is bound enough: the bound makes no difference then. -/
theorem exists_forall_run_parse (tokens : List Token) : ∃ program last,
    ∀ bound, tokens.length < bound →
      (parse bound).run (.start tokens) = .done program last := by
  have hsame : Likeness.same.cursors (.start tokens) (.start tokens) := rfl
  obtain ⟨program, _, last, _, hrun, -⟩ := Likeness.same_heldBySteps.ofStart hsame
  refine ⟨program, last, fun bound hbound ↦ ?_⟩
  have hfits : Likeness.same.Fits (sufficientBound tokens.length) bound (.start tokens)
      (.start tokens) := ⟨hsame, Nat.lt_succ_self _, hbound⟩
  obtain ⟨_, program', _, last', hdone, hdone', hfollow, hprograms⟩ :=
    Likeness.same_heldBySteps.program hfits
  obtain ⟨rfl, rfl⟩ := Outcome.done.inj (hrun.symm.trans hdone)
  have hlast : last = last' := hfollow.cursors
  rw [show Likeness.same.statements = Eq from rfl, List.forall₂_eq_eq_eq] at hprograms
  rw [hdone', hlast, hprograms]

/-- Every list of tokens is read to its end. -/
theorem exists_run_parse (tokens : List Token) : ∃ program last,
    (parse (sufficientBound tokens.length)).run (.start tokens) = .done program last := by
  obtain ⟨program, last, hrun⟩ := exists_forall_run_parse tokens
  exact ⟨program, last, hrun _ (Nat.lt_succ_self _)⟩

/-- The errors found in a list of tokens. -/
def errorsOf (tokens : List Token) : List SyntaxError :=
  match ofTokens tokens with
  | .ok _ => []
  | .error errors => errors

variable {tokens : List Token} {program : Program} {last : Cursor}

theorem errorsOf_eq
    (hrun : (parse (sufficientBound tokens.length)).run (.start tokens) = .done program last) :
    errorsOf tokens = last.reported := by
  rw [errorsOf, ofTokens, hrun]
  cases hreported : last.reported <;> simp [hreported]

theorem ofTokens_eq_error
    (hrun : (parse (sufficientBound tokens.length)).run (.start tokens) = .done program last)
    (hreported : last.reported ≠ []) : ofTokens tokens = .error last.reported := by
  rw [ofTokens, hrun]
  simp [hreported]

/-- No errors are found in the tokens of a program alone. -/
theorem errorsOf_eq_nil_iff :
    errorsOf tokens = [] ↔ ∃ program, ofTokens tokens = .ok program := by
  obtain ⟨program, last, hrun⟩ := exists_run_parse tokens
  rw [errorsOf_eq hrun, ofTokens, hrun]
  cases hreported : last.reported <;> simp [hreported]

/-- A list of tokens that is rejected has an error. -/
theorem ne_nil_of_ofTokens {errors : List SyntaxError}
    (herrors : ofTokens tokens = .error errors) : errors ≠ [] := by
  rintro rfl
  have hnone : errorsOf tokens = [] := by rw [errorsOf, herrors]
  obtain ⟨program, hprogram⟩ := errorsOf_eq_nil_iff.mp hnone
  cases hprogram.symm.trans herrors

end Program

end Lox
