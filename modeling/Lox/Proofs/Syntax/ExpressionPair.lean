import Lox.Proofs.Syntax.Likeness
import Lox.Proofs.Syntax.ReadingInvariant

/-!
# Expressions read side by side

From cursors that are alike, with bounds that are larger than the numbers of tokens left, tokens,
lists and expressions are read alike (`Likeness.HeldBySteps.expression`). Each nesting and each
operator takes a token, which is why such bounds are enough.
-/

set_option autoImplicit false
set_option relaxedAutoImplicit false

namespace Lox

namespace Likeness

variable {alike : Likeness} {α β ω : Type} {first first' : Cursor} {limit limit' : Nat}

/-- Having no token left and having the end of the input left are taken for the same here, so two
cursors that agree up to this agree about every other kind. -/
theorem eq_some_iff_of_getD_eq {next next' : Option TokenKind}
    (hnext : next.getD .endOfInput = next'.getD .endOfInput) {kind : TokenKind}
    (hkind : kind ≠ .endOfInput) : next = some kind ↔ next' = some kind := by
  cases next <;> cases next' <;> simp_all [eq_comm]

namespace HeldBySteps

variable (h : alike.HeldBySteps)

include h

/-- Alike cursors have the same kind next, if it is not the end of the input. -/
theorem next?_iff (hcursors : alike.cursors first first') {kind : TokenKind}
    (hkind : kind ≠ .endOfInput) : first.next? = some kind ↔ first'.next? = some kind :=
  eq_some_iff_of_getD_eq (h.next_eq hcursors) hkind

/-- If no other token comes next, both readings are at the end of the input. -/
theorem ends (hcursors : alike.cursors first first')
    (hkind : ¬∃ kind, first.next? = some kind ∧ kind ≠ .endOfInput) :
    (first.next? = none ∨ first.next? = some .endOfInput) ∧
      (first'.next? = none ∨ first'.next? = some .endOfInput) := by
  have hnext := h.next_eq hcursors
  cases hfirst : first.next? <;> cases hfirst' : first'.next? <;> simp_all

theorem isAt_eq (hcursors : alike.cursors first first') {kind : TokenKind}
    (hkind : kind ≠ .endOfInput) : first.isAt kind = first'.isAt kind :=
  decide_eq_decide.mpr (h.next?_iff hcursors hkind)

theorem isAtEnd_eq (hcursors : alike.cursors first first') : first.isAtEnd = first'.isAtEnd := by
  have hnext := h.next_eq hcursors
  unfold Cursor.isAtEnd
  cases hfirst : first.next? <;> cases hfirst' : first'.next? <;> simp_all

/-- An operator is the same in both readings, for the end of the input is none. -/
theorem bind_eq (hcursors : alike.cursors first first') {ofToken? : TokenKind → Option ω}
    (hend : ofToken? .endOfInput = none) :
    first.next?.bind ofToken? = first'.next?.bind ofToken? := by
  have hnext := h.next_eq hcursors
  cases hfirst : first.next? <;> cases hfirst' : first'.next? <;> simp_all

/-- Alike cursors stay alike when the next token is passed. -/
theorem follow_advance (hcursors : alike.cursors first first') :
    alike.Follow first first' first.advance first'.advance :=
  ⟨h.advance hcursors, first.suffix_advance, first'.suffix_advance⟩

/-- A token that is passed on both sides makes room for one level of nesting less. -/
theorem fits_advance (hfits : alike.Fits (limit + 1) (limit' + 1) first first')
    {kind kind' : TokenKind} (hkind : first.next? = some kind)
    (hkind' : first'.next? = some kind') :
    alike.Fits limit limit' first.advance first'.advance := by
  have hlength := Cursor.length_rest_advance hkind
  have hlength' := Cursor.length_rest_advance hkind'
  have hlt := hfits.lt
  have hlt' := hfits.lt'
  exact ⟨h.advance hfits.cursors, by omega, by omega⟩

/-- Alike cursors stay alike when errors are reported that are alike. -/
theorem follow_report (hcursors : alike.cursors first first') {error error' : SyntaxError}
    (herrors : alike.Errors error error') :
    alike.Follow first first' (first.report error) (first'.report error') :=
  ⟨h.report hcursors herrors, List.suffix_refl _, List.suffix_refl _⟩

theorem follow_resynchronize (hcursors : alike.cursors first first') :
    alike.Follow first first' first.resynchronize first'.resynchronize :=
  ⟨h.resynchronize hcursors, first.suffix_resynchronize, first'.suffix_resynchronize⟩

/-- Errors that are reported where alike cursors stand are alike. -/
theorem errors_here (hcursors : alike.cursors first first') (cause : SyntaxCause) :
    alike.Errors ⟨cause, first.place⟩ ⟨cause, first'.place⟩ :=
  ⟨h.cause cause, h.place hcursors⟩

/-- Reading that fails at alike cursors fails with alike errors. -/
theorem failHere {yields : α → α → Cursor → Cursor → Prop} {cause cause' : SyntaxCause}
    (hcursors : alike.cursors first first') (hcause : alike.causes cause cause') :
    alike.Agree first first' (Parse.failHere cause) (Parse.failHere cause') yields :=
  .inr ⟨_, _, first, first', rfl, rfl, .refl hcursors, hcause, h.place hcursors⟩

theorem reported (hcursors : alike.cursors first first') {error error' : SyntaxError}
    (herrors : alike.Errors error error') :
    alike.Agree first first' (Parse.report error) (Parse.report error') fun _ _ _ _ ↦ True :=
  (Agree.modify (h.follow_report hcursors herrors)).mono fun _ _ _ _ _ _ ↦ True.intro

theorem reportHere (hcursors : alike.cursors first first') (cause : SyntaxCause) :
    alike.Agree first first' (Parse.reportHere cause) (Parse.reportHere cause) fun _ _ _ _ ↦ True :=
  (Agree.modify (h.follow_report hcursors (h.errors_here hcursors cause))).mono
    fun _ _ _ _ _ _ ↦ True.intro

/-- The next tokens are passed on both sides, whatever they are. -/
theorem pass (hcursors : alike.cursors first first') :
    alike.Agree first first' Parse.advance Parse.advance fun _ _ last last' ↦
      last = first.advance ∧ last' = first'.advance :=
  .modify (h.follow_advance hcursors)

/-- A token is passed on both sides, or it is missing on both and both cursors stay. -/
theorem accept (hcursors : alike.cursors first first') {kind : TokenKind}
    (hkind : kind ≠ .endOfInput) :
    alike.Agree first first' (Parse.accept kind) (Parse.accept kind) fun found found' last last' ↦
      (found = true ∧ found' = true ∧ first.next? = some kind ∧ first'.next? = some kind ∧
        last = first.advance ∧ last' = first'.advance) ∨
      (found = false ∧ found' = false ∧ last = first ∧ last' = first') := by
  have heq := h.isAt_eq hcursors hkind
  unfold Agree Finish
  rw [Parse.accept, Bounded.run_update, Bounded.run_update]
  by_cases hat : first.isAt kind
  · have hat' : first'.isAt kind := heq ▸ hat
    rw [if_pos hat, if_pos hat']
    exact .inl ⟨_, _, _, _, rfl, rfl, h.follow_advance hcursors,
      .inl ⟨rfl, rfl, of_decide_eq_true hat, of_decide_eq_true hat', rfl, rfl⟩⟩
  · have hat' : ¬first'.isAt kind := heq ▸ hat
    rw [if_neg hat, if_neg hat']
    exact .inl ⟨_, _, _, _, rfl, rfl, .refl hcursors, .inr ⟨rfl, rfl, rfl, rfl⟩⟩

/-- A branch on whether the next token is of a given kind, in which case it is passed. -/
theorem ifAccept {kind : TokenKind} {yes yes' no no' : Parse β}
    {result : β → β → Cursor → Cursor → Prop} (hcursors : alike.cursors first first')
    (hkind : kind ≠ .endOfInput)
    (hyes : first.next? = some kind → first'.next? = some kind →
      alike.Agree first.advance first'.advance yes yes' result)
    (hno : alike.Agree first first' no no' result) :
    alike.Agree first first' (do if ← Parse.accept kind then yes else no)
      (do if ← Parse.accept kind then yes' else no') result := by
  refine (h.accept hcursors hkind).bind ?_
  rintro found found' middle middle' - (⟨rfl, rfl, hnext, hnext', rfl, rfl⟩ | ⟨rfl, rfl, rfl, rfl⟩)
  · exact hyes hnext hnext'
  · exact hno

/-- A branch on whether the next token is of a given kind, which is not passed. -/
theorem ifAt {kind : TokenKind} {next next' : Bool → Parse β}
    {result : β → β → Cursor → Cursor → Prop} (hcursors : alike.cursors first first')
    (hkind : kind ≠ .endOfInput)
    (hnext : ∀ found, alike.Agree first first' (next found) (next' found) result) :
    alike.Agree first first' (Parse.isAt kind >>= next) (Parse.isAt kind >>= next') result := by
  refine .view ?_
  rw [← h.isAt_eq hcursors hkind]
  exact hnext _

/-- A token that is expected is passed in both readings or in none. -/
theorem expect (hcursors : alike.cursors first first') {kind : TokenKind}
    (hkind : kind ≠ .endOfInput) :
    alike.Agree first first' (Parse.expect kind) (Parse.expect kind) fun span span' last last' ↦
      alike.spans span span' ∧ first.next? = some kind ∧ first'.next? = some kind ∧
        last = first.advance ∧ last' = first'.advance := by
  unfold Parse.expect
  refine .view (h.ifAccept hcursors hkind (fun hnext hnext' ↦ ?_) ?_)
  · refine .gets (h.advance hcursors) ⟨?_, hnext, hnext', rfl, rfl⟩
    rw [Cursor.passedSpan_advance hnext, Cursor.passedSpan_advance hnext']
    exact h.place hcursors
  · exact h.failHere hcursors (h.unexpected kind hcursors)

/-- A name is read on both sides, with identifiers that are alike, or it is missing on both. -/
theorem identifier (place : NamePlace) (hcursors : alike.cursors first first') :
    alike.Agree first first' (Parse.identifier place) (Parse.identifier place)
      fun identifier identifier' _ _ ↦ alike.Identifiers identifier identifier' := by
  unfold Parse.identifier
  refine .view ?_
  by_cases hname : ∃ name, first.next? = some (.identifier name)
  · obtain ⟨name, hname⟩ := hname
    have hname' := (h.next?_iff hcursors (by simp)).mp hname
    rw [hname, hname']
    refine (h.pass hcursors).bind ?_
    rintro _ _ _ _ hfollow ⟨rfl, rfl⟩
    refine .view (.pure hfollow.cursors ⟨rfl, ?_⟩)
    rw [Cursor.passedSpan_advance hname, Cursor.passedSpan_advance hname']
    exact h.place hcursors
  · have hname' : ¬∃ name, first'.next? = some (.identifier name) := by
      rintro ⟨name, hname'⟩
      exact hname ⟨name, (h.next?_iff hcursors (by simp)).mpr hname'⟩
    split
    · next name hnext => exact absurd ⟨name, hnext⟩ hname
    · split
      · next name hnext => exact absurd ⟨name, hnext⟩ hname'
      · exact h.failHere hcursors (h.cause _)

/-- Lists of items are read side by side, item by item. Both are counted alike, so that one item too
many is one too many on both sides. -/
theorem separated {item item' : Parse α} {values : α → α → Prop}
    (hitem : alike.Reads limit limit' values item item') (tooMany : SyntaxCause)
    {bound bound' : Nat} (count : Nat) (hfits : alike.Fits limit limit' first first')
    (hbound : alike.Fits bound bound' first first') :
    alike.Agree first first' (Parse.separated item tooMany bound count)
      (Parse.separated item' tooMany bound' count) fun items items' _ _ ↦
        List.Forall₂ values items items' := by
  induction bound generalizing bound' count first first' with
  | zero => exact absurd hbound.lt (Nat.not_lt_zero _)
  | succ bound ih =>
    obtain ⟨_, bound', -, rfl⟩ := hbound.exists_succ
    have hitems {middle middle' : Cursor} (hfollow : alike.Follow first first' middle middle') :
        alike.Agree middle middle'
          (item >>= fun value ↦ Parse.accept (.symbol .comma) >>= fun accepted ↦
            if accepted then Parse.separated item tooMany bound (count + 1) >>= fun others ↦
              pure (value :: others)
            else pure [value])
          (item' >>= fun value ↦ Parse.accept (.symbol .comma) >>= fun accepted ↦
            if accepted then Parse.separated item' tooMany bound' (count + 1) >>= fun others ↦
              pure (value :: others)
            else pure [value]) fun items items' _ _ ↦ List.Forall₂ values items items' := by
      refine (hitem _ _ (hfits.follow hfollow)).bind ?_
      intro value value' last last' hlast hvalue
      have hreached := hfollow.trans hlast
      refine h.ifAccept hlast.cursors (by simp) (fun hnext hnext' ↦ ?_)
        (.pure hlast.cursors (.cons hvalue .nil))
      have hpassed := h.fits_advance (hbound.follow hreached) hnext hnext'
      have hothers := ih (count + 1)
        ((hfits.follow hreached).follow (h.follow_advance hlast.cursors)) hpassed
      exact hothers.bind fun _ _ _ _ hend hvalues ↦ .pure hend.cursors (.cons hvalue hvalues)
    simp only [Parse.separated]
    split
    · exact (h.reportHere hfits.cursors tooMany).bind fun _ _ _ _ hfollow _ ↦ hitems hfollow
    · exact hitems (.refl hfits.cursors)

/-- A list in parentheses, of which the first has been passed. -/
theorem parenthesized {item item' : Parse α} {values : α → α → Prop}
    (hitem : alike.Reads limit limit' values item item') (tooMany : SyntaxCause)
    {bound bound' : Nat} (hfits : alike.Fits limit limit' first first')
    (hbound : alike.Fits bound bound' first first') :
    alike.Agree first first' (Parse.parenthesized item tooMany bound)
      (Parse.parenthesized item' tooMany bound') fun list list' _ _ ↦
        List.Forall₂ values list.1 list'.1 ∧ alike.spans list.2 list'.2 := by
  unfold Parse.parenthesized
  refine h.ifAt hfits.cursors (by simp) fun found ↦ ?_
  have hclose (items items' : List α) (hitems : List.Forall₂ values items items')
      {middle middle' : Cursor} (hmiddle : alike.cursors middle middle') :
      alike.Agree middle middle'
        (Parse.expect (.symbol .rightParenthesis) >>= fun close ↦ pure (items, close))
        (Parse.expect (.symbol .rightParenthesis) >>= fun close ↦ pure (items', close))
        fun list list' _ _ ↦ List.Forall₂ values list.1 list'.1 ∧ alike.spans list.2 list'.2 :=
    (h.expect hmiddle (by simp)).bind fun close close' _ _ hlast hspans ↦
      .pure hlast.cursors ⟨hitems, hspans.1⟩
  split
  · exact hclose [] [] .nil hfits.cursors
  · exact (h.separated hitem tooMany 0 hfits hbound).bind fun items items' _ _ hmiddle hitems ↦
      hclose items items' hitems hmiddle.cursors

/-! ### Expressions -/

section Expressions

variable {ofToken? : TokenKind → Option ω} {join : ω → Expr → Expr → Expr}
  {operand operand' : Parse Expr} {bound bound' : Nat}

/-- Chains go on side by side from alike left operands, since the same operator is found on both
sides. -/
theorem chainFrom (hend : ofToken? .endOfInput = none)
    (hjoin : ∀ operator {left left' right right' : Expr}, alike.expressions left left' →
      alike.expressions right right' →
        alike.expressions (join operator left right) (join operator left' right'))
    (hoperand : alike.Reads limit limit' alike.expressions operand operand') {left left' : Expr}
    (hleft : alike.expressions left left') (hfits : alike.Fits limit limit' first first')
    (hbound : alike.Fits bound bound' first first') :
    alike.Agree first first' (Parse.chainFrom ofToken? join operand bound left)
      (Parse.chainFrom ofToken? join operand' bound' left') fun value value' _ _ ↦
        alike.expressions value value' := by
  induction bound generalizing bound' left left' first first' with
  | zero => exact absurd hbound.lt (Nat.not_lt_zero _)
  | succ bound ih =>
    obtain ⟨_, bound', -, rfl⟩ := hbound.exists_succ
    simp only [Parse.chainFrom]
    refine .view ?_
    rw [← h.bind_eq hfits.cursors hend]
    cases hoperator : first.next?.bind ofToken? with
    | none => exact .pure hfits.cursors hleft
    | some operator =>
      have hoperator' := (h.bind_eq hfits.cursors hend).symm.trans hoperator
      obtain ⟨kind, hnext, -⟩ := Option.bind_eq_some_iff.mp hoperator
      obtain ⟨kind', hnext', -⟩ := Option.bind_eq_some_iff.mp hoperator'
      refine (h.pass hfits.cursors).bind ?_
      rintro _ _ _ _ hpassed ⟨rfl, rfl⟩
      refine (hoperand _ _ (hfits.follow hpassed)).bind fun right right' _ _ hlast hright ↦ ?_
      have hfewer := h.fits_advance hbound hnext hnext'
      exact ih (hjoin operator hleft hright) ((hfits.follow hpassed).follow hlast)
        (hfewer.follow hlast)

/-- A chain of operators of one level, whose operands are read side by side. -/
theorem chain (hend : ofToken? .endOfInput = none)
    (hjoin : ∀ operator {left left' right right' : Expr}, alike.expressions left left' →
      alike.expressions right right' →
        alike.expressions (join operator left right) (join operator left' right'))
    (hle : limit ≤ bound) (hle' : limit' ≤ bound')
    (hoperand : alike.Reads limit limit' alike.expressions operand operand') :
    alike.Reads limit limit' alike.expressions (Parse.chain ofToken? join bound operand)
      (Parse.chain ofToken? join bound' operand') := by
  intro first first' hfits
  refine (hoperand _ _ hfits).bind fun left left' _ _ hmiddle hleft ↦ ?_
  have hrest := hfits.follow hmiddle
  exact h.chainFrom hend hjoin hoperand hleft hrest (hrest.mono hle hle')

/-- The binary tree of alike operands is alike, and so is the place around them. -/
theorem joinBinary (operator : BinaryOperator) {left left' right right' : Expr}
    (hleft : alike.expressions left left') (hright : alike.expressions right right') :
    alike.expressions (.joinBinary operator left right) (.joinBinary operator left' right') :=
  have hspans := h.congruent.union (h.congruent.span hleft) (h.congruent.span hright)
  h.congruent.binary hleft hright hspans

/-- The logical tree of alike operands is alike. -/
theorem joinLogical (operator : LogicalOperator) {left left' right right' : Expr}
    (hleft : alike.expressions left left') (hright : alike.expressions right right') :
    alike.expressions (.joinLogical operator left right) (.joinLogical operator left' right') :=
  have hspans := h.congruent.union (h.congruent.span hleft) (h.congruent.span hright)
  h.congruent.logical hleft hright hspans

/-- An operator that cannot be chained is found on both sides or on neither, and so is a second one
behind it. -/
theorem single {ofToken? : TokenKind → Option BinaryOperator} (hend : ofToken? .endOfInput = none)
    (hoperand : alike.Reads limit limit' alike.expressions operand operand') :
    alike.Reads limit limit' alike.expressions (Parse.single ofToken? operand)
      (Parse.single ofToken? operand') := by
  intro first first' hfits
  unfold Parse.single
  refine (hoperand _ _ hfits).bind fun left left' middle middle' hmiddle hleft ↦ .view ?_
  rw [← h.bind_eq hmiddle.cursors hend]
  cases middle.next?.bind ofToken? with
  | none => exact .pure hmiddle.cursors hleft
  | some operator =>
    refine (h.pass hmiddle.cursors).bind ?_
    rintro _ _ _ _ hpassed ⟨rfl, rfl⟩
    have hrest := (hfits.follow hmiddle).follow hpassed
    refine (hoperand _ _ hrest).bind fun right right' last last' hlast hright ↦ .view ?_
    rw [← h.bind_eq hlast.cursors hend]
    cases last.next?.bind ofToken? with
    | none => exact .pure hlast.cursors (h.joinBinary operator hleft hright)
    | some second => exact h.failHere hlast.cursors (h.cause _)

variable {expression expression' : Parse Expr}

/-- Primary expressions begin with tokens of the same kind. What is in parentheses is nested more
deeply, with one token less to come. At the end of the input nothing starts an expression, whether
there is a token for it or not. -/
theorem primary (hexpression : alike.Reads limit limit' alike.expressions expression expression')
    (hfits : alike.Fits (limit + 1) (limit' + 1) first first') :
    alike.Agree first first' (Parse.primary expression) (Parse.primary expression')
      fun value value' _ _ ↦ alike.expressions value value' := by
  have hplace := h.place hfits.cursors
  unfold Parse.primary
  refine .view ?_
  by_cases hkind : ∃ kind, first.next? = some kind ∧ kind ≠ .endOfInput
  · obtain ⟨kind, hnext, hkind⟩ := hkind
    have hnext' := (h.next?_iff hfits.cursors hkind).mp hnext
    rw [hnext, hnext']
    refine .view ?_
    split
    · next value =>
      refine (h.pass hfits.cursors).bind ?_
      rintro _ _ _ _ hpassed ⟨rfl, rfl⟩
      exact .pure hpassed.cursors (h.congruent.literal hplace)
    · next name =>
      refine (h.pass hfits.cursors).bind ?_
      rintro _ _ _ _ hpassed ⟨rfl, rfl⟩
      exact .pure hpassed.cursors (h.congruent.name ⟨rfl, hplace⟩)
    · refine (h.pass hfits.cursors).bind ?_
      rintro _ _ _ _ _ ⟨rfl, rfl⟩
      have hinner := hexpression _ _ (h.fits_advance hfits hnext hnext')
      refine hinner.bind fun inner inner' _ _ hmiddle hvalues ↦ ?_
      refine (h.expect hmiddle.cursors (by simp)).bind fun close close' _ _ hlast hclose ↦ ?_
      exact .pure hlast.cursors (h.congruent.grouping hvalues (h.congruent.join hplace hclose.1))
    all_goals exact h.failHere hfits.cursors (h.cause _)
  · have hend := h.next_eq hfits.cursors
    have hfails : alike.Agree first first' (Parse.failHere .missingExpression)
        (Parse.failHere .missingExpression) fun value value' _ _ ↦ alike.expressions value value' :=
      h.failHere hfits.cursors (h.cause _)
    rcases h.ends hfits.cursors hkind with ⟨hnext | hnext, hnext' | hnext'⟩ <;>
      rw [hnext, hnext'] <;> exact hfails

/-- Argument lists follow on both sides or on neither. -/
theorem callFrom (hexpression : alike.Reads limit limit' alike.expressions expression expression')
    {callee callee' : Expr} (hcallee : alike.expressions callee callee')
    (hfits : alike.Fits (limit + 1) (limit' + 1) first first')
    (hbound : alike.Fits bound bound' first first') :
    alike.Agree first first' (Parse.callFrom expression bound callee)
      (Parse.callFrom expression' bound' callee') fun value value' _ _ ↦
        alike.expressions value value' := by
  induction bound generalizing bound' callee callee' first first' with
  | zero => exact absurd hbound.lt (Nat.not_lt_zero _)
  | succ bound ih =>
    obtain ⟨_, bound', -, rfl⟩ := hbound.exists_succ
    simp only [Parse.callFrom]
    refine h.ifAccept hfits.cursors (by simp) (fun hnext hnext' ↦ ?_) ?_
    · have hrest := h.fits_advance hfits hnext hnext'
      have hfewer := h.fits_advance hbound hnext hnext'
      refine (h.parenthesized hexpression _ hrest hfewer.succ).bind ?_
      rintro ⟨arguments, close⟩ ⟨arguments', close'⟩ middle middle' hmiddle ⟨hvalues, hclose⟩
      have hspans := h.congruent.join (h.congruent.span hcallee) hclose
      exact ih (h.congruent.call hcallee hvalues hspans) (hrest.follow hmiddle).succ
        (hfewer.follow hmiddle)
    · refine h.ifAt hfits.cursors (by simp) fun found ↦ ?_
      split
      · exact h.failHere hfits.cursors (h.cause _)
      · exact .pure hfits.cursors hcallee

/-- Each unary operator takes a token, and its operand is read with the bounds that this leaves. -/
theorem unary (hexpression : alike.Reads limit limit' alike.expressions expression expression')
    (hfits : alike.Fits (limit + 1) (limit' + 1) first first')
    (hbound : alike.Fits bound bound' first first') :
    alike.Agree first first' (Parse.unary expression bound) (Parse.unary expression' bound')
      fun value value' _ _ ↦ alike.expressions value value' := by
  induction bound generalizing bound' first first' with
  | zero => exact absurd hbound.lt (Nat.not_lt_zero _)
  | succ bound ih =>
    obtain ⟨_, bound', -, rfl⟩ := hbound.exists_succ
    have hend : UnaryOperator.ofToken? .endOfInput = none := rfl
    simp only [Parse.unary]
    refine .view ?_
    rw [← h.bind_eq hfits.cursors hend]
    cases hoperator : first.next?.bind UnaryOperator.ofToken? with
    | none =>
      refine (h.primary hexpression hfits).bind fun callee callee' _ _ hmiddle hcallee ↦ ?_
      exact h.callFrom hexpression hcallee (hfits.follow hmiddle) (hbound.follow hmiddle)
    | some operator =>
      have hoperator' := (h.bind_eq hfits.cursors hend).symm.trans hoperator
      obtain ⟨kind, hnext, -⟩ := Option.bind_eq_some_iff.mp hoperator
      obtain ⟨kind', hnext', -⟩ := Option.bind_eq_some_iff.mp hoperator'
      refine .view ((h.pass hfits.cursors).bind ?_)
      rintro _ _ _ _ _ ⟨rfl, rfl⟩
      have hrest := h.fits_advance hfits hnext hnext'
      have hfewer := h.fits_advance hbound hnext hnext'
      refine (ih hrest.succ hfewer).bind fun value value' _ _ hlast hvalues ↦ ?_
      have hspans := h.congruent.join (h.place hfits.cursors) (h.congruent.span hvalues)
      exact .pure hlast.cursors (h.congruent.unary hvalues hspans)

/-- The six levels of operators between assignment and unary operators, each from the one below. -/
theorem logical (hexpression : alike.Reads limit limit' alike.expressions expression expression') :
    alike.Reads (limit + 1) (limit' + 1) alike.expressions
      (Parse.logical expression (limit + 1)) (Parse.logical expression' (limit' + 1)) := by
  have hunary : alike.Reads (limit + 1) (limit' + 1) alike.expressions
      (Parse.unary expression (limit + 1)) (Parse.unary expression' (limit' + 1)) :=
    fun _ _ hfits ↦ h.unary hexpression hfits hfits
  have hfactor :=
    h.chain (rfl : BinaryOperator.ofFactorToken? _ = none) h.joinBinary (Nat.le_refl _)
    (Nat.le_refl _) hunary
  have hterm := h.chain (rfl : BinaryOperator.ofTermToken? _ = none) h.joinBinary (Nat.le_refl _)
    (Nat.le_refl _) hfactor
  have hequality := h.single (rfl : BinaryOperator.ofEqualityToken? _ = none)
    (h.single (rfl : BinaryOperator.ofComparisonToken? _ = none) hterm)
  have hand := h.chain (rfl : LogicalOperator.ofAndToken? _ = none) h.joinLogical (Nat.le_refl _)
    (Nat.le_refl _) hequality
  exact h.chain (rfl : LogicalOperator.ofOrToken? _ = none) h.joinLogical (Nat.le_refl _)
    (Nat.le_refl _) hand

/-- An assignment is found on both sides or on neither. On its left there is a name on both sides or
on neither, and in the latter case alike errors are reported. -/
theorem assignment
    (hexpression : alike.Reads limit limit' alike.expressions expression expression') :
    alike.Reads (limit + 1) (limit' + 1) alike.expressions
      (Parse.assignment expression (limit + 1)) (Parse.assignment expression' (limit' + 1)) := by
  intro first first' hfits
  unfold Parse.assignment
  refine (h.logical hexpression _ _ hfits).bind fun target target' _ _ hmiddle htarget ↦ ?_
  refine h.ifAccept hmiddle.cursors (by simp) (fun hnext hnext' ↦ ?_)
    (.pure hmiddle.cursors htarget)
  have hrest := h.fits_advance (hfits.follow hmiddle) hnext hnext'
  refine (hexpression _ _ hrest).bind fun value value' _ _ hlast hvalue ↦ ?_
  rcases h.congruent.isName htarget with ⟨name, name', rfl, rfl, hnames⟩ | ⟨hnot, hnot'⟩
  · have hspans := h.congruent.union hnames.spans (h.congruent.span hvalue)
    exact .pure hlast.cursors (h.congruent.assign hnames hvalue hspans)
  · have herrors : alike.Errors ⟨.invalidAssignmentTarget, target.span⟩
        ⟨.invalidAssignmentTarget, target'.span⟩ := ⟨h.cause _, h.congruent.span htarget⟩
    split
    · next name => exact absurd rfl (hnot name)
    · exact (h.reported hlast.cursors herrors).bind fun _ _ _ _ hend _ ↦ .pure hend.cursors htarget

end Expressions

/-- Expressions are read alike from alike cursors, whatever the two bounds are, if they are larger
than the numbers of tokens left. The induction is on one of the bounds. -/
theorem expression (limit limit' : Nat) :
    alike.Reads limit limit' alike.expressions (Parse.expression limit)
      (Parse.expression limit') := by
  induction limit generalizing limit' with
  | zero => exact fun _ _ hfits ↦ absurd hfits.lt (Nat.not_lt_zero _)
  | succ limit ih =>
    cases limit' with
    | zero => exact fun _ _ hfits ↦ absurd hfits.lt' (Nat.not_lt_zero _)
    | succ limit' => exact h.assignment (ih limit')

end HeldBySteps

end Likeness

end Lox
