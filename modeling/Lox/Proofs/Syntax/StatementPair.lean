import Lox.Parsing.Program
import Lox.Proofs.Syntax.ExpressionPair

/-!
# Statements read side by side

From cursors that are alike, with bounds that are larger than the numbers of tokens left, statements
are read alike, and so are programs, which are always read to their end
(`Likeness.HeldBySteps.statement`, `Likeness.HeldBySteps.program`). A list of statements goes on
behind each of them, whether it has been read or not, and each takes a token
(`Likeness.HeldBySteps.statements`).
-/

set_option autoImplicit false
set_option relaxedAutoImplicit false

namespace Lox

namespace Likeness

namespace HeldBySteps

variable {alike : Likeness} {α β : Type} {first first' : Cursor} {limit limit' : Nat}
  (h : alike.HeldBySteps)

include h

/-- A list goes on behind its first statement, whether that has been read or not, if statements
behind it are read to their end. -/
theorem statementsOfFirst {inBlock : Bool} {statement statement' : Parse Stmt} {bound bound' : Nat}
    (hnot : (first.isAtEnd || inBlock && first.isAt (.symbol .rightBrace)) = false)
    (hnot' : (first'.isAtEnd || inBlock && first'.isAt (.symbol .rightBrace)) = false)
    (hlt : first.rest.length < bound + 1) (hlt' : first'.rest.length < bound' + 1)
    (hfirst : alike.Agree first first' statement statement' fun value value' last last' ↦
      alike.statements value value' ∧ Ahead first first' last last')
    (hothers : ∀ last last', alike.Follow first first' last last' →
      alike.Fits bound bound' last last' →
        alike.Finish last last' (Parse.statements inBlock statement bound)
          (Parse.statements inBlock statement' bound') fun values values' _ _ ↦
            List.Forall₂ alike.statements values values') :
    alike.Finish first first' (Parse.statements inBlock statement (bound + 1))
      (Parse.statements inBlock statement' (bound' + 1)) fun values values' _ _ ↦
        List.Forall₂ alike.statements values values' := by
  simp only [Parse.statements]
  refine .view ?_
  rw [hnot, hnot', if_neg Bool.false_ne_true, if_neg Bool.false_ne_true]
  have hne := Cursor.ne_nil_of_isAtEnd_eq (Bool.or_eq_false_iff.mp hnot).1
  have hne' := Cursor.ne_nil_of_isAtEnd_eq (Bool.or_eq_false_iff.mp hnot').1
  refine hfirst.attempt.bind ?_
  rintro _ _ middle middle' hmiddle (⟨value, value', rfl, rfl, hvalue, hahead⟩ |
    ⟨error, error', rfl, rfl, herrors⟩)
  · have hfewer : alike.Fits bound bound' middle middle' :=
      ⟨hmiddle.cursors, by have := hahead.lt; omega, by have := hahead.lt'; omega⟩
    exact (hothers _ _ hmiddle hfewer).bind fun _ _ _ _ hlast hvalues ↦
      .pure hlast.cursors (.cons hvalue hvalues)
  · have hreported := h.follow_report hmiddle.cursors herrors
    refine (Finish.modify hreported).bind ?_
    rintro _ _ _ _ - ⟨rfl, rfl⟩
    have hskipped := h.follow_resynchronize hreported.cursors
    refine (Finish.modify hskipped).bind ?_
    rintro _ _ _ _ - ⟨rfl, rfl⟩
    have hlength := Cursor.length_resynchronize_lt (hreported.suffix.trans hmiddle.suffix) hne
    have hlength' := Cursor.length_resynchronize_lt (hreported.suffix'.trans hmiddle.suffix') hne'
    exact hothers _ _ ((hmiddle.trans hreported).trans hskipped)
      ⟨hskipped.cursors, by omega, by omega⟩

/-- A list of statements is always read to its end. -/
theorem statements (inBlock : Bool) {statement statement' : Parse Stmt}
    (hstatement : alike.Consumes limit limit' alike.statements statement statement')
    {bound bound' : Nat} (hfits : alike.Fits limit limit' first first')
    (hbound : alike.Fits bound bound' first first') :
    alike.Finish first first' (Parse.statements inBlock statement bound)
      (Parse.statements inBlock statement' bound') fun values values' _ _ ↦
        List.Forall₂ alike.statements values values' := by
  induction bound generalizing bound' first first' with
  | zero => exact absurd hbound.lt (Nat.not_lt_zero _)
  | succ bound ih =>
    obtain ⟨_, bound', -, rfl⟩ := hbound.exists_succ
    have hclose : first.isAt (.symbol .rightBrace) = first'.isAt (.symbol .rightBrace) :=
      h.isAt_eq hfits.cursors (by simp)
    have hstop := h.isAtEnd_eq hfits.cursors
    cases hnot : first.isAtEnd || inBlock && first.isAt (.symbol .rightBrace) with
    | true =>
      simp only [Parse.statements]
      refine .view ?_
      rw [← hstop, ← hclose, hnot]
      exact .pure hfits.cursors .nil
    | false =>
      refine h.statementsOfFirst hnot (by rw [← hstop, ← hclose, hnot]) hbound.lt hbound.lt'
        (hstatement _ _ hfits) fun last last' hlast hfewer ↦ ?_
      exact ih (hfits.follow hlast) hfewer

section Nested

variable {statement statement' : Parse Stmt}

/-- Statements in braces, of which the second is passed last. -/
theorem block (hstatement : alike.Consumes limit limit' alike.statements statement statement')
    (hfits : alike.Fits (limit + 1) (limit' + 1) first first') :
    alike.Agree first first' (Parse.block statement (limit + 1))
      (Parse.block statement' (limit' + 1)) fun body body' last last' ↦
        (List.Forall₂ alike.statements body body' ∧
          alike.spans last.passedSpan last'.passedSpan) ∧ Ahead first first' last last' := by
  unfold Parse.block
  refine (h.expect hfits.cursors (by simp)).bind ?_
  rintro _ _ _ _ - ⟨-, hopen, hopen', rfl, rfl⟩
  have hrest := h.fits_advance hfits hopen hopen'
  suffices hbody : alike.Agree first.advance first'.advance _ _ fun body body' last last' ↦
      List.Forall₂ alike.statements body body' ∧ alike.spans last.passedSpan last'.passedSpan from
    hbody.ahead hopen hopen'
  refine Agree.bind (.inl (h.statements true hstatement hrest hrest.succ)) ?_
  intro body body' middle middle' hmiddle hvalues
  refine (h.expect hmiddle.cursors (by simp)).bind ?_
  rintro _ _ _ _ hlast ⟨-, hclose, hclose', rfl, rfl⟩
  refine .pure hlast.cursors ⟨hvalues, ?_⟩
  rw [Cursor.passedSpan_advance hclose, Cursor.passedSpan_advance hclose']
  exact h.place hmiddle.cursors

theorem insideFunction {body body' : Parse α} {values : α → α → Prop}
    (hcursors : alike.cursors first first')
    (hbody : ∀ inner inner', alike.cursors inner inner' → inner.rest = first.rest →
      inner'.rest = first'.rest → alike.Agree inner inner' body body' fun value value' last last' ↦
        values value value' ∧ alike.spans last.passedSpan last'.passedSpan) :
    alike.Agree first first' (Parse.insideFunction body) (Parse.insideFunction body')
      fun value value' last last' ↦
        values value value' ∧ alike.spans last.passedSpan last'.passedSpan := by
  have hinner : alike.cursors { first with depth := first.depth + 1 }
      { first' with depth := first'.depth + 1 } := by
    rw [h.depth_eq hcursors]
    exact h.within _ hcursors
  refine (hbody _ _ hinner rfl rfl).insideFunction (fun {last last'} hlast ↦ ?_)
    fun hvalues ↦ hvalues
  rw [h.depth_eq hlast]
  exact h.within _ hlast

/-- A function declaration, of which the keyword has been passed. -/
theorem functionDeclaration
    (hstatement : alike.Consumes limit limit' alike.statements statement statement')
    (hfits : alike.Fits (limit + 1) (limit' + 1) first first')
    (hkeyword : alike.spans first.passedSpan first'.passedSpan) :
    alike.Agree first first' (Parse.functionDeclaration statement (limit + 1))
      (Parse.functionDeclaration statement' (limit' + 1)) fun tree tree' _ _ ↦
        alike.statements tree tree' := by
  have hparameter (bound bound' : Nat) : alike.Reads bound bound' alike.Identifiers
      (Parse.identifier .parameter) (Parse.identifier .parameter) :=
    fun _ _ hfits ↦ h.identifier _ hfits.cursors
  unfold Parse.functionDeclaration
  refine .view ((h.identifier _ hfits.cursors).bind fun name name' _ _ hnamed hnames ↦ ?_)
  refine (h.expect hnamed.cursors (by simp)).bind fun _ _ _ _ hopened _ ↦ ?_
  have hopen := hfits.follow (hnamed.trans hopened)
  refine (h.parenthesized (hparameter _ _) _ hopen hopen).bind ?_
  rintro ⟨parameters, _⟩ ⟨parameters', _⟩ middle middle' hmiddle ⟨hparameters, -⟩
  have hlimits := hopen.follow hmiddle
  have hbody : alike.Agree middle middle'
      (Parse.insideFunction (Parse.block statement (limit + 1)))
      (Parse.insideFunction (Parse.block statement' (limit' + 1))) fun body body' last last' ↦
        List.Forall₂ alike.statements body body' ∧ alike.spans last.passedSpan last'.passedSpan :=
    h.insideFunction hmiddle.cursors fun inner inner' hinner hrest hrest' ↦
      (h.block hstatement ⟨hinner, hrest ▸ hlimits.lt, hrest' ▸ hlimits.lt'⟩).mono
        fun _ _ _ _ _ hvalues ↦ hvalues.1
  refine hbody.bind fun body body' _ _ hlast hvalues ↦ .view (.pure hlast.cursors ?_)
  exact h.congruent.function hnames hparameters hvalues.1 (h.congruent.join hkeyword hvalues.2)

end Nested

section Simple

variable {bound bound' : Nat}

/-- An expression and a semicolon. -/
theorem terminated {convert : Expr → Stmt}
    (hconvert : ∀ {value value' : Expr}, alike.expressions value value' →
      alike.statements (convert value) (convert value'))
    (hfits : alike.Fits bound bound' first first') :
    alike.Agree first first'
      (Parse.expression bound >>= fun value ↦ Parse.expect (.symbol .semicolon) >>= fun _ ↦
        pure (convert value))
      (Parse.expression bound' >>= fun value ↦ Parse.expect (.symbol .semicolon) >>= fun _ ↦
        pure (convert value)) fun tree tree' last last' ↦
          alike.statements tree tree' ∧ Ahead first first' last last' := by
  refine (h.expression bound bound' _ _ hfits).bind fun value value' _ _ hmiddle hvalues ↦ ?_
  refine (h.expect hmiddle.cursors (by simp)).bind ?_
  rintro _ _ _ _ hlast ⟨-, hclose, hclose', rfl, rfl⟩
  refine .pure hlast.cursors ⟨hconvert hvalues, ?_, ?_⟩
  · have hlength := Cursor.length_rest_advance hclose
    have hle := hmiddle.suffix.length_le
    omega
  · have hlength := Cursor.length_rest_advance hclose'
    have hle := hmiddle.suffix'.length_le
    omega

theorem variableDeclaration (hfits : alike.Fits bound bound' first first') :
    alike.Agree first first' (Parse.variableDeclaration bound) (Parse.variableDeclaration bound')
      fun tree tree' _ _ ↦ alike.statements tree tree' := by
  unfold Parse.variableDeclaration
  refine (h.identifier _ hfits.cursors).bind fun name name' _ _ hnamed hnames ↦ ?_
  refine (h.accept hnamed.cursors (by simp)).bind fun found found' _ _ hfound hcases ↦ ?_
  obtain rfl : found = found' := by
    rcases hcases with ⟨rfl, rfl, -⟩ | ⟨rfl, rfl, -⟩ <;> rfl
  have hrest := (hfits.follow hnamed).follow hfound
  refine (Agree.optionally found (h.expression _ _) hrest).bind fun _ _ _ _ hmiddle hvalues ↦ ?_
  refine (h.expect hmiddle.cursors (by simp)).bind fun _ _ _ _ hlast _ ↦ ?_
  exact .pure hlast.cursors (h.congruent.declare hnames hvalues)

/-- An expression that may be missing, and the token that closes it. -/
theorem closedOptional {next next' : Option Expr → Span → Parse β}
    {result : β → β → Cursor → Cursor → Prop} {closing : TokenKind}
    (hclosing : closing ≠ .endOfInput) (hfits : alike.Fits bound bound' first first')
    (hnext : ∀ value value' close close' middle middle',
      alike.Follow first first' middle middle' → Option.Rel alike.expressions value value' →
        alike.spans close close' →
          alike.Agree middle middle' (next value close) (next' value' close') result) :
    alike.Agree first first' (do
      let value ← Parse.optionally (!(← Parse.isAt closing)) (Parse.expression bound)
      let close ← Parse.expect closing
      next value close) (do
      let value ← Parse.optionally (!(← Parse.isAt closing)) (Parse.expression bound')
      let close ← Parse.expect closing
      next' value close) result := by
  refine h.ifAt hfits.cursors hclosing fun found ↦ ?_
  refine (Agree.optionally _ (h.expression _ _) hfits).bind fun _ _ _ _ hmiddle hvalues ↦ ?_
  refine (h.expect hmiddle.cursors hclosing).bind fun _ _ _ _ hlast hclose ↦ ?_
  exact hnext _ _ _ _ _ _ (hmiddle.trans hlast) hvalues hclose.1

theorem returnStatement (hfits : alike.Fits bound bound' first first')
    (hkeyword : alike.spans first.passedSpan first'.passedSpan) :
    alike.Agree first first' (Parse.returnStatement bound) (Parse.returnStatement bound')
      fun tree tree' _ _ ↦ alike.statements tree tree' := by
  have hvalue {middle middle' : Cursor} (hmiddle : alike.Follow first first' middle middle') :
      alike.Agree middle middle' (do
        let value ← Parse.optionally (!(← Parse.isAt (.symbol .semicolon))) (Parse.expression bound)
        let close ← Parse.expect (.symbol .semicolon)
        pure (Stmt.return value ⟨first.passedSpan.start, close.stop⟩)) (do
        let value ← Parse.optionally (!(← Parse.isAt (.symbol .semicolon)))
          (Parse.expression bound')
        let close ← Parse.expect (.symbol .semicolon)
        pure (Stmt.return value ⟨first'.passedSpan.start, close.stop⟩))
        fun tree tree' _ _ ↦ alike.statements tree tree' := by
    refine h.closedOptional (by simp) (hfits.follow hmiddle) ?_
    intro _ _ _ _ _ _ hlast hvalues hclose
    exact .pure hlast.cursors (h.congruent.return hvalues (h.congruent.join hkeyword hclose))
  unfold Parse.returnStatement
  refine .view (.view ?_)
  rw [← h.depth_eq hfits.cursors]
  split
  · have herrors : alike.Errors ⟨.returnOutsideFunction, first.passedSpan⟩
        ⟨.returnOutsideFunction, first'.passedSpan⟩ := ⟨h.cause _, hkeyword⟩
    exact (h.reported hfits.cursors herrors).bind fun _ _ _ _ hmiddle _ ↦ hvalue hmiddle
  · exact hvalue (.refl hfits.cursors)

theorem condition (hfits : alike.Fits bound bound' first first') :
    alike.Agree first first' (Parse.condition bound) (Parse.condition bound')
      fun test test' _ _ ↦ alike.expressions test test' := by
  unfold Parse.condition
  refine (h.expect hfits.cursors (by simp)).bind fun _ _ _ _ hopen _ ↦ ?_
  refine (h.expression _ _ _ _ (hfits.follow hopen)).bind fun _ _ _ _ hmiddle hvalues ↦ ?_
  exact (h.expect hmiddle.cursors (by simp)).bind fun _ _ _ _ hlast _ ↦ .pure hlast.cursors hvalues

theorem initializer (hfits : alike.Fits bound bound' first first') :
    alike.Agree first first' (Parse.initializer bound) (Parse.initializer bound')
      fun value value' _ _ ↦ Option.Rel alike.statements value value' := by
  unfold Parse.initializer
  refine h.ifAccept hfits.cursors (by simp) (fun _ _ ↦ ?_)
    (h.ifAccept hfits.cursors (by simp) (fun _ _ ↦ ?_) ?_)
  · exact .pure (h.advance hfits.cursors) .none
  · have hrest := hfits.follow (h.follow_advance hfits.cursors)
    exact ((h.variableDeclaration hrest).mono fun _ _ _ _ _ hvalues ↦ .some hvalues).map
  · have hstatement := h.terminated h.congruent.expression hfits
    exact (hstatement.mono fun _ _ _ _ _ hvalues ↦ .some hvalues.1).map

end Simple

/-- A loop with an initializer, a condition and an increment comes from parts that are alike. -/
theorem ofFor {keyword keyword' : Span} {start start' : Option Stmt}
    {test test' step step' : Option Expr} {body body' : Stmt}
    (hkeyword : alike.spans keyword keyword') (hstart : Option.Rel alike.statements start start')
    (htest : Option.Rel alike.expressions test test')
    (hstep : Option.Rel alike.expressions step step') (hbody : alike.statements body body') :
    alike.statements (.ofFor keyword start test step body)
      (.ofFor keyword' start' test' step' body') := by
  have hcondition : alike.expressions (test.getD (.literal (.boolean true) keyword))
      (test'.getD (.literal (.boolean true) keyword')) := by
    cases htest with
    | none => exact h.congruent.literal hkeyword
    | some htest => exact htest
  have hpair {one one' two two' : Stmt} (hone : alike.statements one one')
      (htwo : alike.statements two two') :
      alike.statements (.block [one, two]) (.block [one', two']) :=
    h.congruent.block (.cons hone (.cons htwo .nil))
  cases hstart with
  | none =>
    cases hstep with
    | none => exact h.congruent.loop hcondition hbody
    | some hstep => exact h.congruent.loop hcondition (hpair hbody (h.congruent.expression hstep))
  | some hstart =>
    cases hstep with
    | none => exact hpair hstart (h.congruent.loop hcondition hbody)
    | some hstep =>
      exact hpair hstart (h.congruent.loop hcondition (hpair hbody (h.congruent.expression hstep)))

section Compound

variable {nested nested' : StatementPlace → Parse Stmt}
  (hnested : ∀ place, alike.Consumes limit limit' alike.statements (nested place) (nested' place))

include hnested

/-- What follows the first branch of a conditional. -/
theorem otherwise {convert convert' : Option Stmt → Stmt}
    (hconvert : ∀ {other other'}, Option.Rel alike.statements other other' →
      alike.statements (convert other) (convert' other'))
    (hfits : alike.Fits limit limit' first first') :
    alike.Agree first first' (do
      let elseBranch ← Parse.optionally (← Parse.accept (.keyword .else)) (nested .asBody)
      pure (convert elseBranch)) (do
      let elseBranch ← Parse.optionally (← Parse.accept (.keyword .else)) (nested' .asBody)
      pure (convert' elseBranch)) fun tree tree' _ _ ↦ alike.statements tree tree' := by
  have hbody : alike.Reads limit limit' alike.statements (nested .asBody) (nested' .asBody) :=
    fun _ _ hfits ↦ (hnested .asBody _ _ hfits).mono fun _ _ _ _ _ hvalues ↦ hvalues.1
  refine (h.accept hfits.cursors (by simp)).bind fun found found' _ _ hfound hcases ↦ ?_
  obtain rfl : found = found' := by
    rcases hcases with ⟨rfl, rfl, -⟩ | ⟨rfl, rfl, -⟩ <;> rfl
  exact (Agree.optionally found hbody (hfits.follow hfound)).bind fun _ _ _ _ hlast hothers ↦
    .pure hlast.cursors (hconvert hothers)

/-- A conditional, of which the keyword has been passed. -/
theorem conditional (hfits : alike.Fits limit limit' first first') :
    alike.Agree first first' (Parse.conditional (nested .asBody) (limit + 1))
      (Parse.conditional (nested' .asBody) (limit' + 1)) fun tree tree' _ _ ↦
        alike.statements tree tree' := by
  unfold Parse.conditional
  refine (h.condition hfits.succ).bind fun test test' _ _ htested htests ↦ ?_
  have hrest := hfits.follow htested
  refine (hnested .asBody _ _ hrest).bind fun branch branch' _ _ hmiddle hbranches ↦ ?_
  exact h.otherwise hnested (h.congruent.conditional htests hbranches.1) (hrest.follow hmiddle)

/-- A loop with a condition, of which the keyword has been passed. -/
theorem whileLoop (hfits : alike.Fits limit limit' first first') :
    alike.Agree first first' (Parse.whileLoop (nested .asBody) (limit + 1))
      (Parse.whileLoop (nested' .asBody) (limit' + 1)) fun tree tree' _ _ ↦
        alike.statements tree tree' := by
  unfold Parse.whileLoop
  refine (h.condition hfits.succ).bind fun test test' _ _ htested htests ↦ ?_
  refine (hnested .asBody _ _ (hfits.follow htested)).bind fun _ _ _ _ hlast hbodies ↦ ?_
  exact .pure hlast.cursors (h.congruent.loop htests hbodies.1)

/-- A loop with an initializer, a condition and an increment, of which the keyword has been passed.
-/
theorem forLoop (hfits : alike.Fits limit limit' first first')
    (hkeyword : alike.spans first.passedSpan first'.passedSpan) :
    alike.Agree first first' (Parse.forLoop (nested .asBody) (limit + 1))
      (Parse.forLoop (nested' .asBody) (limit' + 1)) fun tree tree' _ _ ↦
        alike.statements tree tree' := by
  unfold Parse.forLoop
  refine .view ((h.expect hfits.cursors (by simp)).bind fun _ _ _ _ hopen _ ↦ ?_)
  have hstart := hfits.follow hopen
  refine (h.initializer hstart.succ).bind fun start start' _ _ hstarted hstarts ↦ ?_
  have htest := hstart.follow hstarted
  refine h.closedOptional (by simp) htest.succ fun test test' _ _ _ _ htested htests _ ↦ ?_
  have hstep := htest.follow htested
  refine h.closedOptional (by simp) hstep.succ fun step step' _ _ _ _ hstepped hsteps _ ↦ ?_
  refine (hnested .asBody _ _ (hstep.follow hstepped)).bind fun _ _ _ _ hlast hbodies ↦ ?_
  exact .pure hlast.cursors (h.ofFor hkeyword hstarts htests hsteps hbodies.1)

theorem simpleStatement : alike.Consumes (limit + 1) (limit' + 1) alike.statements
    (Parse.simpleStatement nested (limit + 1)) (Parse.simpleStatement nested' (limit' + 1)) := by
  intro first first' hfits
  have hplace := h.place hfits.cursors
  unfold Parse.simpleStatement
  refine h.ifAccept hfits.cursors (by simp) (fun hnext hnext' ↦ .ahead hnext hnext' ?_) ?_
  · have hrest := (h.fits_advance hfits hnext hnext').succ
    exact (h.terminated h.congruent.print hrest).mono fun _ _ _ _ _ hvalues ↦ hvalues.1
  refine h.ifAccept hfits.cursors (by simp) (fun hnext hnext' ↦ .ahead hnext hnext' ?_) ?_
  · refine h.returnStatement (h.fits_advance hfits hnext hnext').succ ?_
    rwa [Cursor.passedSpan_advance hnext, Cursor.passedSpan_advance hnext']
  refine h.ifAccept hfits.cursors (by simp) (fun hnext hnext' ↦ .ahead hnext hnext' ?_) ?_
  · exact h.conditional hnested (h.fits_advance hfits hnext hnext')
  refine h.ifAccept hfits.cursors (by simp) (fun hnext hnext' ↦ .ahead hnext hnext' ?_) ?_
  · exact h.whileLoop hnested (h.fits_advance hfits hnext hnext')
  refine h.ifAccept hfits.cursors (by simp) (fun hnext hnext' ↦ .ahead hnext hnext' ?_) ?_
  · refine h.forLoop hnested (h.fits_advance hfits hnext hnext') ?_
    rwa [Cursor.passedSpan_advance hnext, Cursor.passedSpan_advance hnext']
  refine h.ifAt hfits.cursors (by simp) fun found ↦ ?_
  split
  · refine ((h.block (hnested .inList) hfits).mono fun _ _ _ _ _ hvalues ↦ ?_).map
    exact ⟨h.congruent.block hvalues.1.1, hvalues.2⟩
  · exact h.terminated h.congruent.expression hfits

theorem listedStatement : alike.Consumes (limit + 1) (limit' + 1) alike.statements
    (Parse.listedStatement nested (limit + 1)) (Parse.listedStatement nested' (limit' + 1)) := by
  intro first first' hfits
  have hplace := h.place hfits.cursors
  unfold Parse.listedStatement
  refine h.ifAccept hfits.cursors (by simp) (fun hnext hnext' ↦ .ahead hnext hnext' ?_) ?_
  · refine h.functionDeclaration (hnested .inList) (h.fits_advance hfits hnext hnext').succ ?_
    rwa [Cursor.passedSpan_advance hnext, Cursor.passedSpan_advance hnext']
  refine h.ifAccept hfits.cursors (by simp) (fun hnext hnext' ↦ .ahead hnext hnext' ?_) ?_
  · exact h.variableDeclaration (h.fits_advance hfits hnext hnext').succ
  refine h.ifAt hfits.cursors (by simp) fun found ↦ ?_
  split
  · exact h.failHere hfits.cursors (h.cause _)
  · exact h.simpleStatement hnested _ _ hfits

end Compound

theorem statement (limit limit' : Nat) (place : StatementPlace) :
    alike.Consumes limit limit' alike.statements (Parse.statement limit place)
      (Parse.statement limit' place) := by
  induction limit generalizing limit' place with
  | zero => exact fun _ _ hfits ↦ absurd hfits.lt (Nat.not_lt_zero _)
  | succ limit ih =>
    cases limit' with
    | zero => exact fun _ _ hfits ↦ absurd hfits.lt' (Nat.not_lt_zero _)
    | succ limit' =>
      cases place with
      | inList => exact h.listedStatement (ih limit')
      | asBody => exact h.simpleStatement (ih limit')

/-- Two readings of whole programs are always done. -/
theorem program (hfits : alike.Fits limit limit' first first') :
    alike.Finish first first' (Program.parse limit) (Program.parse limit')
      fun program program' _ _ ↦ List.Forall₂ alike.statements program program' :=
  h.statements false (h.statement limit limit' .inList) hfits hfits

/-- Two lists of tokens that are alike from the start are read to their ends. -/
theorem ofStart {tokens tokens' : List Token}
    (hstart : alike.cursors (.start tokens) (.start tokens')) :
    ∃ program program' last last',
      (Program.parse (Program.sufficientBound tokens.length)).run (.start tokens)
        = .done program last ∧
      (Program.parse (Program.sufficientBound tokens'.length)).run (.start tokens')
        = .done program' last' ∧
      alike.cursors last last' ∧ List.Forall₂ alike.statements program program' := by
  have hlt (tokens : List Token) : tokens.length < Program.sufficientBound tokens.length :=
    Nat.lt_succ_self _
  obtain ⟨program, program', last, last', hrun, hrun', hfollow, hprograms⟩ :=
    h.program ⟨hstart, hlt tokens, hlt tokens'⟩
  exact ⟨program, program', last, last', hrun, hrun', hfollow.cursors, hprograms⟩

end HeldBySteps

end Likeness

end Lox
