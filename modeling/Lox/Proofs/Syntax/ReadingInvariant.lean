import Lox.Parsing.Program
import Lox.Proofs.Computation.Preservation
import Lox.Proofs.Syntax.CursorSteps

/-!
# Invariants of reading

Reading may report errors and go on, and what is read then has to be described although it may be
no program. A `ReadingInvariant` says which cursors are valid, which cursor another one leads to,
and which places a tree can have that is read between two cursors. If every single step of reading
keeps it (`ReadingInvariant.HeldBySteps`), then everything that is read leads from a valid cursor to
a valid one, whether it is done or fails. An expression then has a place that it can have, and what
fails does so at the place of the cursor that it leaves behind (`ReadingInvariant.Obeys`).

In contrast to a relation that is kept, as with `HeldByReading`, the errors that are reported are
known with their places. An error is reported at the next token, with three exceptions: the target
of an assignment, a `return` outside of functions, which has been passed, and a failure, which is
reported where reading goes on from it.
-/

set_option autoImplicit false
set_option relaxedAutoImplicit false

namespace Lox

/-- A failure at the place of the cursor that is left behind. The target of an assignment is never
what reading fails at. -/
structure SyntaxError.StopsAt (error : SyntaxError) (cursor : Cursor) : Prop where
  span_eq : error.span = cursor.place
  cause_ne : error.cause ≠ .invalidAssignmentTarget

/-- Which cursors are valid, which cursor another one leads to, and which places a tree can have
that is read between two cursors. -/
structure ReadingInvariant where
  valid : Cursor → Prop
  reaches : Cursor → Cursor → Prop
  spans : Cursor → Span → Cursor → Prop

namespace ReadingInvariant

variable (inv : ReadingInvariant) {α β ω : Type}

/-- From a cursor, reading leads to a valid one, where the value is as it should be or which it
fails at. -/
def Obeys (first : Cursor) (parse : Parse α) (yields : α → Cursor → Prop) : Prop :=
  match parse.run first with
  | .done value last => inv.valid last ∧ inv.reaches first last ∧ yields value last
  | .failed error last => inv.valid last ∧ inv.reaches first last ∧ error.StopsAt last
  | .exhausted => True

/-- From every valid cursor, reading leads to a valid one. -/
def Keeps (parse : Parse α) : Prop :=
  ∀ first, inv.valid first → inv.Obeys first parse fun _ _ ↦ True

/-- What is read from a valid cursor has a place that it can have. -/
def Spans (span : α → Span) (parse : Parse α) : Prop :=
  ∀ first, inv.valid first →
    inv.Obeys first parse fun value last ↦ inv.spans first (span value) last

/-- An invariant that every step of reading keeps. -/
structure HeldBySteps : Prop where
  refl : ∀ {cursor}, inv.valid cursor → inv.reaches cursor cursor
  trans : ∀ {first middle last}, inv.reaches first middle → inv.reaches middle last →
    inv.reaches first last
  advance : ∀ {cursor}, inv.valid cursor →
    inv.valid cursor.advance ∧ inv.reaches cursor cursor.advance
  token : ∀ {cursor kind}, inv.valid cursor → cursor.next? = some kind →
    inv.spans cursor cursor.place cursor.advance
  extend : ∀ {first start stop last span}, inv.reaches first start → inv.spans start span stop →
    inv.reaches stop last → inv.spans first span last
  join : ∀ {first middle last before after}, inv.spans first before middle →
    inv.spans middle after last → inv.spans first ⟨before.start, after.stop⟩ last
  union : ∀ {first middle last before after}, inv.spans first before middle →
    inv.spans middle after last → inv.spans first (before.union after) last
  reportHere : ∀ {cursor cause}, cause ≠ .invalidAssignmentTarget → inv.valid cursor →
    inv.valid (cursor.report ⟨cause, cursor.place⟩) ∧
      inv.reaches cursor (cursor.report ⟨cause, cursor.place⟩)
  reportTarget : ∀ {first cursor span}, inv.valid cursor → inv.spans first span cursor →
    inv.valid (cursor.report ⟨.invalidAssignmentTarget, span⟩) ∧
      inv.reaches cursor (cursor.report ⟨.invalidAssignmentTarget, span⟩)
  reportReturn : ∀ {cursor}, inv.valid cursor → cursor.next? = some (.keyword .return) →
    inv.valid (cursor.advance.report ⟨.returnOutsideFunction, cursor.place⟩) ∧
      inv.reaches cursor.advance (cursor.advance.report ⟨.returnOutsideFunction, cursor.place⟩)
  valid_depth : ∀ {cursor} (depth : Nat), inv.valid cursor → inv.valid { cursor with depth }
  reaches_depth : ∀ {first last : Cursor} (inner outer : Nat),
    inv.reaches { first with depth := inner } last → inv.reaches first { last with depth := outer }

namespace Obeys

variable {inv} {first : Cursor} {parse : Parse α} {yields : α → Cursor → Prop}

/-- What is demanded of a value may be weakened, and for this it is known besides that the cursor
which is left behind is valid and reached from the first one. -/
theorem mono {wider : α → Cursor → Prop} (hparse : inv.Obeys first parse yields)
    (himp : ∀ value last, inv.valid last → inv.reaches first last → yields value last →
      wider value last) : inv.Obeys first parse wider := by
  unfold Obeys at hparse ⊢
  cases hrun : parse.run first <;> rw [hrun] at hparse
  case done value last =>
    obtain ⟨hlast, hreaches, hvalue⟩ := hparse
    exact ⟨hlast, hreaches, himp value last hlast hreaches hvalue⟩
  case failed => exact hparse
  case exhausted => trivial

/-- Reading that does not end within its bound has nothing to satisfy. -/
theorem exhausted : inv.Obeys first (.exhausted : Parse α) yields := trivial

end Obeys

variable {inv}

/-- What has a place that it can have keeps the invariant in particular. -/
theorem Spans.keeps {span : α → Span} {parse : Parse α} (hparse : inv.Spans span parse) :
    inv.Keeps parse :=
  fun first hfirst ↦ (hparse first hfirst).mono fun _ _ _ _ _ ↦ trivial

namespace HeldBySteps

variable (h : inv.HeldBySteps) {first : Cursor} {parse : Parse α}
  {yields : α → Cursor → Prop}

include h

theorem yield {value : α} (hfirst : inv.valid first) (hvalue : yields value first) :
    inv.Obeys first (Pure.pure value) yields :=
  ⟨hfirst, h.refl hfirst, hvalue⟩

theorem gets {view : Cursor → α} (hfirst : inv.valid first) (hview : yields (view first) first) :
    inv.Obeys first (.gets view) yields :=
  ⟨hfirst, h.refl hfirst, hview⟩

/-- A failure at the next token leaves the cursor as it is, so it stops at the place of this cursor.
The target of an assignment is excluded, which is not reported here. -/
theorem failHere {cause : SyntaxCause} (hfirst : inv.valid first)
    (hcause : cause ≠ .invalidAssignmentTarget) :
    inv.Obeys first (Parse.failHere cause) yields :=
  ⟨hfirst, h.refl hfirst, rfl, hcause⟩

/-- Readings one after the other: what comes behind starts from a valid cursor that is reached from
the first one, and from a value that is as it should be. A failure of either is a failure of both,
at the place where it has happened. -/
theorem bind {next : α → Parse β} {result : β → Cursor → Prop}
    (hparse : inv.Obeys first parse yields)
    (hnext : ∀ value middle, inv.valid middle → inv.reaches first middle → yields value middle →
      inv.Obeys middle (next value) result) : inv.Obeys first (parse >>= next) result := by
  unfold Obeys at hparse ⊢
  cases hrun : parse.run first with
  | done value middle =>
    rw [hrun] at hparse
    obtain ⟨hvalid, hreaches, hvalue⟩ := hparse
    have hrest := hnext value middle hvalid hreaches hvalue
    rw [Bounded.run_bind_of_done hrun]
    unfold Obeys at hrest
    cases hlast : (next value).run middle <;> rw [hlast] at hrest
    case exhausted => trivial
    all_goals exact ⟨hrest.1, h.trans hreaches hrest.2.1, hrest.2.2⟩
  | failed error last =>
    rw [hrun] at hparse
    rw [Bounded.run_bind, hrun]
    exact hparse
  | exhausted =>
    rw [Bounded.run_bind, hrun]
    trivial

omit h in
/-- A view of the cursor, which passes nothing. -/
theorem view {view : Cursor → α} {next : α → Parse β} {result : β → Cursor → Prop}
    (hnext : inv.Obeys first (next (view first)) result) :
    inv.Obeys first (.gets view >>= next) result := hnext

omit h in
/-- A step that cannot fail keeps the invariant if the changed cursor is valid and reached. -/
theorem modify {change : Cursor → Cursor}
    (hchange : inv.valid (change first) ∧ inv.reaches first (change first)) :
    inv.Obeys first (.modify change) fun _ last ↦ last = change first :=
  ⟨hchange.1, hchange.2, rfl⟩

theorem map {convert : α → β} {result : β → Cursor → Prop}
    (hparse : inv.Obeys first parse fun value last ↦ result (convert value) last) :
    inv.Obeys first (convert <$> parse) result := by
  rw [← bind_pure_comp]
  exact h.bind hparse fun value middle hmiddle _ hvalue ↦ h.yield hmiddle hvalue

/-- The next token may be passed from every valid cursor, whatever it is, and the cursor that is
left behind is known exactly. -/
theorem pass (hfirst : inv.valid first) :
    inv.Obeys first Parse.advance fun _ last ↦ last = first.advance :=
  modify (h.advance hfirst)

/-- A token that is passed if it is of a given kind has its place between the cursors. -/
theorem accept (hfirst : inv.valid first) (kind : TokenKind) :
    inv.Obeys first (Parse.accept kind) fun found last ↦
      (found = true ∧ first.next? = some kind ∧ last = first.advance) ∨
        (found = false ∧ last = first) := by
  unfold Obeys
  rw [Parse.accept, Bounded.run_update]
  by_cases hkind : first.isAt kind
  · rw [if_pos hkind]
    exact ⟨(h.advance hfirst).1, (h.advance hfirst).2, .inl ⟨rfl, of_decide_eq_true hkind, rfl⟩⟩
  · rw [if_neg hkind]
    exact ⟨hfirst, h.refl hfirst, .inr ⟨rfl, rfl⟩⟩

/-- A branch on whether the next token is of a given kind, in which case it is passed. -/
theorem ifAccept {kind : TokenKind} {yes no : Parse β} {result : β → Cursor → Prop}
    (hfirst : inv.valid first)
    (hyes : first.next? = some kind → inv.valid first.advance → inv.reaches first first.advance →
      inv.Obeys first.advance yes result)
    (hno : inv.Obeys first no result) :
    inv.Obeys first (do if ← Parse.accept kind then yes else no) result := by
  refine h.bind (h.accept hfirst kind) ?_
  rintro found middle hmiddle hreaches (⟨rfl, hkind, rfl⟩ | ⟨rfl, rfl⟩)
  · exact hyes hkind hmiddle hreaches
  · exact hno

/-- A token that is demanded has the place of the token that is passed. -/
theorem expect (kind : TokenKind) : inv.Spans id (Parse.expect kind) := by
  intro first hfirst
  unfold Parse.expect
  refine view (h.ifAccept hfirst (fun hkind hmiddle _ ↦ h.gets hmiddle ?_) ?_)
  · rw [Cursor.passedSpan_advance hkind]
    exact h.token hfirst hkind
  · exact h.failHere hfirst (by rintro ⟨⟩)

/-- A name has the place of the token that writes it. -/
theorem identifier (place : NamePlace) :
    inv.Spans Identifier.span (Parse.identifier place) := by
  intro first hfirst
  unfold Parse.identifier
  refine view ?_
  split
  · next name hkind =>
    refine h.bind (h.pass hfirst) ?_
    rintro _ _ hmiddle _ rfl
    refine view (h.yield hmiddle ?_)
    rw [Cursor.passedSpan_advance hkind]
    exact h.token hfirst hkind
  · exact h.failHere hfirst (by rintro ⟨⟩)

/-- A list of items between commas keeps the invariant if the items do. An item too many is reported
and read all the same. -/
theorem separated {item : Parse α} (hitem : inv.Keeps item) {tooMany : SyntaxCause}
    (htooMany : tooMany ≠ .invalidAssignmentTarget) (bound count : Nat) :
    inv.Keeps (Parse.separated item tooMany bound count) := by
  induction bound generalizing count with
  | zero => exact fun _ _ ↦ .exhausted
  | succ bound ih =>
    have hitems : inv.Keeps (item >>= fun first ↦ Parse.accept (.symbol .comma) >>= fun accepted ↦
        if accepted then Parse.separated item tooMany bound (count + 1) >>= fun others ↦
          pure (first :: others)
        else pure [first]) := by
      intro first hfirst
      refine h.bind (hitem first hfirst) fun value middle hmiddle _ _ ↦ ?_
      refine h.ifAccept hmiddle (fun _ hpassed _ ↦ ?_) (h.yield hmiddle trivial)
      exact h.bind (ih (count + 1) _ hpassed) fun others last hlast _ _ ↦ h.yield hlast trivial
    intro first hfirst
    simp only [Parse.separated]
    split
    · refine h.bind (modify (h.reportHere htooMany hfirst)) fun _ middle hmiddle _ _ ↦ ?_
      exact hitems middle hmiddle
    · exact hitems first hfirst

/-- A list in parentheses yields the place of the closing one. -/
theorem parenthesized {item : Parse α} (hitem : inv.Keeps item) {tooMany : SyntaxCause}
    (htooMany : tooMany ≠ .invalidAssignmentTarget) (bound : Nat) :
    inv.Spans Prod.snd (Parse.parenthesized item tooMany bound) := by
  intro first hfirst
  have hclose (items : List α) {middle : Cursor} (hmiddle : inv.valid middle)
      (hreaches : inv.reaches first middle) : inv.Obeys middle
        (Parse.expect (.symbol .rightParenthesis) >>= fun close ↦ pure (items, close))
        fun value last ↦ inv.spans first value.2 last := by
    refine h.bind (h.expect _ middle hmiddle) fun close last hlast _ hspan ↦ ?_
    exact h.yield hlast (h.extend hreaches hspan (h.refl hlast))
  unfold Parse.parenthesized
  refine view ?_
  split
  · exact hclose [] hfirst (h.refl hfirst)
  · refine h.bind (h.separated hitem htooMany bound 0 first hfirst) ?_
    exact fun items middle hmiddle hreaches _ ↦ hclose items hmiddle hreaches

/-! ### Expressions -/

/-- A chain of operators of one level goes on from a left operand that stands somewhere before: with
each further operand the place grows to the union of both, which is a place again. -/
theorem chainFrom (ofToken? : TokenKind → Option ω) {join : ω → Expr → Expr → Expr}
    (hjoin : ∀ operator left right, (join operator left right).span = left.span.union right.span)
    {operand : Parse Expr} (hoperand : inv.Spans Expr.span operand) (bound : Nat) {start : Cursor}
    {left : Expr} (hleft : inv.spans start left.span first) (hfirst : inv.valid first) :
    inv.Obeys first (Parse.chainFrom ofToken? join operand bound left) fun value last ↦
      inv.spans start value.span last := by
  induction bound generalizing first left with
  | zero => exact .exhausted
  | succ bound ih =>
    simp only [Parse.chainFrom]
    refine view ?_
    cases hoperator : first.next?.bind ofToken? with
    | none => exact h.yield hfirst hleft
    | some operator =>
      refine h.bind (h.pass hfirst) ?_
      rintro _ _ hpassed hreaches rfl
      refine h.bind (hoperand _ hpassed) fun right middle hmiddle _ hright ↦ ?_
      refine ih ?_ hmiddle
      rw [hjoin]
      exact h.union hleft (h.extend hreaches hright (h.refl hmiddle))

/-- A whole chain has a place from its first operand to its last one. -/
theorem chain (ofToken? : TokenKind → Option ω) {join : ω → Expr → Expr → Expr}
    (hjoin : ∀ operator left right, (join operator left right).span = left.span.union right.span)
    (bound : Nat) {operand : Parse Expr} (hoperand : inv.Spans Expr.span operand) :
    inv.Spans Expr.span (Parse.chain ofToken? join bound operand) := by
  intro first hfirst
  refine h.bind (hoperand first hfirst) fun left middle hmiddle _ hleft ↦ ?_
  exact h.chainFrom ofToken? hjoin hoperand bound hleft hmiddle

/-- An operator that cannot be chained is read at most once. If a second one follows, reading fails
at it, behind both operands. -/
theorem single (ofToken? : TokenKind → Option BinaryOperator) {operand : Parse Expr}
    (hoperand : inv.Spans Expr.span operand) :
    inv.Spans Expr.span (Parse.single ofToken? operand) := by
  intro first hfirst
  unfold Parse.single
  refine h.bind (hoperand first hfirst) fun left middle hmiddle _ hleft ↦ view ?_
  cases hoperator : middle.next?.bind ofToken? with
  | none => exact h.yield hmiddle hleft
  | some operator =>
    refine h.bind (h.pass hmiddle) ?_
    rintro _ _ hpassed hreaches rfl
    refine h.bind (hoperand _ hpassed) fun right last hlast _ hright ↦ view ?_
    cases hsecond : last.next?.bind ofToken? with
    | none => exact h.yield hlast (h.union hleft (h.extend hreaches hright (h.refl hlast)))
    | some second => exact h.failHere hlast (by rintro ⟨⟩)

/-- A literal, a name and a grouping have the place of their tokens. Everything else fails at the
token that is found, which is not passed. -/
theorem primary {expression : Parse Expr} (hexpression : inv.Spans Expr.span expression) :
    inv.Spans Expr.span (Parse.primary expression) := by
  intro first hfirst
  unfold Parse.primary
  refine view ?_
  cases hnext : first.next? with
  | none => exact h.failHere hfirst (by rintro ⟨⟩)
  | some kind =>
    have htoken := h.token hfirst hnext
    refine view ?_
    split
    · refine h.bind (h.pass hfirst) ?_
      rintro _ _ hpassed _ rfl
      exact h.yield hpassed htoken
    · refine h.bind (h.pass hfirst) ?_
      rintro _ _ hpassed _ rfl
      exact h.yield hpassed htoken
    · refine h.bind (h.pass hfirst) ?_
      rintro _ _ hpassed _ rfl
      refine h.bind (hexpression _ hpassed) fun inner middle hmiddle hreaches _ ↦ ?_
      refine h.bind (h.expect _ middle hmiddle) fun close last hlast _ hclose ↦ ?_
      exact h.yield hlast (h.join htoken (h.extend hreaches hclose (h.refl hlast)))
    all_goals exact h.failHere hfirst (by rintro ⟨⟩)

/-- Calls go on from a callee that stands somewhere before, and each reaches up to its closing
parenthesis. -/
theorem callFrom {expression : Parse Expr} (hexpression : inv.Spans Expr.span expression)
    (bound : Nat) {start : Cursor} {callee : Expr} (hcallee : inv.spans start callee.span first)
    (hfirst : inv.valid first) :
    inv.Obeys first (Parse.callFrom expression bound callee) fun value last ↦
      inv.spans start value.span last := by
  induction bound generalizing first callee with
  | zero => exact .exhausted
  | succ bound ih =>
    have harguments := h.parenthesized hexpression.keeps
      (show SyntaxCause.tooManyArguments ≠ .invalidAssignmentTarget by rintro ⟨⟩) (bound + 1)
    simp only [Parse.callFrom]
    refine h.ifAccept hfirst (fun _ hpassed hreaches ↦ ?_) (view ?_)
    · refine h.bind (harguments _ hpassed) fun arguments middle hmiddle _ hclose ↦ ?_
      exact ih (h.join hcallee (h.extend hreaches hclose (h.refl hmiddle))) hmiddle
    · split
      · exact h.failHere hfirst (by rintro ⟨⟩)
      · exact h.yield hfirst hcallee

/-- A unary operator stands before its operand, so that its place and the one of the operand are
joined to the place of the whole. -/
theorem unary {expression : Parse Expr} (hexpression : inv.Spans Expr.span expression)
    (bound : Nat) : inv.Spans Expr.span (Parse.unary expression bound) := by
  induction bound with
  | zero => exact fun _ _ ↦ .exhausted
  | succ bound ih =>
    intro first hfirst
    simp only [Parse.unary]
    refine view ?_
    cases hoperator : first.next?.bind UnaryOperator.ofToken? with
    | none =>
      refine h.bind (h.primary hexpression first hfirst) fun callee middle hmiddle _ hcallee ↦ ?_
      exact h.callFrom hexpression _ hcallee hmiddle
    | some operator =>
      obtain ⟨kind, hkind, -⟩ := Option.bind_eq_some_iff.mp hoperator
      refine view (h.bind (h.pass hfirst) ?_)
      rintro _ _ hpassed _ rfl
      refine h.bind (ih _ hpassed) fun operand last hlast _ hoperand ↦ ?_
      exact h.yield hlast (h.join (h.token hfirst hkind) hoperand)

/-- Logical operators are two levels of chains above the binary ones. -/
theorem logical {expression : Parse Expr} (hexpression : inv.Spans Expr.span expression)
    (bound : Nat) : inv.Spans Expr.span (Parse.logical expression bound) := by
  have hbinary (operator : BinaryOperator) (left right : Expr) :
      (Expr.joinBinary operator left right).span = left.span.union right.span := rfl
  have hlogical (operator : LogicalOperator) (left right : Expr) :
      (Expr.joinLogical operator left right).span = left.span.union right.span := rfl
  have hfactor := h.chain BinaryOperator.ofFactorToken? hbinary bound
    (h.unary hexpression bound)
  have hterm := h.chain BinaryOperator.ofTermToken? hbinary bound hfactor
  have hequality := h.single BinaryOperator.ofEqualityToken?
    (h.single BinaryOperator.ofComparisonToken? hterm)
  have hand := h.chain LogicalOperator.ofAndToken? hlogical bound hequality
  exact h.chain LogicalOperator.ofOrToken? hlogical bound hand

/-- The target of an assignment is reported when the value has been read. -/
theorem assignment {expression : Parse Expr} (hexpression : inv.Spans Expr.span expression)
    (bound : Nat) : inv.Spans Expr.span (Parse.assignment expression bound) := by
  intro first hfirst
  unfold Parse.assignment
  refine h.bind (h.logical hexpression bound first hfirst) fun target middle hmiddle _ htarget ↦ ?_
  refine h.ifAccept hmiddle (fun _ hpassed hreaches ↦ ?_) (h.yield hmiddle htarget)
  refine h.bind (hexpression _ hpassed) fun value last hlast hvalue hspan ↦ ?_
  split
  · exact h.yield hlast (h.union htarget (h.extend hreaches hspan (h.refl hlast)))
  · have hbefore := h.extend (h.refl hfirst) htarget (h.trans hreaches hvalue)
    have hreport := h.reportTarget hlast hbefore
    refine h.bind (modify hreport) ?_
    rintro _ _ hreached hreaches rfl
    exact h.yield hreached (h.extend (h.refl hfirst) hbefore hreaches)

/-- Whatever is read as an expression has a place between the cursor before and the cursor behind
it, and the errors that are reported on the way have been reported at their places. -/
theorem expression (bound : Nat) : inv.Spans Expr.span (Parse.expression bound) := by
  induction bound with
  | zero => exact fun _ _ ↦ .exhausted
  | succ bound ih => exact h.assignment ih (bound + 1)

/-! ### Statements -/

/-- Readings one after the other keep the invariant if both of them do, whatever is read first. -/
theorem keeps_bind {next : α → Parse β} (hparse : inv.Keeps parse)
    (hnext : ∀ value, inv.Keeps (next value)) : inv.Keeps (parse >>= next) :=
  fun first hfirst ↦ h.bind (hparse first hfirst) fun value middle hmiddle _ _ ↦
    hnext value middle hmiddle

theorem keeps_pure (value : α) : inv.Keeps (Pure.pure value) :=
  fun _ hfirst ↦ h.yield hfirst trivial

theorem keeps_map {convert : α → β} (hparse : inv.Keeps parse) : inv.Keeps (convert <$> parse) :=
  fun first hfirst ↦ h.map (hparse first hfirst)

omit h in
/-- A look at the cursor keeps the invariant with whatever comes behind it. -/
theorem keeps_view {view : Cursor → α} {next : α → Parse β}
    (hnext : ∀ value, inv.Keeps (next value)) : inv.Keeps (.gets view >>= next) :=
  fun first hfirst ↦ hnext _ first hfirst

theorem keeps_expect (kind : TokenKind) : inv.Keeps (Parse.expect kind) :=
  (h.expect kind).keeps

theorem keeps_expression (bound : Nat) : inv.Keeps (Parse.expression bound) :=
  (h.expression bound).keeps

/-- A token that is passed if it is there, and what comes behind it in either case. -/
theorem keeps_ifAccept {kind : TokenKind} {yes no : Parse α} (hyes : inv.Keeps yes)
    (hno : inv.Keeps no) : inv.Keeps (do if ← Parse.accept kind then yes else no) :=
  fun first hfirst ↦
    h.ifAccept hfirst (fun _ hpassed _ ↦ hyes _ hpassed) (hno first hfirst)

/-- What is read only under a condition, and left out otherwise. -/
theorem optionally (condition : Bool) {item : Parse α} (hitem : inv.Keeps item) :
    inv.Keeps (Parse.optionally condition item) := by
  unfold Parse.optionally
  split
  · exact h.keeps_bind hitem fun value ↦ h.keeps_pure _
  · exact h.keeps_pure _

omit h in
/-- A failure that is caught leaves its cursor behind, and the error is known to stop there. So it
may be reported at the next token. -/
theorem attempt (hparse : inv.Obeys first parse yields) :
    inv.Obeys first parse.attempt fun result last ↦
      ∀ error, result = .error error → error.StopsAt last := by
  unfold Obeys at hparse ⊢
  rw [Bounded.run_attempt]
  cases hrun : parse.run first <;> rw [hrun] at hparse
  case done value last => exact ⟨hparse.1, hparse.2.1, by rintro _ ⟨⟩⟩
  case failed error last => exact ⟨hparse.1, hparse.2.1, by rintro _ ⟨⟩; exact hparse.2.2⟩
  case exhausted => trivial

/-- Going on behind a failure only passes tokens, one by one. -/
theorem resynchronize (hfirst : inv.valid first) :
    inv.valid first.resynchronize ∧ inv.reaches first first.resynchronize := by
  refine Cursor.resynchronize_induction
    (motive := fun reached ↦ inv.valid reached ∧ inv.reaches first reached)
    ⟨hfirst, h.refl hfirst⟩ fun reached hreached ↦ ?_
  obtain ⟨hvalid, hreaches⟩ := h.advance hreached.1
  exact ⟨hvalid, h.trans hreached.2 hreaches⟩

/-- A failure is reported at the place where reading stopped. -/
theorem statements (inBlock : Bool) {statement : Parse Stmt} (hstatement : inv.Keeps statement)
    (bound : Nat) : inv.Keeps (Parse.statements inBlock statement bound) := by
  induction bound with
  | zero => exact fun _ _ ↦ .exhausted
  | succ bound ih =>
    intro first hfirst
    simp only [Parse.statements]
    refine view ?_
    split
    · exact h.yield hfirst trivial
    · refine h.bind (attempt (hstatement first hfirst)) fun result middle hmiddle _ hstops ↦ ?_
      cases result with
      | ok value => exact h.keeps_bind ih (fun _ ↦ h.keeps_pure _) middle hmiddle
      | error error =>
        obtain ⟨hspan, hcause⟩ := hstops error rfl
        obtain ⟨cause, span⟩ := error
        obtain rfl : span = middle.place := hspan
        refine h.bind (modify (h.reportHere hcause hmiddle)) fun _ _ hreported _ _ ↦ ?_
        exact h.bind (modify (h.resynchronize hreported)) fun _ last hlast _ _ ↦ ih last hlast

/-- A block keeps the invariant if its statements do. -/
theorem block {statement : Parse Stmt} (hstatement : inv.Keeps statement) (bound : Nat) :
    inv.Keeps (Parse.block statement bound) :=
  h.keeps_bind (h.keeps_expect _) fun _ ↦ h.keeps_bind (h.statements true hstatement bound) fun _ ↦
    h.keeps_bind (h.keeps_expect _) fun _ ↦ h.keeps_pure _

/-- The depth of functions is no part of what the invariant says, so that it may be raised and
restored around a body. -/
theorem insideFunction {body : Parse α} (hbody : inv.Keeps body) :
    inv.Keeps (Parse.insideFunction body) := by
  intro first hfirst
  have hinner := hbody _ (h.valid_depth (first.depth + 1) hfirst)
  unfold Obeys at hinner ⊢
  rw [Parse.insideFunction, Bounded.run_within]
  cases hrun : body.run { first with depth := first.depth + 1 } with
  | done value last =>
    rw [hrun] at hinner
    exact ⟨h.valid_depth _ hinner.1, h.reaches_depth _ _ hinner.2.1, trivial⟩
  | failed error last =>
    rw [hrun] at hinner
    exact ⟨h.valid_depth _ hinner.1, h.reaches_depth _ _ hinner.2.1, hinner.2.2.span_eq,
      hinner.2.2.cause_ne⟩
  | exhausted => trivial

/-- A declaration of a function keeps the invariant if its statements do. Parameters too many are
reported at the parameter. -/
theorem functionDeclaration {statement : Parse Stmt} (hstatement : inv.Keeps statement)
    (bound : Nat) : inv.Keeps (Parse.functionDeclaration statement bound) := by
  have hname (place : NamePlace) : inv.Keeps (Parse.identifier place) :=
    (h.identifier place).keeps
  have hparameters := h.parenthesized (hname .parameter)
    (show SyntaxCause.tooManyParameters ≠ .invalidAssignmentTarget by rintro ⟨⟩) bound
  unfold Parse.functionDeclaration
  refine keeps_view fun keyword ↦ h.keeps_bind (hname _) fun name ↦ ?_
  refine h.keeps_bind (h.keeps_expect _) fun _ ↦ ?_
  refine h.keeps_bind hparameters.keeps fun parameters ↦ ?_
  refine h.keeps_bind (h.insideFunction (h.block hstatement bound)) fun body ↦ ?_
  exact keeps_view fun close ↦ h.keeps_pure _

theorem keeps_accept (kind : TokenKind) : inv.Keeps (Parse.accept kind) :=
  fun _ hfirst ↦ (h.accept hfirst kind).mono fun _ _ _ _ _ ↦ trivial

/-- A declaration of a variable, with a value or without. -/
theorem variableDeclaration (bound : Nat) : inv.Keeps (Parse.variableDeclaration bound) := by
  unfold Parse.variableDeclaration
  refine h.keeps_bind (h.identifier _).keeps fun name ↦ ?_
  refine h.keeps_bind (h.keeps_accept _) fun accepted ↦ ?_
  refine h.keeps_bind (h.optionally accepted (h.keeps_expression bound)) fun initializer ↦ ?_
  exact h.keeps_bind (h.keeps_expect _) fun _ ↦ h.keeps_pure _

/-- An expression with a semicolon behind it. -/
theorem terminated (convert : Expr → Stmt) (bound : Nat) :
    inv.Keeps (Parse.expression bound >>= fun value ↦ Parse.expect (.symbol .semicolon) >>= fun _ ↦
      pure (convert value)) :=
  h.keeps_bind (h.keeps_expression bound) fun _ ↦ h.keeps_bind (h.keeps_expect _) fun _ ↦
    h.keeps_pure _

/-- A return statement, behind its keyword. -/
theorem returnStatement (bound : Nat) (hfirst : inv.valid first)
    (hkind : first.next? = some (.keyword .return)) :
    inv.Obeys first.advance (Parse.returnStatement bound) fun _ _ ↦ True := by
  have hvalue (keyword : Span) : inv.Keeps (Parse.isAt (.symbol .semicolon) >>= fun atEnd ↦
      Parse.optionally (!atEnd) (Parse.expression bound) >>= fun value ↦
        Parse.expect (.symbol .semicolon) >>= fun close ↦
          pure (Stmt.return value ⟨keyword.start, close.stop⟩)) := by
    refine keeps_view fun atEnd ↦ ?_
    refine h.keeps_bind (h.optionally _ (h.keeps_expression bound)) fun value ↦ ?_
    exact h.keeps_bind (h.keeps_expect _) fun close ↦ h.keeps_pure _
  unfold Parse.returnStatement
  refine view (view ?_)
  split
  · rw [Cursor.passedSpan_advance hkind]
    refine h.bind (modify (h.reportReturn hfirst hkind)) fun _ middle hmiddle _ _ ↦ ?_
    exact hvalue _ middle hmiddle
  · exact hvalue _ _ (h.advance hfirst).1

/-- A condition in parentheses. -/
theorem condition (bound : Nat) : inv.Keeps (Parse.condition bound) :=
  h.keeps_bind (h.keeps_expect _) fun _ ↦ h.keeps_bind (h.keeps_expression bound) fun _ ↦
    h.keeps_bind (h.keeps_expect _) fun _ ↦ h.keeps_pure _

/-- A conditional keeps the invariant if its branches do. -/
theorem conditional {statement : Parse Stmt} (hstatement : inv.Keeps statement) (bound : Nat) :
    inv.Keeps (Parse.conditional statement bound) := by
  unfold Parse.conditional
  refine h.keeps_bind (h.condition bound) fun test ↦ ?_
  refine h.keeps_bind hstatement fun thenBranch ↦ h.keeps_bind (h.keeps_accept _) fun accepted ↦ ?_
  exact h.keeps_bind (h.optionally accepted hstatement) fun elseBranch ↦ h.keeps_pure _

theorem whileLoop {statement : Parse Stmt} (hstatement : inv.Keeps statement) (bound : Nat) :
    inv.Keeps (Parse.whileLoop statement bound) :=
  h.keeps_bind (h.condition bound) fun _ ↦ h.keeps_bind hstatement fun _ ↦ h.keeps_pure _

theorem initializer (bound : Nat) : inv.Keeps (Parse.initializer bound) := by
  unfold Parse.initializer
  refine h.keeps_ifAccept (h.keeps_pure _) (h.keeps_ifAccept ?_ ?_)
  · exact h.keeps_map (h.variableDeclaration bound)
  · exact h.keeps_map (h.terminated .expression bound)

/-- A loop with clauses keeps the invariant if its body does; of its clauses each may be missing. -/
theorem forLoop {statement : Parse Stmt} (hstatement : inv.Keeps statement) (bound : Nat) :
    inv.Keeps (Parse.forLoop statement bound) := by
  have hoptional (condition : Bool) := h.optionally condition (h.keeps_expression bound)
  unfold Parse.forLoop
  refine keeps_view fun keyword ↦ h.keeps_bind (h.keeps_expect _) fun _ ↦ ?_
  refine h.keeps_bind (h.initializer bound) fun first ↦ keeps_view fun atEnd ↦ ?_
  refine h.keeps_bind (hoptional _) fun test ↦ h.keeps_bind (h.keeps_expect _) fun _ ↦ ?_
  refine keeps_view fun atClose ↦ h.keeps_bind (hoptional _) fun increment ↦ ?_
  exact h.keeps_bind (h.keeps_expect _) fun _ ↦ h.keeps_bind hstatement fun body ↦ h.keeps_pure _

/-- A statement that is no declaration. A `return` outside of functions is reported behind its
keyword, which is why the invariant has a step of its own for it. -/
theorem simpleStatement {nested : StatementPlace → Parse Stmt}
    (hnested : ∀ place, inv.Keeps (nested place)) (bound : Nat) :
    inv.Keeps (Parse.simpleStatement nested bound) := by
  unfold Parse.simpleStatement
  refine h.keeps_ifAccept (h.terminated .print bound) fun first hfirst ↦ ?_
  refine h.ifAccept hfirst (fun hkind _ _ ↦ h.returnStatement bound hfirst hkind) ?_
  suffices hothers : inv.Keeps _ from hothers first hfirst
  refine h.keeps_ifAccept (h.conditional (hnested .asBody) bound) ?_
  refine h.keeps_ifAccept (h.whileLoop (hnested .asBody) bound) ?_
  refine h.keeps_ifAccept (h.forLoop (hnested .asBody) bound) (keeps_view fun atBlock ↦ ?_)
  split
  · exact h.keeps_map (h.block (hnested .inList) bound)
  · exact h.terminated .expression bound

/-- A statement in a list, where a declaration may stand. A declaration of a class fails at its
keyword. -/
theorem listedStatement {nested : StatementPlace → Parse Stmt}
    (hnested : ∀ place, inv.Keeps (nested place)) (bound : Nat) :
    inv.Keeps (Parse.listedStatement nested bound) := by
  unfold Parse.listedStatement
  refine h.keeps_ifAccept (h.functionDeclaration (hnested .inList) bound) ?_
  refine h.keeps_ifAccept (h.variableDeclaration bound) (keeps_view fun atClass ↦ ?_)
  split
  · exact fun _ hfirst ↦ h.failHere hfirst (by rintro ⟨⟩)
  · exact h.simpleStatement hnested bound

/-- Whatever is read as a statement, at whatever place, keeps the invariant. -/
theorem statement (bound : Nat) (place : StatementPlace) :
    inv.Keeps (Parse.statement bound place) := by
  induction bound generalizing place with
  | zero => exact fun _ _ ↦ .exhausted
  | succ bound ih =>
    cases place with
    | inList => exact h.listedStatement ih (bound + 1)
    | asBody => exact h.simpleStatement ih (bound + 1)

/-- A whole program is a list of statements, and keeps the invariant with all the errors that are
reported in it. -/
theorem program (bound : Nat) : inv.Keeps (Program.parse bound) :=
  h.statements false (h.statement bound .inList) bound

/-- The errors of a list of tokens are those that are reported at a valid cursor. -/
theorem exists_of_ofTokens {tokens : List Token} (hstart : inv.valid (.start tokens))
    {errors : List SyntaxError} (herrors : Program.ofTokens tokens = .error errors) :
    errors = [] ∨ ∃ last, inv.valid last ∧ errors = last.reported := by
  have hprogram := h.program (Program.sufficientBound tokens.length) _ hstart
  unfold Obeys at hprogram
  rw [Program.ofTokens] at herrors
  split at herrors
  · next program last hrun =>
    rw [hrun] at hprogram
    split at herrors
    · cases herrors
    · cases herrors
      exact .inr ⟨last, hprogram.1, rfl⟩
  · next error last hrun =>
    rw [hrun] at hprogram
    cases herrors
    obtain ⟨hlast, -, hspan, hcause⟩ := hprogram
    obtain ⟨cause, span⟩ := error
    obtain rfl : span = last.place := hspan
    exact .inr ⟨_, (h.reportHere hcause hlast).1, rfl⟩
  · cases herrors
    exact .inl rfl

end HeldBySteps

end ReadingInvariant

end Lox
