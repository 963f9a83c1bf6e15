import Lox.Parsing.Program
import Lox.Proofs.Computation.Preservation

/-!
# Relations that hold along a reading

Reading changes the cursor by few kinds of steps: a token is passed, an error is reported, the
cursor is resynchronized after a failure, or something is read inside a function. `HeldByReading`
says of a relation between cursors that it holds along these steps. If it is a preorder, it then
holds along everything that is read, whether that succeeds or fails (`HeldByReading.statement`,
`HeldByReading.statements`).

One such relation is that as many function bodies are open as before
(`Cursor.heldByReading_sameDepth`).
-/

set_option autoImplicit false
set_option relaxedAutoImplicit false

namespace Lox

/-- A relation between cursors that holds along every step by which reading changes the cursor. -/
structure HeldByReading (related : Cursor → Cursor → Prop) : Prop where
  advance : ∀ cursor, related cursor cursor.advance
  report : ∀ error cursor, related cursor (cursor.report error)
  resynchronize : ∀ cursor, related cursor cursor.resynchronize
  insideFunction : ∀ body : Parse (List Stmt), body.Keeps related →
    (Parse.insideFunction body).Keeps related

namespace HeldByReading

variable {related : Cursor → Cursor → Prop} [IsPreorder Cursor related]
  (h : HeldByReading related) {α ω : Type}

omit h in
/-- A failure leaves the cursor where it is. -/
theorem failHere (cause : SyntaxCause) : (Parse.failHere cause : Parse α).Keeps related := by
  intro before after hafter
  obtain rfl := Option.some.inj hafter
  exact refl before

include h

/-- A token that may be missing is passed or left. -/
theorem accept (kind : TokenKind) : (Parse.accept kind).Keeps related := by
  refine .update fun cursor ↦ ?_
  split
  · exact h.advance cursor
  · exact refl cursor

theorem expect (kind : TokenKind) : (Parse.expect kind).Keeps related := by
  unfold Parse.expect
  refine .bind (.gets _) fun found ↦ .bind (h.accept kind) fun accepted ↦ ?_
  split
  · exact .gets _
  · exact failHere _

/-- A name is a token that is passed, or else reading fails. -/
theorem identifier (place : NamePlace) : (Parse.identifier place).Keeps related := by
  unfold Parse.identifier
  refine .bind (.gets _) fun next ↦ ?_
  split
  · exact .bind (.modify h.advance) fun _ ↦ .bind (.gets _) fun _ ↦ .pure _
  · exact failHere _

/-- Items between commas. An item too many is reported, and this is one of the steps along which the
relation holds. -/
theorem separated {item : Parse α} (hitem : item.Keeps related) (tooMany : SyntaxCause)
    (bound count : Nat) : (Parse.separated item tooMany bound count).Keeps related := by
  induction bound generalizing count with
  | zero => exact .exhausted
  | succ bound ih =>
    have hitems : (item >>= fun first ↦ Parse.accept (.symbol .comma) >>= fun accepted ↦
        if accepted then Parse.separated item tooMany bound (count + 1) >>= fun others ↦
          pure (first :: others)
        else pure [first]).Keeps related := by
      refine .bind hitem fun first ↦ .bind (h.accept _) fun accepted ↦ ?_
      split
      · exact .bind (ih (count + 1)) fun others ↦ .pure _
      · exact .pure _
    simp only [Parse.separated]
    split
    · exact .bind (.modify fun cursor ↦ h.report _ cursor) fun _ ↦ hitems
    · exact hitems

/-- A list in parentheses keeps what its items keep. -/
theorem parenthesized {item : Parse α} (hitem : item.Keeps related) (tooMany : SyntaxCause)
    (bound : Nat) : (Parse.parenthesized item tooMany bound).Keeps related := by
  unfold Parse.parenthesized
  refine .bind (.gets _) fun atClose ↦ ?_
  split
  · exact .bind (.pure _) fun items ↦ .bind (h.expect _) fun close ↦ .pure _
  · refine .bind (h.separated hitem tooMany bound 0) fun items ↦ ?_
    exact .bind (h.expect _) fun close ↦ .pure _

/-! ### Expressions -/

/-- A chain that goes on keeps what its operands keep, however often it does. -/
theorem chainFrom (ofToken? : TokenKind → Option ω) (join : ω → Expr → Expr → Expr)
    {operand : Parse Expr} (hoperand : operand.Keeps related) (bound : Nat) (left : Expr) :
    (Parse.chainFrom ofToken? join operand bound left).Keeps related := by
  induction bound generalizing left with
  | zero => exact .exhausted
  | succ bound ih =>
    simp only [Parse.chainFrom]
    refine .bind (.gets _) fun operator ↦ ?_
    cases operator with
    | none => exact .pure _
    | some operator =>
      exact .bind (.modify h.advance) fun _ ↦ .bind hoperand fun right ↦ ih _

theorem chain (ofToken? : TokenKind → Option ω) (join : ω → Expr → Expr → Expr) (bound : Nat)
    {operand : Parse Expr} (hoperand : operand.Keeps related) :
    (Parse.chain ofToken? join bound operand).Keeps related :=
  .bind hoperand fun first ↦ h.chainFrom ofToken? join hoperand bound first

/-- An operator that cannot be chained, and the failure at a second one. -/
theorem single (ofToken? : TokenKind → Option BinaryOperator) {operand : Parse Expr}
    (hoperand : operand.Keeps related) : (Parse.single ofToken? operand).Keeps related := by
  unfold Parse.single
  refine .bind hoperand fun left ↦ .bind (.gets _) fun operator ↦ ?_
  cases operator with
  | none => exact .pure _
  | some operator =>
    refine .bind (.modify h.advance) fun _ ↦ .bind hoperand fun right ↦ ?_
    refine .bind (.gets _) fun second ↦ ?_
    cases second with
    | none => exact .pure _
    | some second => exact failHere _

/-- A primary expression keeps what the expression in its parentheses keeps. -/
theorem primary {expression : Parse Expr} (hexpression : expression.Keeps related) :
    (Parse.primary expression).Keeps related := by
  unfold Parse.primary
  refine .bind (.gets _) fun next ↦ ?_
  cases next with
  | none => exact failHere _
  | some kind =>
    refine .bind (.gets _) fun span ↦ ?_
    split
    · exact .bind (.modify h.advance) fun _ ↦ .pure _
    · exact .bind (.modify h.advance) fun _ ↦ .pure _
    · refine .bind (.modify h.advance) fun _ ↦ .bind hexpression fun inner ↦ ?_
      exact .bind (h.expect _) fun close ↦ .pure _
    all_goals exact failHere _

/-- Argument lists keep what the arguments keep, as many of them as there are. -/
theorem callFrom {expression : Parse Expr} (hexpression : expression.Keeps related) (bound : Nat)
    (callee : Expr) : (Parse.callFrom expression bound callee).Keeps related := by
  induction bound generalizing callee with
  | zero => exact .exhausted
  | succ bound ih =>
    simp only [Parse.callFrom]
    refine .bind (h.accept _) fun accepted ↦ ?_
    split
    · exact .bind (h.parenthesized hexpression _ _) fun arguments ↦ ih _
    · refine .bind (.gets _) fun atDot ↦ ?_
      split
      · exact failHere _
      · exact .pure _

/-- Unary operators only pass their tokens. -/
theorem unary {expression : Parse Expr} (hexpression : expression.Keeps related) (bound : Nat) :
    (Parse.unary expression bound).Keeps related := by
  induction bound with
  | zero => exact .exhausted
  | succ bound ih =>
    simp only [Parse.unary]
    refine .bind (.gets _) fun operator ↦ ?_
    cases operator with
    | none => exact .bind (h.primary hexpression) fun callee ↦ h.callFrom hexpression _ callee
    | some operator =>
      refine .bind (.gets _) fun span ↦ .bind (.modify h.advance) fun _ ↦ ?_
      exact .bind ih fun operand ↦ .pure _

theorem logical {expression : Parse Expr} (hexpression : expression.Keeps related) (bound : Nat) :
    (Parse.logical expression bound).Keeps related := by
  have hfactor := h.chain BinaryOperator.ofFactorToken? Expr.joinBinary bound
    (h.unary hexpression bound)
  have hterm := h.chain BinaryOperator.ofTermToken? Expr.joinBinary bound hfactor
  have hequality := h.single BinaryOperator.ofEqualityToken?
    (h.single BinaryOperator.ofComparisonToken? hterm)
  have hand := h.chain LogicalOperator.ofAndToken? Expr.joinLogical bound hequality
  exact h.chain LogicalOperator.ofOrToken? Expr.joinLogical bound hand

/-- Whatever is read as an expression, the relation holds from the cursor before it to the one
behind it, and also if it fails. Nested expressions are those with a smaller bound. -/
theorem expression (bound : Nat) : (Parse.expression bound).Keeps related := by
  induction bound with
  | zero => exact .exhausted
  | succ bound ih =>
    simp only [Parse.expression, Parse.assignment]
    refine .bind (h.logical ih _) fun target ↦ .bind (h.accept _) fun accepted ↦ ?_
    split
    · refine .bind ih fun value ↦ ?_
      split
      · exact .pure _
      · exact .bind (.modify fun cursor ↦ h.report _ cursor) fun _ ↦ .pure _
    · exact .pure _

/-! ### Statements -/

omit h in
theorem optionally (condition : Bool) {item : Parse α} (hitem : item.Keeps related) :
    (Parse.optionally condition item).Keeps related := by
  unfold Parse.optionally
  split
  · exact .bind hitem fun value ↦ .pure _
  · exact .pure _

/-- A failure within a list is where reading goes on from. -/
theorem statements (inBlock : Bool) {statement : Parse Stmt} (hstatement : statement.Keeps related)
    (bound : Nat) : (Parse.statements inBlock statement bound).Keeps related := by
  induction bound with
  | zero => exact .exhausted
  | succ bound ih =>
    simp only [Parse.statements]
    refine .bind (.gets _) fun atEnd ↦ ?_
    split
    · exact .pure _
    · refine .bind hstatement.attempt fun result ↦ ?_
      cases result with
      | ok first => exact .bind ih fun others ↦ .pure _
      | error error =>
        refine .bind (.modify (h.report error)) fun _ ↦ ?_
        exact .bind (.modify h.resynchronize) fun _ ↦ ih

theorem block {statement : Parse Stmt} (hstatement : statement.Keeps related) (bound : Nat) :
    (Parse.block statement bound).Keeps related :=
  .bind (h.expect _) fun _ ↦ .bind (h.statements true hstatement bound) fun _ ↦
    .bind (h.expect _) fun _ ↦ .pure _

/-- The body of a function is the one part that is read with another depth, for which the relation
has a condition of its own. -/
theorem functionDeclaration {statement : Parse Stmt} (hstatement : statement.Keeps related)
    (bound : Nat) : (Parse.functionDeclaration statement bound).Keeps related := by
  unfold Parse.functionDeclaration
  refine .bind (.gets _) fun keyword ↦ .bind (h.identifier _) fun name ↦ ?_
  refine .bind (h.expect _) fun _ ↦ ?_
  refine .bind (h.parenthesized (h.identifier _) _ _) fun parameters ↦ ?_
  refine .bind (h.insideFunction _ (h.block hstatement bound)) fun body ↦ ?_
  exact .bind (.gets _) fun close ↦ .pure _

theorem variableDeclaration (bound : Nat) : (Parse.variableDeclaration bound).Keeps related := by
  unfold Parse.variableDeclaration
  refine .bind (h.identifier _) fun name ↦ .bind (h.accept _) fun accepted ↦ ?_
  refine .bind (optionally accepted (h.expression bound)) fun initializer ↦ ?_
  exact .bind (h.expect _) fun _ ↦ .pure _

/-- An expression with a semicolon behind it. -/
theorem terminated (convert : Expr → Stmt) (bound : Nat) :
    (Parse.expression bound >>= fun value ↦ Parse.expect (.symbol .semicolon) >>= fun _ ↦
      pure (convert value)).Keeps related :=
  .bind (h.expression bound) fun _ ↦ .bind (h.expect _) fun _ ↦ .pure _

/-- A `return` outside of functions is reported, and read all the same. -/
theorem returnStatement (bound : Nat) : (Parse.returnStatement bound).Keeps related := by
  have hvalue (keyword : Span) : (Parse.isAt (.symbol .semicolon) >>= fun atEnd ↦
      Parse.optionally (!atEnd) (Parse.expression bound) >>= fun value ↦
        Parse.expect (.symbol .semicolon) >>= fun close ↦
          pure (Stmt.return value ⟨keyword.start, close.stop⟩)).Keeps related := by
    refine .bind (.gets _) fun atEnd ↦ ?_
    refine .bind (optionally _ (h.expression bound)) fun value ↦ ?_
    exact .bind (h.expect _) fun close ↦ .pure _
  unfold Parse.returnStatement
  refine .bind (.gets _) fun keyword ↦ .bind (.gets _) fun depth ↦ ?_
  split
  · exact .bind (.modify fun cursor ↦ h.report _ cursor) fun _ ↦ hvalue keyword
  · exact hvalue keyword

theorem condition (bound : Nat) : (Parse.condition bound).Keeps related :=
  .bind (h.expect _) fun _ ↦ .bind (h.expression bound) fun _ ↦ .bind (h.expect _) fun _ ↦ .pure _

/-- A conditional keeps what its branches keep. -/
theorem conditional {statement : Parse Stmt} (hstatement : statement.Keeps related) (bound : Nat) :
    (Parse.conditional statement bound).Keeps related := by
  unfold Parse.conditional
  refine .bind (h.condition bound) fun test ↦ .bind hstatement fun thenBranch ↦ ?_
  refine .bind (h.accept _) fun accepted ↦ ?_
  exact .bind (optionally accepted hstatement) fun elseBranch ↦ .pure _

theorem whileLoop {statement : Parse Stmt} (hstatement : statement.Keeps related) (bound : Nat) :
    (Parse.whileLoop statement bound).Keeps related :=
  .bind (h.condition bound) fun _ ↦ .bind hstatement fun _ ↦ .pure _

theorem initializer (bound : Nat) : (Parse.initializer bound).Keeps related := by
  unfold Parse.initializer
  refine .bind (h.accept _) fun missing ↦ ?_
  split
  · exact .pure _
  · refine .bind (h.accept _) fun declared ↦ ?_
    split
    · exact (h.variableDeclaration bound).map _
    · exact (h.terminated .expression bound).map _

/-- A loop with clauses keeps what its body keeps. -/
theorem forLoop {statement : Parse Stmt} (hstatement : statement.Keeps related) (bound : Nat) :
    (Parse.forLoop statement bound).Keeps related := by
  unfold Parse.forLoop
  refine .bind (.gets _) fun keyword ↦ .bind (h.expect _) fun _ ↦ ?_
  refine .bind (h.initializer bound) fun first ↦ .bind (.gets _) fun atEnd ↦ ?_
  refine .bind (optionally _ (h.expression bound)) fun test ↦ .bind (h.expect _) fun _ ↦ ?_
  refine .bind (.gets _) fun atClose ↦ ?_
  refine .bind (optionally _ (h.expression bound)) fun increment ↦ .bind (h.expect _) fun _ ↦ ?_
  exact .bind hstatement fun body ↦ .pure _

/-- A statement that is no declaration keeps what the statements in it keep. -/
theorem simpleStatement {nested : StatementPlace → Parse Stmt}
    (hnested : ∀ place, (nested place).Keeps related) (bound : Nat) :
    (Parse.simpleStatement nested bound).Keeps related := by
  unfold Parse.simpleStatement
  refine .bind (h.accept _) fun _ ↦ ?_
  split
  · exact h.terminated .print bound
  refine .bind (h.accept _) fun _ ↦ ?_
  split
  · exact h.returnStatement bound
  refine .bind (h.accept _) fun _ ↦ ?_
  split
  · exact h.conditional (hnested .asBody) bound
  refine .bind (h.accept _) fun _ ↦ ?_
  split
  · exact h.whileLoop (hnested .asBody) bound
  refine .bind (h.accept _) fun _ ↦ ?_
  split
  · exact h.forLoop (hnested .asBody) bound
  refine .bind (.gets _) fun _ ↦ ?_
  split
  · exact (h.block (hnested .inList) bound).map _
  · exact h.terminated .expression bound

/-- A statement of a list keeps what the statements in it keep, and a declaration of a class fails
at its keyword. -/
theorem listedStatement {nested : StatementPlace → Parse Stmt}
    (hnested : ∀ place, (nested place).Keeps related) (bound : Nat) :
    (Parse.listedStatement nested bound).Keeps related := by
  unfold Parse.listedStatement
  refine .bind (h.accept _) fun _ ↦ ?_
  split
  · exact h.functionDeclaration (hnested .inList) bound
  refine .bind (h.accept _) fun _ ↦ ?_
  split
  · exact h.variableDeclaration bound
  refine .bind (.gets _) fun _ ↦ ?_
  split
  · exact failHere _
  · exact h.simpleStatement hnested bound

/-- The relation holds along the reading of every statement, with every bound and at every place. -/
theorem statement (bound : Nat) (place : StatementPlace) :
    (Parse.statement bound place).Keeps related := by
  induction bound generalizing place with
  | zero => exact .exhausted
  | succ bound ih =>
    cases place with
    | inList => exact h.listedStatement ih (bound + 1)
    | asBody => exact h.simpleStatement ih (bound + 1)

/-- A whole program is a list of statements. -/
theorem program (bound : Nat) : (Program.parse bound).Keeps related :=
  h.statements false (h.statement bound .inList) bound

end HeldByReading

/-- As many function bodies are open as before. -/
def Cursor.SameDepth (before after : Cursor) : Prop := after.depth = before.depth

instance : IsPreorder Cursor Cursor.SameDepth where
  refl _ := rfl
  trans _ _ _ hfirst hsecond := hsecond.trans hfirst

/-- A function body is closed however its reading ends. -/
theorem Cursor.heldByReading_sameDepth : HeldByReading Cursor.SameDepth where
  advance cursor := by
    unfold Cursor.advance
    split <;> rfl
  report _ _ := rfl
  resynchronize cursor := by
    unfold Cursor.resynchronize Cursor.advance
    split <;> rfl
  insideFunction body hbody before after hafter := by
    obtain ⟨inner, hinner, rfl⟩ := Bounded.state?_run_within hafter
    have hdepth : inner.depth = before.depth + 1 := hbody _ _ hinner
    exact congrArg (· - 1) hdepth

end Lox
