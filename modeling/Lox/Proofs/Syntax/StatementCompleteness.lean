import Lox.Proofs.Syntax.ExpressionCompleteness
import Lox.Proofs.Syntax.StatementSoundness

/-!
# The statements of the grammar are read

Every statement of the grammar in which each `else` belongs to the nearest conditional that can take
it is read by a parser whose bound is at least the number of its tokens, wherever no `else` comes
next or the statement is closed (`Grammar.Statement.completes`). There is one lemma for each rule of
the grammar.
-/

set_option autoImplicit false
set_option relaxedAutoImplicit false

namespace Lox

open Grammar

namespace Parse.Takes

variable {depth bound : Nat} {read more rest : List TokenKind} {tree : Expr}

/-- An expression and the token that closes it. -/
theorem closedExpression {β : Type} {next : Expr → Parse β} {result : β → Prop}
    (hexpression : Expression .assignment read tree) (hbound : read.length ≤ bound)
    {closing : TokenKind} (hclosing : looseness closing = 9)
    (hnext : ∀ value, value.eraseSpans = tree → Takes depth (next value) more rest result) :
    Takes depth (do
      let value ← Parse.expression bound
      let _ ← Parse.expect closing
      next value) (read ++ closing :: more) rest result := by
  have hends : Level.assignment.EndsBefore (closing :: more ++ rest) :=
    .cons _ (by rw [hclosing]; decide)
  refine .bind (expression hexpression hbound depth hends) fun value hvalue ↦ ?_
  exact .token (.expect closing) fun _ _ ↦ hnext value hvalue

/-- An expression that may be missing, and the token that closes it. -/
theorem closedOptional {β : Type} {next : Option Expr → Span → Parse β} {result : β → Prop}
    {tree : Option Expr} (hoptional : OptionalExpression read tree) (hbound : read.length ≤ bound)
    {closing : TokenKind} (hclosing : looseness closing = 9)
    (hstarts : startsExpression closing = false)
    (hnext : ∀ value close, value.map Expr.eraseSpans = tree →
      Takes depth (next value close) more rest result) :
    Takes depth (do
      let value ← Parse.optionally (!(← Parse.isAt closing)) (Parse.expression bound)
      let close ← Parse.expect closing
      next value close) (read ++ closing :: more) rest result := by
  refine .peek (.isAt closing) fun found hfound ↦ ?_
  cases hoptional with
  | missing =>
    obtain rfl : found = true := hfound.trans (decide_eq_true rfl)
    refine .peek (.omitted _) fun value hvalue ↦ ?_
    rw [hvalue]
    exact .token (.expect closing) fun close _ ↦ hnext none close rfl
  | present hpresent =>
    rw [List.append_assoc] at hfound
    obtain rfl : found = false :=
      hfound.trans (decide_eq_false (hpresent.begins.head?_ne hstarts _))
    have hends : Level.assignment.EndsBefore (closing :: more ++ rest) :=
      .cons _ (by rw [hclosing]; decide)
    refine .bind (optionally (expression hpresent hbound depth hends)) fun value hvalue ↦ ?_
    obtain ⟨present, rfl, hvalue⟩ := hvalue
    exact .token (.expect closing) fun close _ ↦ hnext _ close (congrArg some hvalue)

/-- An expression in parentheses before something else. -/
theorem condition {β : Type} {next : Expr → Parse β} {result : β → Prop}
    (hexpression : Expression .assignment read tree) (hbound : read.length ≤ bound)
    (hnext : ∀ value, value.eraseSpans = tree → Takes depth (next value) more rest result) :
    Takes depth (Parse.condition bound >>= next)
      (.symbol .leftParenthesis :: (read ++ .symbol .rightParenthesis :: more)) rest result := by
  have htest (others : List TokenKind) : Takes depth (Parse.condition bound)
      (.symbol .leftParenthesis :: (read ++ [.symbol .rightParenthesis])) others
      fun value ↦ value.eraseSpans = tree :=
    .token (.expect _) fun _ _ ↦ closedExpression hexpression hbound rfl fun _ hvalue ↦ .pure hvalue
  simpa using Takes.bind (htest _) hnext

/-- An expression is taken together with its semicolon, whatever comes behind that. -/
theorem expressionStatement (hexpression : Expression .assignment read tree)
    (hbound : read.length ≤ bound) :
    Takes depth (expressionStatement bound) (read ++ [.symbol .semicolon]) rest
      fun value ↦ value.eraseSpans = .expression tree :=
  closedExpression hexpression hbound rfl fun _ hvalue ↦ .pure (congrArg Stmt.expression hvalue)

/-- The declaration of a variable is taken from its name on, with or without an initial value. -/
theorem variableDeclaration {tree : Stmt} (hdeclaration : VariableDeclaration read tree)
    (hbound : read.length ≤ bound) :
    Takes depth (variableDeclaration bound) read rest fun value ↦ value.eraseSpans = tree := by
  cases hdeclaration with
  | bare name =>
    refine .token (.identifier _ name) fun identifier hidentifier ↦ ?_
    refine .peek (.refuse (by simp)) fun accepted haccepted ↦ ?_
    rw [haccepted]
    refine .peek (.omitted _) fun value hvalue ↦ .last (.expect _) fun _ _ ↦ .pure ?_
    rw [Stmt.eraseSpans_declare, hvalue, hidentifier]
    rfl
  | @initialized read _ name hvalue =>
    refine .token (.identifier _ name) fun identifier hidentifier ↦ ?_
    refine .token (.accept _) fun accepted haccepted ↦ ?_
    rw [haccepted]
    simp only [List.cons_append, List.length_cons, List.length_append, List.length_nil] at hbound
    have hends : Level.assignment.EndsBefore ([.symbol .semicolon] ++ rest) := .cons _ (by decide)
    refine .bind (optionally (expression hvalue (by omega) depth hends)) fun value hvalue ↦ ?_
    obtain ⟨present, rfl, hpresent⟩ := hvalue
    refine .last (.expect _) fun _ _ ↦ .pure ?_
    rw [Stmt.eraseSpans_declare, Option.map_some, hpresent, hidentifier]

/-- The first part of a loop ends with a semicolon in each of its three forms. -/
theorem initializer {tree : Option Stmt} (hinitializer : Initializer read tree)
    (hbound : read.length ≤ bound) :
    Takes depth (initializer bound) read rest fun value ↦
      value.map Stmt.eraseSpans = tree := by
  cases hinitializer with
  | missing =>
    exact .ifAccepted (.pure rfl)
  | declaration hdeclaration =>
    refine .ifRefused (by simp) (.ifAccepted (.map ?_))
    refine (variableDeclaration hdeclaration (by simp at hbound; omega)).mono ?_
    exact fun value hvalue ↦ congrArg some hvalue
  | expression hvalue =>
    have hbegins := hvalue.begins.append [.symbol .semicolon]
    refine .ifRefused (hbegins.head?_ne rfl _) (.ifRefused (hbegins.head?_ne rfl _) (.map ?_))
    refine (expressionStatement hvalue (by simp at hbound; omega)).mono ?_
    exact fun value hvalue ↦ congrArg some hvalue

/-- Each parameter is written with one token at least. -/
theorem length_le_length_parameters (parameters : List String) : parameters.length ≤
    (Grammar.separated (parameters.map fun parameter ↦ [.identifier parameter])).length := by
  have hle := @length_le_length_separated (parameters.map fun parameter ↦ [.identifier parameter])
    (by simp)
  rwa [List.length_map] at hle

/-- A parameter with the one token that writes it. -/
def parameterPiece (parameter : String) : Piece Identifier :=
  ⟨[.identifier parameter], ⟨parameter, .origin⟩⟩

/-- The parameters of a function are taken with their closing parenthesis, if they are not too many.
-/
theorem parameters {parameters : List String} (hlength : parameters.length ≤ maximumArguments)
    (hbound : parameters.length ≤ bound) :
    Takes depth (Parse.parenthesized (Parse.identifier .parameter) .tooManyParameters bound)
      (Grammar.separated (parameters.map fun parameter ↦ [.identifier parameter]) ++
        [.symbol .rightParenthesis]) rest
      fun values ↦
        values.1.map Identifier.eraseSpan
          = parameters.map fun parameter ↦ ⟨parameter, .origin⟩ := by
  have htakes : Takes depth
      (Parse.parenthesized (Parse.identifier .parameter) .tooManyParameters bound)
      (Grammar.separated ((parameters.map parameterPiece).map Piece.read) ++
        [.symbol .rightParenthesis]) rest
      fun values ↦ values.1.map Identifier.eraseSpan
        = (parameters.map parameterPiece).map Piece.tree := by
    refine parenthesized (fun piece hpiece more _ ↦ ?_) (fun piece hpiece ↦ ?_)
      (rfl : startsExpression (.symbol .rightParenthesis) = false) _ ?_ ?_
    · obtain ⟨parameter, -, rfl⟩ := List.mem_map.mp hpiece
      exact .identifier _ parameter
    · obtain ⟨parameter, -, rfl⟩ := List.mem_map.mp hpiece
      exact ⟨_, _, rfl, rfl⟩
    · rwa [List.length_map]
    · rwa [List.length_map]
  rwa [List.map_map, List.map_map] at htakes

/-! ### Lists of statements -/

variable {nested : Parse Stmt} {items : List (Piece Stmt)}

/-- What may come behind a list of statements. -/
def EndsList (inBlock : Bool) (rest : List TokenKind) : Prop :=
  rest.head? = none ∨ rest.head? = some .endOfInput ∨
    inBlock = true ∧ rest.head? = some (.symbol .rightBrace)

/-- The parser of a list decides from the next token alone whether the list ends there. -/
theorem endsList? (inBlock : Bool) :
    Takes depth
      (.gets fun cursor ↦ cursor.isAtEnd || inBlock && cursor.isAt (.symbol .rightBrace)) [] rest
      fun stop ↦ stop = true ↔ EndsList inBlock rest := by
  intro first hkinds _
  refine ⟨_, first, rfl, .refl first, ?_⟩
  simp only [Cursor.isAtEnd, Cursor.isAt, first.next?_eq_head?, hkinds, List.nil_append,
    Bool.or_eq_true, Bool.and_eq_true, decide_eq_true_eq, EndsList, or_assoc]

theorem EndsList.head?_ne_else {inBlock : Bool} (hends : EndsList inBlock rest) :
    rest.head? ≠ some (.keyword .else) := by
  rcases hends with hhead | hhead | ⟨-, hhead⟩ <;> simp [hhead]

/-- A list does not end where another statement begins. -/
theorem not_endsList {inBlock : Bool} (hbegins : Begins startsStatement read) :
    ¬EndsList inBlock (read ++ rest) := by
  rintro (hhead | hhead | ⟨-, hhead⟩)
  · simp [hbegins.ne_nil] at hhead
  · exact hbegins.head?_ne rfl rest hhead
  · exact hbegins.head?_ne rfl rest hhead

/-- No `else` comes behind a statement in a list. -/
theorem head?_flatMap_ne_else {inBlock : Bool}
    (hbegins : ∀ item ∈ items, Begins startsStatement item.read) (hrest : EndsList inBlock rest) :
    (items.flatMap Piece.read ++ rest).head? ≠ some (.keyword .else) := by
  cases items with
  | nil => exact hrest.head?_ne_else
  | cons item items =>
    rw [List.flatMap_cons, List.append_assoc]
    exact (hbegins item List.mem_cons_self).head?_ne rfl _

/-- A list of statements is taken, if each of them is taken in front of what is not an `else`. What
comes behind a statement is the beginning of another one or the end of the list. -/
theorem statements {inBlock : Bool}
    (hitems : ∀ item ∈ items, ∀ more, more.head? ≠ some (.keyword .else) →
      Takes depth nested item.read more fun value ↦ value.eraseSpans = item.tree)
    (hbegins : ∀ item ∈ items, Begins startsStatement item.read) (hrest : EndsList inBlock rest)
    (hbound : items.length < bound) :
    Takes depth (statements inBlock nested bound) (items.flatMap Piece.read) rest
      fun trees ↦ Stmt.eraseSpansAll trees = items.map Piece.tree := by
  induction items generalizing bound with
  | nil =>
    obtain ⟨bound, rfl⟩ := Nat.exists_eq_succ_of_ne_zero (Nat.ne_of_gt hbound)
    refine .peek (endsList? inBlock) fun stop hstop ↦ ?_
    obtain rfl : stop = true := hstop.mpr hrest
    exact .pure rfl
  | cons first items ih =>
    obtain ⟨bound, rfl⟩ := Nat.exists_eq_succ_of_ne_zero (Nat.ne_of_gt (Nat.zero_lt_of_lt hbound))
    obtain ⟨hfirst, hitems⟩ := List.forall_mem_cons.mp hitems
    obtain ⟨hfirstBegins, hbegins⟩ := List.forall_mem_cons.mp hbegins
    refine .peek (endsList? inBlock) fun stop hstop ↦ ?_
    rw [List.flatMap_cons, List.append_assoc] at hstop
    obtain rfl : stop = false :=
      Bool.eq_false_iff.mpr fun h ↦ not_endsList hfirstBegins (hstop.mp h)
    have hnext := head?_flatMap_ne_else hbegins hrest
    refine .bind (.attempt (hfirst _ hnext)) fun attempted hattempted ↦ ?_
    obtain ⟨tree, rfl, htree⟩ := hattempted
    refine .last (ih hitems hbegins (Nat.lt_of_succ_lt_succ hbound)) fun trees htrees ↦ .pure ?_
    rw [Stmt.eraseSpansAll_cons, htree, htrees, List.map_cons]

/-- The same with braces around them. -/
theorem block
    (hitems : ∀ item ∈ items, ∀ more, more.head? ≠ some (.keyword .else) →
      Takes depth nested item.read more fun value ↦ value.eraseSpans = item.tree)
    (hbegins : ∀ item ∈ items, Begins startsStatement item.read) (hbound : items.length < bound) :
    Takes depth (block nested bound)
      (.symbol .leftBrace :: items.flatMap Piece.read ++ [.symbol .rightBrace]) rest
      fun trees ↦ Stmt.eraseSpansAll trees = items.map Piece.tree := by
  have hends : EndsList true ([.symbol .rightBrace] ++ rest) := .inr (.inr ⟨rfl, rfl⟩)
  refine .token (.expect _) fun _ _ ↦ .bind (statements hitems hbegins hends hbound) ?_
  exact fun trees htrees ↦ .last (.expect _) fun _ _ ↦ .pure htrees

end Parse.Takes

/-! ### The rules of the grammar -/

/-- Tokens that are read as a statement, if the bound is as large as their number, an open function
body allows a `return` and no `else` goes on with it. -/
def StatementCompletes (place : StatementPlace) (inFunction closed : Bool)
    (read : List TokenKind) (tree : Stmt) : Prop :=
  ∀ depth bound rest, read.length ≤ bound → (inFunction = true → depth ≠ 0) →
    (closed = false → rest.head? ≠ some (.keyword .else)) →
      Parse.Takes depth (Parse.statement bound place) read rest fun value ↦ value.eraseSpans = tree

theorem length_le_length_flatMap {items : List (Piece Stmt)} {item : Piece Stmt}
    (hmem : item ∈ items) : item.read.length ≤ (items.flatMap Piece.read).length := by
  obtain ⟨before, after, rfl⟩ := List.append_of_mem hmem
  simp only [List.flatMap_append, List.flatMap_cons, List.length_append]
  omega

/-- No statement is empty, so a list has no more statements than tokens, and the bound suffices for
the list as well. -/
theorem length_items_le {items : List (Piece Stmt)}
    (hbegins : ∀ item ∈ items, Begins startsStatement item.read) :
    items.length ≤ (items.flatMap Piece.read).length := by
  induction items with
  | nil => exact Nat.le_refl _
  | cons item items ih =>
    obtain ⟨hitem, hbegins⟩ := List.forall_mem_cons.mp hbegins
    have hpos := List.length_pos_iff.mpr hitem.ne_nil
    have hle := ih hbegins
    simp only [List.flatMap_cons, List.length_append, List.length_cons]
    omega

namespace StatementCompletes

open Parse

variable {place : StatementPlace} {inFunction closed : Bool} {read : List TokenKind}
  {items : List (Piece Stmt)}

/-- Statements that are read one by one are read within braces. -/
theorem takesBlock
    (hitems : ∀ item ∈ items, StatementCompletes .inList inFunction false item.read item.tree)
    (hbegins : ∀ item ∈ items, Begins startsStatement item.read) {depth bound : Nat}
    (hbound : (items.flatMap Piece.read).length ≤ bound) (hdepth : inFunction = true → depth ≠ 0)
    {rest : List TokenKind} :
    Takes depth (block (statement bound .inList) (bound + 1))
      (.symbol .leftBrace :: items.flatMap Piece.read ++ [.symbol .rightBrace]) rest
      fun trees ↦ Stmt.eraseSpansAll trees = items.map Piece.tree := by
  refine .block (fun item hmem more hmore ↦ ?_) hbegins ?_
  · have hle := length_le_length_flatMap hmem
    exact hitems item hmem depth bound more (by omega) hdepth fun _ ↦ hmore
  · have hle := length_items_le hbegins
    omega

/-- A statement that declares nothing is read at every place. -/
theorem ofSimple {tree : Stmt} (hread : read ≠ [])
    (hfirst : ∀ rest, ∀ word ∈ [Keyword.fun, .var, .class],
      (read ++ rest).head? ≠ some (.keyword word))
    (hsimple : ∀ depth bound rest, read.length ≤ bound + 1 → (inFunction = true → depth ≠ 0) →
      (closed = false → rest.head? ≠ some (.keyword .else)) →
        Takes depth (simpleStatement (statement bound) (bound + 1)) read rest
          fun value ↦ value.eraseSpans = tree) :
    StatementCompletes place inFunction closed read tree := by
  intro depth bound rest hbound hdepth hrest
  have hpos := List.length_pos_iff.mpr hread
  obtain ⟨bound, rfl⟩ := Nat.exists_eq_succ_of_ne_zero (n := bound) (by omega)
  have htakes := hsimple depth bound rest hbound hdepth hrest
  cases place with
  | inList =>
    exact .ifRefused (hfirst rest .fun (by simp)) (.ifRefused (hfirst rest .var (by simp))
      (.ifNotAt (hfirst rest .class (by simp)) htakes))
  | asBody => exact htakes

/-- An expression statement is complete by its semicolon, also in front of an `else`. -/
theorem expression {value : Expr} (hvalue : Expression .assignment read value) :
    StatementCompletes place inFunction closed (read ++ [.symbol .semicolon])
      (.expression value) := by
  have hbegins := hvalue.begins.append [.symbol .semicolon]
  refine ofSimple hbegins.ne_nil (fun rest word hword ↦ ?_) fun depth bound rest hbound _ _ ↦ ?_
  · simp only [List.mem_cons, List.not_mem_nil, or_false] at hword
    rcases hword with rfl | rfl | rfl <;> exact hbegins.head?_ne rfl rest
  · refine .ifRefused (hbegins.head?_ne rfl rest) (.ifRefused (hbegins.head?_ne rfl rest)
      (.ifRefused (hbegins.head?_ne rfl rest) (.ifRefused (hbegins.head?_ne rfl rest)
      (.ifRefused (hbegins.head?_ne rfl rest) (.ifNotAt (hbegins.head?_ne rfl rest) ?_)))))
    exact .expressionStatement hvalue (by simp at hbound; omega)

/-- So is a `print` statement. -/
theorem print {value : Expr} (hvalue : Expression .assignment read value) :
    StatementCompletes place inFunction closed
      (.keyword .print :: read ++ [.symbol .semicolon]) (.print value) := by
  refine ofSimple (by simp) (by simp) fun depth bound rest hbound _ _ ↦ ?_
  simp only [List.length_append, List.length_cons, List.length_nil] at hbound
  refine .ifAccepted (.closedExpression hvalue (by omega) rfl fun value hvalue ↦ .pure ?_)
  rw [Stmt.eraseSpans_print, hvalue]

/-- A `return` statement is read without an error only inside of a function. -/
theorem «return» {value : Option Expr} (hvalue : OptionalExpression read value) :
    StatementCompletes place true closed
      (.keyword .return :: read ++ [.symbol .semicolon]) (.return value .origin) := by
  refine ofSimple (by simp) (by simp) fun depth bound rest hbound hdepth _ ↦ ?_
  simp only [List.length_append, List.length_cons, List.length_nil] at hbound
  refine .ifRefused (by simp) (.ifAccepted (.peek (.view _) fun keyword _ ↦ ?_))
  refine .peek .depth? fun found hfound ↦ ?_
  rw [hfound, if_neg (hdepth rfl)]
  have hshorter : read.length ≤ bound + 1 := by omega
  refine .closedOptional hvalue hshorter rfl rfl fun value close hvalue ↦ .pure ?_
  rw [Stmt.eraseSpans_return, hvalue]

/-- In a block the `else` that must not come next is always kept away by a brace or by another
statement. -/
theorem block
    (hitems : ∀ item ∈ items, StatementCompletes .inList inFunction false item.read item.tree)
    (hbegins : ∀ item ∈ items, Begins startsStatement item.read) :
    StatementCompletes place inFunction closed
      (.symbol .leftBrace :: items.flatMap Piece.read ++ [.symbol .rightBrace])
      (.block (items.map Piece.tree)) := by
  refine ofSimple (by simp) (by simp) fun depth bound rest hbound hdepth _ ↦ ?_
  simp only [List.length_append, List.length_cons, List.length_nil] at hbound
  refine .ifRefused (by simp) (.ifRefused (by simp) (.ifRefused (by simp) (.ifRefused (by simp)
    (.ifRefused (by simp) (.ifAt (by simp) (.map ?_))))))
  refine (takesBlock hitems hbegins (by omega) hdepth).mono fun trees htrees ↦ ?_
  rw [Stmt.eraseSpans_block, htrees]

/-- Without an `else` of its own a conditional would take the one that comes next, so it is not
closed. -/
theorem conditional {test body : List TokenKind} {condition : Expr} {thenBranch : Stmt}
    (htest : Expression .assignment test condition)
    (hbody : StatementCompletes .asBody inFunction false body thenBranch) :
    StatementCompletes place inFunction false
      (.keyword .if :: .symbol .leftParenthesis :: test ++ .symbol .rightParenthesis :: body)
      (.conditional condition thenBranch none) := by
  refine ofSimple (by simp) (by simp) fun depth bound rest hbound hdepth hrest ↦ ?_
  simp only [List.length_append, List.length_cons] at hbound
  refine .ifRefused (by simp) (.ifRefused (by simp) (.ifAccepted ?_))
  refine .condition htest (by omega) fun value hvalue ↦ ?_
  refine .last (hbody depth bound rest (by omega) hdepth hrest) fun branch hbranch ↦ ?_
  refine .peek (.refuse (hrest rfl)) fun accepted haccepted ↦ ?_
  rw [haccepted]
  refine .peek (.omitted _) fun other hother ↦ .pure ?_
  rw [Stmt.eraseSpans_conditional, hvalue, hbranch, hother]
  rfl

/-- Before its `else` a conditional needs a branch that is closed, and it is closed itself if the
branch behind it is. -/
theorem conditionalElse {test body other : List TokenKind} {condition : Expr}
    {thenBranch elseBranch : Stmt} (htest : Expression .assignment test condition)
    (hbody : StatementCompletes .asBody inFunction true body thenBranch)
    (helse : StatementCompletes .asBody inFunction closed other elseBranch) :
    StatementCompletes place inFunction closed
      (.keyword .if :: .symbol .leftParenthesis :: test ++ .symbol .rightParenthesis :: body
        ++ .keyword .else :: other)
      (.conditional condition thenBranch (some elseBranch)) := by
  simp only [List.cons_append, List.append_assoc]
  refine ofSimple (by simp) (by simp) fun depth bound rest hbound hdepth hrest ↦ ?_
  simp only [List.length_append, List.length_cons] at hbound
  refine .ifRefused (by simp) (.ifRefused (by simp) (.ifAccepted ?_))
  refine .condition htest (by omega) fun value hvalue ↦ ?_
  refine .bind (hbody depth bound _ (by omega) hdepth (by simp)) fun branch hbranch ↦ ?_
  refine .token (.accept _) fun accepted haccepted ↦ ?_
  rw [haccepted]
  have hother := helse depth bound rest (by omega) hdepth hrest
  refine .last (.optionally hother) fun found hfound ↦ .pure ?_
  obtain ⟨other, rfl, hother⟩ := hfound
  rw [Stmt.eraseSpans_conditional, hvalue, hbranch, Stmt.eraseSpansOption_some, hother]

/-- A loop is closed if its body is. -/
theorem whileLoop {test body : List TokenKind} {condition : Expr} {turn : Stmt}
    (htest : Expression .assignment test condition)
    (hbody : StatementCompletes .asBody inFunction closed body turn) :
    StatementCompletes place inFunction closed
      (.keyword .while :: .symbol .leftParenthesis :: test ++ .symbol .rightParenthesis :: body)
      (.loop condition turn) := by
  refine ofSimple (by simp) (by simp) fun depth bound rest hbound hdepth hrest ↦ ?_
  simp only [List.length_append, List.length_cons] at hbound
  refine .ifRefused (by simp) (.ifRefused (by simp) (.ifRefused (by simp) (.ifAccepted ?_)))
  refine .condition htest (by omega) fun value hvalue ↦ ?_
  refine .last (hbody depth bound rest (by omega) hdepth hrest) fun turn hturn ↦ .pure ?_
  rw [Stmt.eraseSpans_loop, hvalue, hturn]

/-- The same holds for a loop with clauses, each of which may be missing. -/
theorem forLoop {start test step body : List TokenKind} {initializer : Option Stmt}
    {condition increment : Option Expr} {turn : Stmt} (hstart : Initializer start initializer)
    (htest : OptionalExpression test condition) (hstep : OptionalExpression step increment)
    (hbody : StatementCompletes .asBody inFunction closed body turn) :
    StatementCompletes place inFunction closed
      (.keyword .for :: .symbol .leftParenthesis :: start ++ test ++ .symbol .semicolon :: step
        ++ .symbol .rightParenthesis :: body)
      (forTree initializer condition increment turn) := by
  simp only [List.cons_append, List.append_assoc]
  refine ofSimple (by simp) (by simp) fun depth bound rest hbound hdepth hrest ↦ ?_
  simp only [List.length_append, List.length_cons] at hbound
  refine .ifRefused (by simp) (.ifRefused (by simp) (.ifRefused (by simp) (.ifRefused (by simp)
    (.ifAccepted (.peek (.view _) fun keyword _ ↦ .token (.expect _) fun _ _ ↦ ?_)))))
  refine .bind (.initializer hstart (by omega)) fun first hfirst ↦ ?_
  refine .closedOptional htest (by omega) rfl rfl fun test _ htest ↦ ?_
  refine .closedOptional hstep (by omega) rfl rfl fun step _ hstep ↦ ?_
  refine .last (hbody depth bound rest (by omega) hdepth hrest) fun turn hturn ↦ .pure ?_
  rw [Stmt.eraseSpans_ofFor, hfirst, htest, hstep, hturn, forTree_eq_ofFor]

/-- Variables are declared in lists only. -/
theorem declare {tree : Stmt} (hdeclaration : VariableDeclaration read tree) :
    StatementCompletes .inList inFunction closed (.keyword .var :: read) tree := by
  intro depth bound rest hbound _ _
  rw [List.length_cons] at hbound
  obtain ⟨bound, rfl⟩ := Nat.exists_eq_succ_of_ne_zero (n := bound) (by omega)
  exact .ifRefused (by simp) (.ifAccepted (.variableDeclaration hdeclaration (by omega)))

/-- So are functions. A `return` may stand in their bodies, and the parameters and statements are
bounded by the tokens that write them. -/
theorem function {parameters : List String} (name : String)
    (hlength : parameters.length ≤ maximumArguments)
    (hitems : ∀ item ∈ items, StatementCompletes .inList true false item.read item.tree)
    (hbegins : ∀ item ∈ items, Begins startsStatement item.read) :
    StatementCompletes .inList inFunction closed
      (.keyword .fun :: .identifier name ::
        Grammar.parenthesized (parameters.map fun parameter ↦ [.identifier parameter]) ++
        .symbol .leftBrace :: items.flatMap Piece.read ++ [.symbol .rightBrace])
      (.function ⟨name, .origin⟩ (parameters.map fun parameter ↦ ⟨parameter, .origin⟩)
        (items.map Piece.tree) .origin) := by
  have hread : .keyword .fun :: .identifier name ::
        Grammar.parenthesized (parameters.map fun parameter ↦ [.identifier parameter]) ++
        .symbol .leftBrace :: items.flatMap Piece.read ++ [.symbol .rightBrace]
      = .keyword .fun :: .identifier name :: .symbol .leftParenthesis ::
        ((separated (parameters.map fun parameter ↦ [.identifier parameter]) ++
          [.symbol .rightParenthesis]) ++
        (.symbol .leftBrace :: items.flatMap Piece.read ++ [.symbol .rightBrace])) := by
    simp [Grammar.parenthesized]
  rw [hread]
  intro depth bound rest hbound _ _
  have hcount := Takes.length_le_length_parameters parameters
  simp only [List.length_append, List.length_cons, List.length_nil] at hbound
  obtain ⟨bound, rfl⟩ := Nat.exists_eq_succ_of_ne_zero (n := bound) (by omega)
  have hblock : Takes (depth + 1) (Parse.block (statement bound .inList) (bound + 1)) _ rest _ :=
    takesBlock hitems hbegins (by omega) fun _ ↦ Nat.succ_ne_zero depth
  refine .ifAccepted (.peek (.view _) fun keyword _ ↦ ?_)
  refine .token (.identifier _ name) fun identifier hidentifier ↦ .token (.expect _) fun _ _ ↦ ?_
  refine .bind (.parameters hlength (by omega)) fun values hvalues ↦ ?_
  refine .last (.insideFunction hblock) fun body hbody ↦ .peek (.view _) fun close _ ↦ .pure ?_
  rw [Stmt.eraseSpans_function, hidentifier, hvalues, hbody]

end StatementCompletes

/-- Every statement of the grammar with each `else` at the nearest conditional is read. -/
theorem Grammar.Statement.completes {place : StatementPlace} {inFunction closed : Bool}
    {read : List TokenKind} {tree : Stmt}
    (hstatement : Statement true place inFunction closed read tree) :
    StatementCompletes place inFunction closed read tree := by
  induction hstatement with
  | expression hvalue => exact .expression hvalue
  | print hvalue => exact .print hvalue
  | «return» hvalue => exact .return hvalue
  | block hitems ih => exact .block ih fun item hmem ↦ (hitems item hmem).begins
  | conditional htest _ ih => exact .conditional htest ih
  | conditionalElse htest _ _ ihbody ihother => exact .conditionalElse htest ihbody ihother
  | whileLoop htest _ ih => exact .whileLoop htest ih
  | forLoop hstart htest hstep _ ih => exact .forLoop hstart htest hstep ih
  | declare hdeclaration => exact .declare hdeclaration
  | function name hlength hitems ih =>
    exact .function name hlength ih fun item hmem ↦ (hitems item hmem).begins

end Lox
