import Lox.Proofs.Syntax.StatementCompleteness

/-!
# Statements without their semicolon

A statement of the grammar that ends with a semicolon is unfinished without it
(`Grammar.Statement.unfinished`). Before a closing brace it cannot be read: all its tokens are
passed, nothing is reported on the way, and reading fails at the brace
(`Grammar.Unfinished.exists_fails`). The error names the semicolon, unless what is missing might
have been the value of a `return`.

`Parse.Fails` is what `Parse.Takes` is for tokens that can be read.
-/

set_option autoImplicit false
set_option relaxedAutoImplicit false

namespace Lox

open Grammar

namespace Parse

variable {α β : Type}

/-- Where certain tokens come next, and certain others behind them, just the former are passed, and
reading fails at what comes next. -/
def Fails (depth : Nat) (parse : Parse α) (read rest : List TokenKind) (cause : SyntaxCause) :
    Prop :=
  ∀ first : Cursor, first.kinds = read ++ rest → first.depth = depth →
    ∃ last, parse.run first = .failed ⟨cause, last.place⟩ last ∧ first.Passes read last

namespace Fails

variable {depth : Nat} {parse : Parse α} {next : α → Parse β} {read more rest : List TokenKind}
  {good : α → Prop} {cause : SyntaxCause}

/-- A chain that fails at its first step. -/
theorem first (hparse : Fails depth parse read rest cause) :
    Fails depth (parse >>= next) read rest cause := by
  intro first hkinds hdepth
  obtain ⟨last, hrun, hpasses⟩ := hparse first hkinds hdepth
  refine ⟨last, ?_, hpasses⟩
  rw [Bounded.run_bind, hrun]

/-- A chain that fails behind its first step. -/
theorem bind (hparse : Takes depth parse read (more ++ rest) good)
    (hnext : ∀ value, good value → Fails depth (next value) more rest cause) :
    Fails depth (parse >>= next) (read ++ more) rest cause := by
  intro first hkinds hdepth
  rw [List.append_assoc] at hkinds
  obtain ⟨value, middle, hfirst, hread, hgood⟩ := hparse first hkinds hdepth
  have hmiddle : middle.kinds = more ++ rest := by
    rw [hread.kinds_eq] at hkinds
    exact List.append_cancel_left hkinds
  obtain ⟨last, hsecond, hmore⟩ :=
    hnext value hgood middle hmiddle (hread.depth_eq.trans hdepth)
  refine ⟨last, ?_, hread.trans hmore⟩
  rw [Bounded.run_bind_of_done hfirst, hsecond]

/-- A chain of which the first step passes nothing. -/
theorem peek (hparse : Takes depth parse [] (read ++ rest) good)
    (hnext : ∀ value, good value → Fails depth (next value) read rest cause) :
    Fails depth (parse >>= next) read rest cause :=
  bind hparse hnext

/-- A chain of which the first step passes a token. -/
theorem token {kind : TokenKind} (hparse : Takes depth parse [kind] (read ++ rest) good)
    (hnext : ∀ value, good value → Fails depth (next value) read rest cause) :
    Fails depth (parse >>= next) (kind :: read) rest cause :=
  bind hparse hnext

/-- A chain that fails behind its first step, at what comes next. -/
theorem last (hparse : Takes depth parse read rest good)
    (hnext : ∀ value, good value → Fails depth (next value) [] rest cause) :
    Fails depth (parse >>= next) read rest cause := by
  have hbind : Fails depth (parse >>= next) (read ++ []) rest cause := bind hparse hnext
  rwa [List.append_nil] at hbind

/-- A failure is at what comes next. -/
theorem failHere : Fails depth (failHere cause : Parse α) [] rest cause :=
  fun first _ _ ↦ ⟨first, rfl, .refl first⟩

section Branches

variable {kind : TokenKind} {yes no : Parse α}

/-- If the token that decides comes next, reading fails where the first branch does. -/
theorem ifAccepted (hyes : Fails depth yes read rest cause) :
    Fails depth (do if ← Parse.accept kind then yes else no) (kind :: read) rest cause := by
  refine .token (.accept kind) fun accepted haccepted ↦ ?_
  rwa [haccepted, if_pos rfl]

/-- Otherwise it fails where the second branch does. -/
theorem ifRefused (hkind : (read ++ rest).head? ≠ some kind)
    (hno : Fails depth no read rest cause) :
    Fails depth (do if ← Parse.accept kind then yes else no) read rest cause := by
  refine .peek (.refuse hkind) fun accepted haccepted ↦ ?_
  rwa [haccepted, if_neg Bool.false_ne_true]

/-- The same where the token is only looked at. -/
theorem ifNotAt (hkind : (read ++ rest).head? ≠ some kind) (hno : Fails depth no read rest cause) :
    Fails depth (do if ← Parse.isAt kind then yes else no) read rest cause := by
  refine .peek (.isAt kind) fun found hfound ↦ ?_
  rwa [hfound, decide_eq_false hkind, if_neg Bool.false_ne_true]

end Branches

/-- If another token comes next than the one that has to, then this is the error. -/
theorem expect {kind : TokenKind} (hkind : rest.head? ≠ some kind) :
    Fails depth (expect kind) [] rest (.unexpectedToken kind rest.head?) := by
  refine .peek .next? fun found hfound ↦ .ifRefused hkind ?_
  rw [hfound]
  exact .failHere

/-- No expression starts with a closing brace. Each level starts with an operand of the next one,
and the tightest has none to start with. -/
theorem expression (bound : Nat) (rest : List TokenKind) :
    Fails depth (expression (bound + 1)) [] (.symbol .rightBrace :: rest) .missingExpression := by
  have hprimary : Fails depth (primary (Parse.expression bound)) []
      (.symbol .rightBrace :: rest) .missingExpression := by
    refine .peek .next? fun kind hkind ↦ ?_
    rw [hkind]
    exact .peek (.view _) fun _ _ ↦ .failHere
  have hunary : Fails depth (unary (Parse.expression bound) (bound + 1)) []
      (.symbol .rightBrace :: rest) .missingExpression := by
    refine .peek (.operator? _) fun operator hoperator ↦ ?_
    rw [hoperator]
    exact hprimary.first
  exact hunary.first.first.first.first.first.first.first

/-- What is reported where a semicolon is missing before a closing brace. -/
abbrev missingSemicolon : SyntaxCause :=
  .unexpectedToken (.symbol .semicolon) (some (.symbol .rightBrace))

/-- Where a semicolon has to come next and a brace does, nothing behind the semicolon is read. -/
theorem semicolon {next : Span → Parse β} (rest : List TokenKind) :
    Fails depth (Parse.expect (.symbol .semicolon) >>= next) [] (.symbol .rightBrace :: rest)
      missingSemicolon := by
  have hexpect : Fails depth (Parse.expect (.symbol .semicolon)) []
      (.symbol .rightBrace :: rest) _ := expect (by simp)
  exact hexpect.first

/-- An expression and the semicolon that should close it. -/
theorem openExpression {tree : Expr} {bound : Nat} (hexpression : Expression .assignment read tree)
    (hbound : read.length ≤ bound) {next : Expr → Span → Parse β} (rest : List TokenKind) :
    Fails depth (do
      let value ← Parse.expression bound
      let close ← Parse.expect (.symbol .semicolon)
      next value close) read (.symbol .rightBrace :: rest) missingSemicolon :=
  .last (Takes.expression hexpression hbound depth (.cons _ (by decide))) fun _ _ ↦ semicolon rest

/-- An expression that is present, and the semicolon that should close it. -/
theorem openOptional {tree : Expr} {bound : Nat} (hexpression : Expression .assignment read tree)
    (hbound : read.length ≤ bound) {next : Option Expr → Span → Parse β} (rest : List TokenKind) :
    Fails depth (do
      let value ← Parse.optionally true (Parse.expression bound)
      let close ← Parse.expect (.symbol .semicolon)
      next value close) read (.symbol .rightBrace :: rest) missingSemicolon :=
  .last (.optionally (Takes.expression hexpression hbound depth (.cons _ (by decide))))
    fun _ _ ↦ semicolon rest

end Fails

end Parse

/-! ### Statements up to their semicolon -/

/-- The last token of a list is that of its last part. -/
theorem exists_of_append_eq {front part read : List TokenKind} {mark kind : TokenKind}
    (hpart : part ≠ []) (hwhole : read ++ [kind] = front ++ mark :: part) :
    ∃ initial, part = initial ++ [kind] ∧ read = front ++ mark :: initial := by
  have hinitial := List.dropLast_concat_getLast hpart
  rw [← hinitial, ← List.cons_append, ← List.append_assoc] at hwhole
  obtain ⟨rfl, hlast⟩ := List.append_inj' hwhole rfl
  obtain rfl : kind = part.getLast hpart := by simpa using hlast
  exact ⟨_, hinitial.symm, rfl⟩

namespace Grammar

/-- The tokens of a statement up to the semicolon at its end. -/
inductive Unfinished : StatementPlace → Bool → List TokenKind → Prop
  | expression {place : StatementPlace} {inFunction : Bool} {read : List TokenKind} {value : Expr} :
    Expression .assignment read value → Unfinished place inFunction read
  | print {place : StatementPlace} {inFunction : Bool} {read : List TokenKind} {value : Expr} :
    Expression .assignment read value → Unfinished place inFunction (.keyword .print :: read)
  | return {place : StatementPlace} {read : List TokenKind} {value : Option Expr} :
    OptionalExpression read value → Unfinished place true (.keyword .return :: read)
  | conditional {place : StatementPlace} {inFunction : Bool} {test read : List TokenKind}
    {condition : Expr} : Expression .assignment test condition →
    Unfinished .asBody inFunction read →
    Unfinished place inFunction
      (.keyword .if :: .symbol .leftParenthesis :: test ++ .symbol .rightParenthesis :: read)
  | conditionalElse {place : StatementPlace} {inFunction : Bool} {test body read : List TokenKind}
    {condition : Expr} {thenBranch : Stmt} : Expression .assignment test condition →
    Statement true .asBody inFunction true body thenBranch →
    Unfinished .asBody inFunction read →
    Unfinished place inFunction
      (.keyword .if :: .symbol .leftParenthesis :: test ++ .symbol .rightParenthesis :: body
        ++ .keyword .else :: read)
  | whileLoop {place : StatementPlace} {inFunction : Bool} {test read : List TokenKind}
    {condition : Expr} : Expression .assignment test condition →
    Unfinished .asBody inFunction read →
    Unfinished place inFunction
      (.keyword .while :: .symbol .leftParenthesis :: test ++ .symbol .rightParenthesis :: read)
  | forLoop {place : StatementPlace} {inFunction : Bool} {start test step read : List TokenKind}
    {initializer : Option Stmt} {condition increment : Option Expr} :
    Initializer start initializer → OptionalExpression test condition →
    OptionalExpression step increment → Unfinished .asBody inFunction read →
    Unfinished place inFunction
      (.keyword .for :: .symbol .leftParenthesis :: start ++ test ++ .symbol .semicolon :: step
        ++ .symbol .rightParenthesis :: read)
  | declare {inFunction : Bool} {read : List TokenKind} {tree : Stmt} :
    VariableDeclaration (read ++ [.symbol .semicolon]) tree →
    Unfinished .inList inFunction (.keyword .var :: read)

/-- A statement with a semicolon at its end is unfinished without it. -/
theorem Statement.unfinished {place : StatementPlace} {inFunction closed : Bool}
    {read : List TokenKind} {tree : Stmt}
    (hstatement : Statement true place inFunction closed (read ++ [.symbol .semicolon]) tree) :
    Unfinished place inFunction read := by
  generalize hwhole : read ++ [.symbol .semicolon] = whole at hstatement
  induction hstatement generalizing read with
  | expression hvalue =>
    obtain ⟨rfl, -⟩ := List.append_inj' hwhole rfl
    exact .expression hvalue
  | print hvalue =>
    obtain ⟨rfl, -⟩ := List.append_inj' hwhole rfl
    exact .print hvalue
  | «return» hvalue =>
    obtain ⟨rfl, -⟩ := List.append_inj' hwhole rfl
    exact .return hvalue
  | block =>
    obtain ⟨-, hlast⟩ := List.append_inj' hwhole rfl
    cases hlast
  | conditional htest hbody ih =>
    obtain ⟨initial, rfl, rfl⟩ := exists_of_append_eq hbody.begins.ne_nil hwhole
    exact .conditional htest (ih rfl)
  | conditionalElse htest hbody hother _ ih =>
    obtain ⟨initial, rfl, rfl⟩ := exists_of_append_eq hother.begins.ne_nil hwhole
    exact .conditionalElse htest hbody (ih rfl)
  | whileLoop htest hbody ih =>
    obtain ⟨initial, rfl, rfl⟩ := exists_of_append_eq hbody.begins.ne_nil hwhole
    exact .whileLoop htest (ih rfl)
  | forLoop hstart htest hstep hbody ih =>
    obtain ⟨initial, rfl, rfl⟩ := exists_of_append_eq hbody.begins.ne_nil hwhole
    exact .forLoop hstart htest hstep (ih rfl)
  | @declare _ _ part _ hdeclaration =>
    have hne : part ≠ [] := by cases hdeclaration <;> simp
    have hfront : read ++ [.symbol .semicolon] = [] ++ _ := hwhole
    obtain ⟨initial, rfl, rfl⟩ := exists_of_append_eq hne hfront
    exact .declare hdeclaration
  | function =>
    obtain ⟨-, hlast⟩ := List.append_inj' hwhole rfl
    cases hlast

/-- Without its semicolon a statement still begins as a statement, even if it is the shortest
`return`. -/
theorem Unfinished.begins {place : StatementPlace} {inFunction : Bool} {read : List TokenKind}
    (hunfinished : Unfinished place inFunction read) : Begins startsStatement read := by
  cases hunfinished with
  | expression hvalue => exact hvalue.begins.startsStatement
  | _ => exact ⟨_, _, rfl, rfl⟩

end Grammar

/-- The condition of a loop or of a conditional is taken with its parentheses. -/
theorem Parse.Takes.conditionAlone {depth bound : Nat} {test : List TokenKind} {tree : Expr}
    (htest : Expression .assignment test tree) (hbound : test.length ≤ bound)
    (rest : List TokenKind) :
    Takes depth (Parse.condition bound)
      (.symbol .leftParenthesis :: (test ++ [.symbol .rightParenthesis])) rest fun _ ↦ True := by
  have htakes : Takes depth (Parse.condition bound >>= Pure.pure)
      (.symbol .leftParenthesis :: (test ++ [.symbol .rightParenthesis])) rest fun _ ↦ True :=
    .condition htest hbound fun _ _ ↦ .pure True.intro
  rwa [bind_pure] at htakes

/-- What stands between the keyword of a loop with an initializer and its body, and the place of the
keyword, which has been passed. -/
def Parse.loopHeader (bound : Nat) :
    Parse (Span × Option Stmt × Option Expr × Option Expr) := do
  let keyword ← .gets Cursor.passedSpan
  let _ ← expect (.symbol .leftParenthesis)
  let first ← initializer bound
  let test ← optionally (!(← isAt (.symbol .semicolon))) (expression bound)
  let _ ← expect (.symbol .semicolon)
  let increment ← optionally (!(← isAt (.symbol .rightParenthesis))) (expression bound)
  let _ ← expect (.symbol .rightParenthesis)
  pure (keyword, first, test, increment)

/-- A loop with clauses is read by its header and its body. -/
theorem Parse.forLoop_eq (statement : Parse Stmt) (bound : Nat) :
    forLoop statement bound = loopHeader bound >>= fun header ↦ statement >>= fun body ↦
      pure (.ofFor header.1 header.2.1 header.2.2.1 header.2.2.2 body) := by
  simp only [forLoop, loopHeader, bind_assoc, pure_bind]

/-- The header is taken with all of its clauses, whichever of them are there. -/
theorem Parse.Takes.loopHeader {depth bound : Nat} {start test step rest : List TokenKind}
    {initializer : Option Stmt} {condition increment : Option Expr}
    (hstart : Initializer start initializer) (htest : OptionalExpression test condition)
    (hstep : OptionalExpression step increment)
    (hbound : start.length + test.length + step.length ≤ bound) :
    Takes depth (Parse.loopHeader bound)
      (.symbol .leftParenthesis :: (start ++ (test ++ .symbol .semicolon ::
        (step ++ [.symbol .rightParenthesis])))) rest fun _ ↦ True := by
  refine .peek (.view _) fun keyword _ ↦ .token (.expect _) fun _ _ ↦ ?_
  refine .bind (.initializer hstart (by omega)) fun first _ ↦ ?_
  refine .closedOptional htest (by omega) rfl rfl fun test _ _ ↦ ?_
  exact .closedOptional hstep (by omega) rfl rfl fun step _ _ ↦ .pure True.intro

/-! ### The rules of the grammar -/

/-- Tokens at which, before a closing brace, reading a statement fails at the brace, if the bound is
larger than their number and an open function body allows a `return`. -/
def StatementFails (place : StatementPlace) (inFunction : Bool) (read : List TokenKind)
    (cause : SyntaxCause) : Prop :=
  ∀ depth bound rest, read.length < bound → (inFunction = true → depth ≠ 0) →
    Parse.Fails depth (Parse.statement bound place) read (.symbol .rightBrace :: rest) cause

namespace StatementFails

open Parse Fails

variable {place : StatementPlace} {inFunction : Bool} {read : List TokenKind} {cause : SyntaxCause}

/-- A statement that declares nothing fails at every place. -/
theorem ofSimple (hfirst : ∀ rest, ∀ word ∈ [Keyword.fun, .var, .class],
      (read ++ rest).head? ≠ some (.keyword word))
    (hsimple : ∀ depth bound rest, read.length ≤ bound → (inFunction = true → depth ≠ 0) →
      Fails depth (simpleStatement (statement bound) (bound + 1)) read
        (.symbol .rightBrace :: rest) cause) :
    StatementFails place inFunction read cause := by
  intro depth bound rest hbound hdepth
  obtain ⟨bound, rfl⟩ := Nat.exists_eq_succ_of_ne_zero (Nat.ne_zero_of_lt hbound)
  have hfails := hsimple depth bound rest (by omega) hdepth
  cases place with
  | inList =>
    exact .ifRefused (hfirst _ .fun (by simp)) (.ifRefused (hfirst _ .var (by simp))
      (.ifNotAt (hfirst _ .class (by simp)) hfails))
  | asBody => exact hfails

/-- Behind an expression there is nothing but the semicolon that could come next. -/
theorem expression {value : Expr} (hvalue : Expression .assignment read value) :
    StatementFails place inFunction read missingSemicolon := by
  have hbegins := hvalue.begins
  refine ofSimple (fun rest word hword ↦ ?_) fun depth bound rest hbound _ ↦ ?_
  · simp only [List.mem_cons, List.not_mem_nil, or_false] at hword
    rcases hword with rfl | rfl | rfl <;> exact hbegins.head?_ne rfl rest
  · refine .ifRefused (hbegins.head?_ne rfl _) (.ifRefused (hbegins.head?_ne rfl _)
      (.ifRefused (hbegins.head?_ne rfl _) (.ifRefused (hbegins.head?_ne rfl _)
      (.ifRefused (hbegins.head?_ne rfl _) (.ifNotAt (hbegins.head?_ne rfl _) ?_)))))
    exact openExpression hvalue (by omega) rest

/-- The same for the value of a `print` statement. -/
theorem print {value : Expr} (hvalue : Expression .assignment read value) :
    StatementFails place inFunction (.keyword .print :: read) missingSemicolon := by
  refine ofSimple (by simp) fun depth bound rest hbound _ ↦ ?_
  rw [List.length_cons] at hbound
  exact .ifAccepted (openExpression hvalue (by omega) rest)

/-- Behind `return` a value might follow. -/
theorem «return» {value : Option Expr} (hvalue : OptionalExpression read value) :
    StatementFails place true (.keyword .return :: read)
      (if read = [] then .missingExpression else missingSemicolon) := by
  refine ofSimple (by simp) fun depth bound rest hbound hdepth ↦ ?_
  rw [List.length_cons] at hbound
  refine .ifRefused (by simp) (.ifAccepted (.peek (.view _) fun keyword _ ↦ ?_))
  refine .peek .depth? fun found hfound ↦ ?_
  rw [hfound, if_neg (hdepth rfl)]
  refine .peek (.isAt _) fun found hfound ↦ ?_
  cases hvalue with
  | missing =>
    obtain rfl : found = false := hfound
    rw [if_pos rfl]
    exact (Fails.expression bound rest).first.first
  | present hpresent =>
    obtain rfl : found = false := hfound.trans (decide_eq_false (hpresent.begins.head?_ne rfl _))
    rw [if_neg hpresent.begins.ne_nil]
    exact openOptional hpresent (by omega) rest

/-- The same for a declaration, behind its name or behind its initial value. -/
theorem declare {tree : Stmt}
    (hdeclaration : VariableDeclaration (read ++ [.symbol .semicolon]) tree) :
    StatementFails .inList inFunction (.keyword .var :: read) missingSemicolon := by
  intro depth bound rest hbound _
  rw [List.length_cons] at hbound
  obtain ⟨bound, rfl⟩ := Nat.exists_eq_succ_of_ne_zero (Nat.ne_zero_of_lt hbound)
  refine .ifRefused (by simp) (.ifAccepted ?_)
  generalize hread : read ++ [.symbol .semicolon] = whole at hdeclaration
  cases hdeclaration with
  | bare name =>
    obtain ⟨rfl, -⟩ := List.append_inj' (hread.trans (List.append_cons [] _ _)) rfl
    refine .token (.identifier _ name) fun identifier _ ↦ ?_
    refine .peek (.refuse (by simp)) fun accepted haccepted ↦ ?_
    rw [haccepted]
    exact .peek (.omitted _) fun _ _ ↦ semicolon rest
  | @initialized value _ name hvalue =>
    obtain ⟨rfl, -⟩ := List.append_inj' hread rfl
    simp only [List.length_cons] at hbound
    refine .token (.identifier _ name) fun identifier _ ↦ ?_
    refine .token (.accept _) fun accepted haccepted ↦ ?_
    rw [haccepted]
    exact openOptional hvalue (by omega) rest

/-- A condition in parentheses is read before what fails. -/
theorem behindCondition {test : List TokenKind} {tree : Expr} {depth bound : Nat}
    {rest : List TokenKind} {next : Expr → Parse Stmt} (htest : Expression .assignment test tree)
    (hbound : test.length ≤ bound)
    (hnext : ∀ value, Fails depth (next value) read rest cause) :
    Fails depth (Parse.condition bound >>= next)
      (.symbol .leftParenthesis :: test ++ .symbol .rightParenthesis :: read) rest cause := by
  simpa using Fails.bind (.conditionAlone htest hbound _) fun value _ ↦ hnext value

/-- A conditional without an `else` ends with its branch, so reading fails there. -/
theorem conditional {test : List TokenKind} {condition : Expr}
    (htest : Expression .assignment test condition)
    (hbody : StatementFails .asBody inFunction read cause) :
    StatementFails place inFunction
      (.keyword .if :: .symbol .leftParenthesis :: test ++ .symbol .rightParenthesis :: read)
      cause := by
  refine ofSimple (by simp) fun depth bound rest hbound hdepth ↦ ?_
  simp only [List.length_append, List.length_cons] at hbound
  refine .ifRefused (by simp) (.ifRefused (by simp) (.ifAccepted ?_))
  refine behindCondition htest (by omega) fun value ↦ ?_
  exact (hbody depth bound rest (by omega) hdepth).first

/-- If there is an `else`, the branch before it is finished, and reading fails in the one behind it.
-/
theorem conditionalElse {test body : List TokenKind} {condition : Expr} {thenBranch : Stmt}
    (htest : Expression .assignment test condition)
    (hbody : Statement true .asBody inFunction true body thenBranch)
    (hother : StatementFails .asBody inFunction read cause) :
    StatementFails place inFunction
      (.keyword .if :: .symbol .leftParenthesis :: test ++ .symbol .rightParenthesis :: body ++
        .keyword .else :: read) cause := by
  simp only [List.cons_append, List.append_assoc]
  refine ofSimple (by simp) fun depth bound rest hbound hdepth ↦ ?_
  simp only [List.length_append, List.length_cons] at hbound
  refine .ifRefused (by simp) (.ifRefused (by simp) (.ifAccepted ?_))
  refine behindCondition htest (by omega) fun value ↦ ?_
  refine .bind (hbody.completes depth bound _ (by omega) hdepth (by simp)) fun branch _ ↦ ?_
  refine .token (.accept _) fun accepted haccepted ↦ ?_
  rw [haccepted]
  exact (hother depth bound rest (by omega) hdepth).first.first

/-- A loop ends with its body. -/
theorem whileLoop {test : List TokenKind} {condition : Expr}
    (htest : Expression .assignment test condition)
    (hbody : StatementFails .asBody inFunction read cause) :
    StatementFails place inFunction
      (.keyword .while :: .symbol .leftParenthesis :: test ++ .symbol .rightParenthesis :: read)
      cause := by
  refine ofSimple (by simp) fun depth bound rest hbound hdepth ↦ ?_
  simp only [List.length_append, List.length_cons] at hbound
  refine .ifRefused (by simp) (.ifRefused (by simp) (.ifRefused (by simp) (.ifAccepted ?_)))
  refine behindCondition htest (by omega) fun value ↦ ?_
  exact (hbody depth bound rest (by omega) hdepth).first

/-- So does a loop with clauses. Its header has been taken before. -/
theorem forLoop {start test step : List TokenKind} {initializer : Option Stmt}
    {condition increment : Option Expr} (hstart : Initializer start initializer)
    (htest : OptionalExpression test condition) (hstep : OptionalExpression step increment)
    (hbody : StatementFails .asBody inFunction read cause) :
    StatementFails place inFunction
      (.keyword .for :: .symbol .leftParenthesis :: start ++ test ++ .symbol .semicolon :: step
        ++ .symbol .rightParenthesis :: read) cause := by
  have hread : .keyword .for :: .symbol .leftParenthesis :: start ++ test ++
        .symbol .semicolon :: step ++ .symbol .rightParenthesis :: read
      = .keyword .for :: (.symbol .leftParenthesis :: (start ++ (test ++ .symbol .semicolon ::
        (step ++ [.symbol .rightParenthesis]))) ++ read) := by simp
  rw [hread]
  refine ofSimple (by simp) fun depth bound rest hbound hdepth ↦ ?_
  simp only [List.length_append, List.length_cons] at hbound
  refine .ifRefused (by simp) (.ifRefused (by simp) (.ifRefused (by simp) (.ifRefused (by simp)
    (.ifAccepted ?_))))
  rw [forLoop_eq]
  refine .bind (.loopHeader hstart htest hstep (by omega)) fun header _ ↦ ?_
  exact (hbody depth bound rest (by omega) hdepth).first

end StatementFails

/-- Before a closing brace, a statement without the semicolon at its end cannot be read: all its
tokens are passed and reading fails at the brace. -/
theorem Grammar.Unfinished.exists_fails {place : StatementPlace} {inFunction : Bool}
    {read : List TokenKind} (hunfinished : Unfinished place inFunction read) :
    ∃ cause, (cause = Parse.Fails.missingSemicolon ∨ cause = .missingExpression) ∧
      StatementFails place inFunction read cause := by
  induction hunfinished with
  | expression hvalue => exact ⟨_, .inl rfl, .expression hvalue⟩
  | print hvalue => exact ⟨_, .inl rfl, .print hvalue⟩
  | «return» hvalue =>
    refine ⟨_, ?_, .return hvalue⟩
    split
    · exact .inr rfl
    · exact .inl rfl
  | conditional htest _ ih =>
    obtain ⟨cause, hcause, hfails⟩ := ih
    exact ⟨cause, hcause, .conditional htest hfails⟩
  | conditionalElse htest hbody _ ih =>
    obtain ⟨cause, hcause, hfails⟩ := ih
    exact ⟨cause, hcause, .conditionalElse htest hbody hfails⟩
  | whileLoop htest _ ih =>
    obtain ⟨cause, hcause, hfails⟩ := ih
    exact ⟨cause, hcause, .whileLoop htest hfails⟩
  | forLoop hstart htest hstep _ ih =>
    obtain ⟨cause, hcause, hfails⟩ := ih
    exact ⟨cause, hcause, .forLoop hstart htest hstep hfails⟩
  | declare hdeclaration => exact ⟨_, .inl rfl, .declare hdeclaration⟩

end Lox
