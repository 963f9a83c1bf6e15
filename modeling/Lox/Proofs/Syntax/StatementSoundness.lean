import Lox.Proofs.Syntax.ExpressionSoundness
import Lox.Proofs.Syntax.NearestElse

/-!
# Statements are read as the grammar has them

Whatever `Parse.statement` reads without reporting an error is a statement of the grammar, with the
tree that is yielded apart from places, in which every `else` belongs to the nearest conditional
that can take it (`Parse.Sound.statement`). A statement is closed if an `else` comes next, because a
conditional that is read last would have taken it.
-/

set_option autoImplicit false
set_option relaxedAutoImplicit false

namespace Lox

open Grammar

/-- The tree of a loop is the one that the parser makes of its parts. -/
theorem Grammar.forTree_eq_ofFor (initializer : Option Stmt) (condition increment : Option Expr)
    (body : Stmt) :
    forTree initializer condition increment body
      = .ofFor .origin initializer condition increment body := by
  cases initializer <;> cases increment <;> rfl

/-- The reading of a statement at a place. -/
def ofPlace (place : StatementPlace) : Reading Stmt := fun depth read rest tree ↦
  Statement true place (decide (depth ≠ 0)) (decide (rest.head? = some (.keyword .else))) read
    tree.eraseSpans

/-- The reading of a list of statements. -/
def ofList : Reading (List Stmt) := fun depth read _ trees ↦
  ∃ items : List (Piece Stmt),
    (∀ item ∈ items, Statement true .inList (decide (depth ≠ 0)) false item.read item.tree) ∧
    read = items.flatMap Piece.read ∧ Stmt.eraseSpansAll trees = items.map Piece.tree

namespace Parse.Sound

theorem optionalExpression (condition : Bool) (bound : Nat) :
    Sound (Parse.optionally condition (Parse.expression bound)) fun _ read _ value ↦
      OptionalExpression read (value.map Expr.eraseSpans) := by
  refine (optionally (expression bound) condition).mono ?_
  rintro _ _ _ _ (⟨-, present, rfl, hpresent⟩ | ⟨-, rfl, rfl⟩)
  · exact .present hpresent
  · exact .missing

/-- What is read behind `var` is a declaration of the grammar, with or without an initial value. -/
theorem variableDeclaration (bound : Nat) :
    Sound (variableDeclaration bound) fun _ read _ tree ↦
      VariableDeclaration read tree.eraseSpans := by
  refine .bind (.identifier _) fun name ↦ .bind (.accept _) fun accepted ↦
    .bind (optionally (expression bound) accepted) fun value ↦ .bind (.expect _) fun _ ↦ .pure ?_
  rintro _ _ _ rfl read hvalue marks hmarks _ rfl
  rcases hmarks with ⟨rfl, rfl⟩ | ⟨rfl, rfl, -⟩
  · rcases hvalue with ⟨-, present, rfl, hpresent⟩ | ⟨hfalse, -⟩
    · simpa [Identifier.eraseSpan_eq] using
        VariableDeclaration.initialized name.name hpresent
    · cases hfalse
  · rcases hvalue with ⟨hfalse, -⟩ | ⟨-, rfl, rfl⟩
    · cases hfalse
    · exact .bare name.name

theorem expressionStatement (bound : Nat) :
    Sound (expressionStatement bound) fun _ read _ tree ↦
      ∃ read' value, read = read' ++ [.symbol .semicolon] ∧ tree.eraseSpans = .expression value ∧
        Expression .assignment read' value := by
  refine .bind (expression bound) fun value ↦ .bind (.expect _) fun _ ↦ .pure ?_
  rintro _ _ _ rfl read hvalue
  exact ⟨read, _, by simp, rfl, hvalue⟩

theorem condition (bound : Nat) :
    Sound (condition bound) fun _ read _ tree ↦ ∃ test,
      read = .symbol .leftParenthesis :: test ++ [.symbol .rightParenthesis] ∧
        Expression .assignment test tree.eraseSpans := by
  refine .bind (.expect _) fun _ ↦ .bind (expression bound) fun value ↦ .bind (.expect _) fun _ ↦
    .pure ?_
  rintro _ _ _ rfl read hvalue _ rfl
  exact ⟨read, by simp, hvalue⟩

/-- The first part of a loop has been read as one of its three forms, each with its semicolon. -/
theorem initializer (bound : Nat) :
    Sound (initializer bound) fun _ read _ tree ↦
      Initializer read (tree.map Stmt.eraseSpans) := by
  refine .ifAccept (.pure fun _ _ ↦ .missing) (.ifAccept ?_ ?_)
  · refine .map ((variableDeclaration bound).mono ?_)
    intro _ _ _ tree hdeclaration _
    exact .declaration hdeclaration
  · refine .map ((expressionStatement bound).mono ?_)
    rintro _ _ _ tree ⟨read, value, rfl, htree, hvalue⟩ - -
    rw [Option.map_some, htree]
    exact .expression hvalue

/-- A `return` that has been read without an error stands in a function, as any other one is
reported. -/
theorem returnStatement (bound : Nat) :
    Sound (returnStatement bound) fun depth read rest tree ↦
      ∀ place, ofPlace place depth (.keyword .return :: read) rest tree := by
  refine .view fun keyword ↦ ?_
  have hrest : Sound (do
      let value ← Parse.optionally (!(← Parse.isAt (.symbol .semicolon))) (Parse.expression bound)
      let close ← Parse.expect (.symbol .semicolon)
      Pure.pure (Stmt.return value ⟨keyword.start, close.stop⟩)) fun depth read rest tree ↦
        depth ≠ 0 → ∀ place, ofPlace place depth (.keyword .return :: read) rest tree := by
    refine .view fun absent ↦ .bind (optionalExpression _ bound) fun value ↦
      .bind (.expect _) fun close ↦ .pure ?_
    rintro depth rest _ rfl read hvalue hdepth place
    have hreturn : Statement true place true (decide (rest.head? = some (.keyword .else))) _ _ :=
      .return hvalue
    simpa [ofPlace, hdepth] using hreturn
  have hdepth : Sound (.gets Cursor.depth) fun depth read _ value ↦ read = [] ∧ value = depth :=
    .gets fun _ ↦ ⟨rfl, rfl⟩
  refine .bind hdepth fun depth ↦ ?_
  split
  · exact .bind_of_false (.report _) fun _ ↦ hrest.trivial
  · rename_i hne
    refine hrest.mono ?_
    rintro _ _ _ _ himp _ ⟨rfl, rfl⟩
    exact himp hne

variable {nested : Parse Stmt}

/-- A list of statements has been read up to a token that ends it, with a statement of the grammar
for each turn. The induction is on the bound. -/
theorem statements (hnested : Sound nested (ofPlace .inList)) (inBlock : Bool) (bound : Nat) :
    Sound (statements inBlock nested bound) fun depth read rest trees ↦
      ofList depth read rest trees ∧
        (inBlock = false → rest.head? = none ∨ rest.head? = some .endOfInput) := by
  induction bound with
  | zero => exact .exhausted
  | succ bound ih =>
    have hview : Sound
        (.gets fun cursor ↦ cursor.isAtEnd || inBlock && cursor.isAt (.symbol .rightBrace))
        fun _ read rest stop ↦ read = [] ∧ (stop = true → inBlock = false →
          rest.head? = none ∨ rest.head? = some .endOfInput) := by
      refine .gets fun cursor ↦ ⟨rfl, ?_⟩
      rintro hstop rfl
      simpa [Cursor.isAtEnd, cursor.next?_eq_head?] using hstop
    refine .bind hview fun stop ↦ ?_
    cases stop with
    | true =>
      refine .pure ?_
      rintro _ _ _ ⟨rfl, hstop⟩
      exact ⟨⟨[], by simp, rfl, rfl⟩, hstop rfl⟩
    | false =>
      refine .attempt hnested (fun first ↦ .bind ih fun others ↦ .pure ?_) fun error ↦ ?_
      · rintro depth rest read ⟨⟨items, hitems, rfl, htrees⟩, hend⟩ before hfirst _ ⟨rfl, -⟩
        refine ⟨⟨⟨before, first.eraseSpans⟩ :: items, ?_, ?_, ?_⟩, hend⟩
        · rintro item (_ | ⟨_, hmem⟩)
          · exact Statement.weaken hfirst
          · exact hitems item hmem
        · simp
        · rw [Stmt.eraseSpansAll_cons, htrees, List.map_cons]
      · exact .bind_of_false (.report error) fun _ ↦ .bind .resynchronize fun _ ↦
          ih.mono fun _ _ _ _ _ _ _ ↦ True.intro

theorem block (hnested : Sound nested (ofPlace .inList)) (bound : Nat) :
    Sound (block nested bound) fun depth read _ trees ↦ ∃ items : List (Piece Stmt),
      (∀ item ∈ items, Statement true .inList (decide (depth ≠ 0)) false item.read item.tree) ∧
      read = .symbol .leftBrace :: items.flatMap Piece.read ++ [.symbol .rightBrace] ∧
      Stmt.eraseSpansAll trees = items.map Piece.tree := by
  refine .bind (.expect _) fun _ ↦ .bind (statements hnested true bound) fun trees ↦
    .bind (.expect _) fun _ ↦ .pure ?_
  rintro depth rest _ rfl read ⟨⟨items, hitems, rfl, htrees⟩, -⟩ _ rfl
  exact ⟨items, hitems, by simp, htrees⟩

/-- A function has been read with its parameters, of which there are not too many, and with a body
in which a `return` may stand. -/
theorem functionDeclaration (hnested : Sound nested (ofPlace .inList)) (bound : Nat) :
    Sound (functionDeclaration nested bound) fun depth read rest tree ↦
      ofPlace .inList depth (.keyword .fun :: read) rest tree := by
  refine .view fun keyword ↦ .bind (.identifier _) fun name ↦ .bind (.expect _) fun _ ↦
    .bind (parenthesized (.identifier _) _ bound) fun parameters ↦
    .bind (insideFunction (block hnested bound)) fun body ↦ .view fun close ↦ .pure ?_
  rintro depth rest _ ⟨items, hitems, rfl, htrees⟩ read ⟨names, hlength, hnames, hread, hvalues⟩
    _ rfl _ rfl
  have hparameters : names.map Piece.read
      = (parameters.1.map Identifier.name).map fun parameter ↦ [.identifier parameter] := by
    rw [hvalues, List.map_map, List.map_map]
    exact List.map_congr_left hnames
  have hlength' : (parameters.1.map Identifier.name).length ≤ maximumArguments := by
    rwa [hvalues, List.length_map, List.length_map]
  have hfunction : Statement true .inList (decide (depth ≠ 0))
      (decide (rest.head? = some (.keyword .else))) _ _ := .function name.name hlength' hitems
  have herased : (parameters.1.map Identifier.name).map (fun parameter ↦ ⟨parameter, .origin⟩)
      = parameters.1.map Identifier.eraseSpan := List.map_map
  have hname : (⟨name.name, .origin⟩ : Identifier) = name.eraseSpan := rfl
  rw [← hparameters, ← hread, herased, hname] at hfunction
  simpa [ofPlace, htrees] using hfunction

variable (hnested : Sound nested (ofPlace .asBody))

include hnested

/-- Without an `else` the conditional is not closed and need not be, as no `else` comes next.
Otherwise the branch before the `else` is closed, since it would have taken the `else` itself. -/
theorem conditional (bound : Nat) :
    Sound (conditional nested bound) fun depth read rest tree ↦
      ∀ place, ofPlace place depth (.keyword .if :: read) rest tree := by
  refine .bind (condition bound) fun test ↦ .bind hnested fun thenBranch ↦
    .bind (.accept _) fun accepted ↦ .bind (optionally hnested accepted) fun elseBranch ↦ .pure ?_
  rintro depth rest other hother mark hmark body hbody _ ⟨read, rfl, htest⟩ place
  rcases hmark with ⟨rfl, rfl⟩ | ⟨rfl, rfl, hnext⟩
  · rcases hother with ⟨-, elseBranch, rfl, hother⟩ | ⟨hfalse, -⟩
    · have hif : Statement true place _ _ _ _ := .conditionalElse htest hbody hother
      simpa [ofPlace] using hif
    · cases hfalse
  · rcases hother with ⟨hfalse, -⟩ | ⟨-, rfl, rfl⟩
    · cases hfalse
    · have hif : Statement true place _ _ _ _ := .conditional htest hbody.weaken
      have hopen : ¬rest.head? = some (.keyword .else) := by simpa using hnext
      simpa [ofPlace, hopen] using hif

theorem whileLoop (bound : Nat) :
    Sound (whileLoop nested bound) fun depth read rest tree ↦
      ∀ place, ofPlace place depth (.keyword .while :: read) rest tree := by
  refine .bind (condition bound) fun test ↦ .bind hnested fun body ↦ .pure ?_
  rintro depth rest other hother _ ⟨read, rfl, htest⟩ place
  have hloop : Statement true place _ _ _ _ := .whileLoop htest hother
  simpa [ofPlace] using hloop

/-- What is read as a loop with clauses is the tree that stands for it. -/
theorem forLoop (bound : Nat) :
    Sound (forLoop nested bound) fun depth read rest tree ↦
      ∀ place, ofPlace place depth (.keyword .for :: read) rest tree := by
  refine .view fun keyword ↦ .bind (.expect _) fun _ ↦ .bind (initializer bound) fun first ↦
    .view fun absent ↦ .bind (optionalExpression _ bound) fun test ↦ .bind (.expect _) fun _ ↦
    .view fun absent ↦ .bind (optionalExpression _ bound) fun increment ↦
    .bind (.expect _) fun _ ↦ .bind hnested fun body ↦ .pure ?_
  rintro depth rest turn hturn _ rfl step hstep _ rfl condition hcondition start hstart _ rfl place
  have hloop : Statement true place _ _ _ _ := .forLoop hstart hcondition hstep hturn
  rw [forTree_eq_ofFor] at hloop
  simpa [ofPlace, Stmt.eraseSpans_ofFor] using hloop

omit hnested

variable {parser : StatementPlace → Parse Stmt}

/-- The keyword that comes next decides what is read, and if it is none of these, an expression is.
-/
theorem simpleStatement (hparser : ∀ place, Sound (parser place) (ofPlace place))
    (place : StatementPlace) (bound : Nat) :
    Sound (simpleStatement parser bound) (ofPlace place) := by
  refine .ifAccept ?_ (.ifAccept ?_ (.ifAccept ?_ (.ifAccept ?_ (.ifAccept ?_ (.ifAt ?_ ?_)))))
  · refine .bind (expression bound) fun value ↦ .bind (.expect _) fun _ ↦ .pure ?_
    rintro _ _ _ rfl read hvalue
    simpa [ofPlace] using Statement.print hvalue
  · exact (returnStatement bound).mono fun _ _ _ _ himp _ ↦ himp place
  · exact (conditional (hparser .asBody) bound).mono fun _ _ _ _ himp _ _ ↦ himp place
  · exact (whileLoop (hparser .asBody) bound).mono fun _ _ _ _ himp _ _ _ ↦ himp place
  · exact (forLoop (hparser .asBody) bound).mono fun _ _ _ _ himp _ _ _ _ ↦ himp place
  · refine .map ((block (hparser .inList) bound).mono ?_)
    rintro _ _ _ trees ⟨items, hitems, rfl, htrees⟩ - - - - - -
    rw [ofPlace, Stmt.eraseSpans_block, htrees]
    exact .block hitems
  · refine (expressionStatement bound).mono ?_
    rintro _ _ _ tree ⟨read, value, rfl, htree, hvalue⟩ - - - - - -
    rw [ofPlace, htree]
    exact .expression hvalue

theorem listedStatement (hparser : ∀ place, Sound (parser place) (ofPlace place)) (bound : Nat) :
    Sound (listedStatement parser bound) (ofPlace .inList) := by
  refine .ifAccept ?_ (.ifAccept ?_ (.ifAt (.failHere _) ?_))
  · exact functionDeclaration (hparser .inList) bound
  · exact (variableDeclaration bound).mono fun _ _ _ _ hdeclaration _ ↦ .declare hdeclaration
  · exact (simpleStatement hparser .inList bound).mono fun _ _ _ _ himp _ _ _ ↦ himp

/-- Whatever is read as a statement is one, with the tree that is yielded. -/
theorem statement (bound : Nat) (place : StatementPlace) :
    Sound (statement bound place) (ofPlace place) := by
  induction bound generalizing place with
  | zero => exact .exhausted
  | succ bound ih =>
    cases place with
    | inList => exact listedStatement ih (bound + 1)
    | asBody => exact simpleStatement ih .asBody (bound + 1)

end Parse.Sound

end Lox
