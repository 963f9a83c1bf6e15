import Lox.Proofs.Syntax.PlacedUniqueness
import Lox.Proofs.Syntax.Placing
import Lox.Proofs.Syntax.ProgramGrammar

/-!
# The places of the programs that are read

What is read as a statement without an error is written by the tokens that have been passed, with
the places in its tree (`Parse.Places.statement`). There is one lemma for the parser of each kind of
statement.

So a list of tokens is read as a program exactly if it writes that program
(`ofTokens_eq_ok_iff_writtenBy`): what is read is determined by the grammar up to the places, and
the places by the tokens.
-/

set_option autoImplicit false
set_option relaxedAutoImplicit false

namespace Lox

open Grammar

namespace Parse.Places

/-- The placing of a statement at a place. -/
abbrev ofStatement (place : StatementPlace) : Placing Stmt := fun first read last tree ↦
  Stmt.WrittenBy place (decide (first.depth ≠ 0))
    (decide (last.next? = some (.keyword .else))) read tree

/-- The placing of a list of statements. -/
abbrev ofStatements : Placing (List Stmt) := fun first read _ trees ↦
  ∃ items : List (Stretch Stmt),
    (∀ item ∈ items, Stmt.WrittenBy .inList (decide (first.depth ≠ 0)) false item.tokens
      item.tree) ∧
    read = items.flatMap Stretch.tokens ∧ trees = items.map Stretch.tree

theorem whole (bound : Nat) : Places (Parse.expression bound) fun _ read _ tree ↦
    Expr.WrittenBy read tree :=
  (fitting bound).mono fun _ _ _ _ htree ↦ ⟨htree.1, htree.2⟩

theorem optionalExpression (condition : Bool) (bound : Nat) :
    Places (Parse.optionally condition (Parse.expression bound)) fun _ read _ value ↦
      Expr.OptionWrittenBy read value := by
  refine (optionally (whole bound) condition).mono ?_
  rintro _ _ _ _ (⟨-, present, rfl, hpresent⟩ | ⟨-, rfl, -, rfl⟩)
  · exact .present hpresent
  · exact .missing

/-- The tokens behind `var` write the declaration that has been read, with its places. -/
theorem variableDeclaration (bound : Nat) :
    Places (variableDeclaration bound) fun _ read _ tree ↦ Stmt.VariableWrittenBy read tree := by
  refine .bind (.identifier _) fun name ↦ .bind (.accept _) fun accepted ↦
    .bind (optionally (whole bound) accepted) fun value ↦ .bind (.expect _) fun close ↦ .pure ?_
  rintro _ _ _ - rfl _ tokens - hvalue _ marks - hmarks _ _ - rfl
  rcases hmarks with ⟨rfl, mark, rfl⟩ | ⟨rfl, rfl, -⟩
  · rcases hvalue with ⟨-, present, rfl, hpresent⟩ | ⟨hfalse, -⟩
    · simpa using Stmt.VariableWrittenBy.initialized name mark close hpresent
    · cases hfalse
  · rcases hvalue with ⟨hfalse, -⟩ | ⟨-, rfl, -, rfl⟩
    · cases hfalse
    · exact .bare name close

theorem expressionStatement (bound : Nat) :
    Places (expressionStatement bound) fun _ read _ tree ↦ ∃ tokens value close,
      read = tokens ++ [⟨.symbol .semicolon, close⟩] ∧ tree = .expression value ∧
        value.WrittenBy tokens := by
  refine .bind (whole bound) fun value ↦ .bind (.expect _) fun close ↦ .pure ?_
  rintro _ _ _ - rfl _ tokens - hvalue
  exact ⟨tokens, value, close, by simp, rfl, hvalue⟩

theorem condition (bound : Nat) :
    Places (condition bound) fun _ read _ tree ↦ ∃ tokens opening closing,
      read = ⟨.symbol .leftParenthesis, opening⟩ :: (tokens ++
        [⟨.symbol .rightParenthesis, closing⟩]) ∧ tree.WrittenBy tokens := by
  refine .bind (.expect _) fun opening ↦ .bind (whole bound) fun value ↦
    .bind (.expect _) fun closing ↦ .pure ?_
  rintro _ _ _ - rfl _ tokens - hvalue _ _ - rfl
  exact ⟨tokens, opening, closing, by simp, hvalue⟩

theorem initializer (bound : Nat) :
    Places (initializer bound) fun _ read _ tree ↦ Stmt.InitializerWrittenBy read tree := by
  refine .ifAccept (.pure fun _ _ close _ ↦ .missing close) (.ifAccept ?_ ?_)
  · refine .map ((variableDeclaration bound).mono ?_)
    intro _ _ _ _ hdeclaration _ keyword _ _
    exact .declaration keyword hdeclaration
  · refine .map ((expressionStatement bound).mono ?_)
    rintro _ _ _ _ ⟨tokens, value, close, rfl, rfl, hvalue⟩ - -
    exact .expression close hvalue

/-- The place of a `return` goes from its keyword, which has been passed before, to its semicolon.
The check that a function body is open makes the whole fail if there is none. -/
theorem returnStatement (bound : Nat) :
    Places (returnStatement bound) fun middle read last tree ↦ ∀ first keyword place,
      first.Reads [⟨.keyword .return, keyword⟩] middle →
        ofStatement place first (⟨.keyword .return, keyword⟩ :: read) last tree := by
  refine .view fun span ↦ ?_
  have hrest : Places (do
      let value ← Parse.optionally (!(← Parse.isAt (.symbol .semicolon))) (Parse.expression bound)
      let close ← Parse.expect (.symbol .semicolon)
      Pure.pure (Stmt.return value ⟨span.start, close.stop⟩)) fun middle read last tree ↦
        middle.depth ≠ 0 → ∀ keyword place, span = keyword →
          ofStatement place middle (⟨.keyword .return, keyword⟩ :: read) last tree := by
    refine .view fun absent ↦ .bind (optionalExpression _ bound) fun value ↦
      .bind (.expect _) fun close ↦ .pure ?_
    rintro last _ _ - rfl middle tokens - hvalue - hdepth keyword place rfl
    rw [ofStatement, decide_eq_true hdepth, List.append_nil]
    exact .return span close hvalue
  refine .view fun depth ↦ ?_
  split
  · exact .of_false (.bind_of_false (.report _) fun _ ↦ hrest.sound)
  · rename_i hne
    refine hrest.mono ?_
    rintro middle _ _ _ himp rfl hspan first keyword place hreads
    rw [Cursor.passedSpan, hreads.passed_eq] at hspan
    have htree := himp hne keyword place hspan
    rwa [ofStatement, hreads.depth_eq] at htree

variable {nested : Parse Stmt}

/-- Each turn adds a stretch of tokens and the statement on it. The induction is on the bound. -/
theorem statements (hnested : Places nested (ofStatement .inList)) (inBlock : Bool) (bound : Nat) :
    Places (statements inBlock nested bound) ofStatements := by
  induction bound with
  | zero => exact .exhausted
  | succ bound ih =>
    refine .view fun stop ↦ ?_
    cases stop with
    | true => exact .pure fun _ _ ↦ ⟨[], by simp, rfl, rfl⟩
    | false =>
      refine .attempt hnested (fun tree ↦ .bind ih fun others ↦ .pure ?_) fun error ↦ ?_
      · rintro _ middle _ - ⟨items, hitems, rfl, rfl⟩ first tokens hreads htree -
        rw [List.append_nil]
        refine ⟨⟨tokens, tree⟩ :: items, ?_, rfl, rfl⟩
        rintro item (_ | ⟨_, hmem⟩)
        · exact htree.weaken
        · rw [← hreads.depth_eq]
          exact hitems item hmem
      · exact .bind_of_false (.report error) fun _ ↦ .bind .resynchronize fun _ ↦
          ih.sound.mono fun _ _ _ _ _ _ _ ↦ True.intro

theorem block (hnested : Places nested (ofStatement .inList)) (bound : Nat) :
    Places (block nested bound) fun first read _ trees ↦
      ∃ (items : List (Stretch Stmt)) (opening closing : Span),
        (∀ item ∈ items, Stmt.WrittenBy .inList (decide (first.depth ≠ 0)) false item.tokens
          item.tree) ∧
        read = ⟨.symbol .leftBrace, opening⟩ :: (items.flatMap Stretch.tokens ++
          [⟨.symbol .rightBrace, closing⟩]) ∧ trees = items.map Stretch.tree := by
  refine .bind (.expect _) fun opening ↦ .bind (statements hnested true bound) fun trees ↦
    .bind (.expect _) fun closing ↦ .pure ?_
  rintro _ _ _ - rfl _ _ - ⟨items, hitems, rfl, rfl⟩ first _ hreads rfl
  rw [hreads.depth_eq] at hitems
  exact ⟨items, opening, closing, hitems, by simp, rfl⟩

/-- The place of a function goes from its keyword to the brace that closes its body. -/
theorem functionDeclaration (hnested : Places nested (ofStatement .inList)) (bound : Nat) :
    Places (functionDeclaration nested bound) fun middle read last tree ↦ ∀ first keyword,
      first.Reads [⟨.keyword .fun, keyword⟩] middle →
        ofStatement .inList first (⟨.keyword .fun, keyword⟩ :: read) last tree := by
  refine .view fun span ↦ .bind (.identifier _) fun name ↦ .bind (.expect _) fun opening ↦
    .bind (parenthesized (.identifier _) _ bound) fun parameters ↦
    .bind (insideFunction (block hnested bound)) fun body ↦ .view fun close ↦ .pure ?_
  rintro last hclose _ _ hbody ⟨inner, outer, hdepth, -, items, start, stop, hitems, rfl, rfl⟩ _ _ -
    ⟨names, list, hlength, hnames, hlist, rfl, hvalues⟩ _ _ - rfl middle _ - rfl hspan first
    keyword hreads
  obtain rfl : span = keyword := by
    rw [hspan, Cursor.passedSpan, hreads.passed_eq]
    rfl
  have hstop : close = stop := by
    rw [hclose, Cursor.passedSpan, hbody.passed_eq, List.getLast?_cons, List.getLast?_append]
    rfl
  subst hstop
  have hnames' : names.map Stretch.tokens
      = parameters.1.map fun parameter ↦ [parameter.token] := by
    rw [hvalues, List.map_map]
    exact List.map_congr_left hnames
  rw [hnames'] at hlist
  rw [hdepth, decide_eq_true (Nat.succ_ne_zero _)] at hitems
  rw [← List.length_map Stretch.tree, ← hvalues] at hlength
  simpa [ofStatement] using
    Stmt.WrittenBy.function name span opening parameters.2 start close hlength hlist hitems

section Bodies

variable (hnested : Places nested (ofStatement .asBody))

include hnested

/-- Whether a conditional has an `else` decides between the two rules, and whether one comes next
says if it has to be closed. A branch behind which the `else` comes is closed. -/
theorem conditional (bound : Nat) :
    Places (conditional nested bound) fun middle read last tree ↦ ∀ first keyword place,
      first.Reads [⟨.keyword .if, keyword⟩] middle →
        ofStatement place first (⟨.keyword .if, keyword⟩ :: read) last tree := by
  refine .bind (condition bound) fun test ↦ .bind hnested fun thenBranch ↦
    .bind (.accept _) fun accepted ↦ .bind (optionally hnested accepted) fun elseBranch ↦ .pure ?_
  rintro last third other hother helse second _ hmark hmarks _ body hbody hthen _ _ htest
    ⟨test, opening, closing, rfl, hcondition⟩ first keyword place hreads
  rw [ofStatement, htest.depth_eq, hreads.depth_eq] at hthen
  rcases hmarks with ⟨rfl, mark, rfl⟩ | ⟨rfl, rfl, rfl, hnext⟩
  · rcases helse with ⟨-, elseBranch, rfl, helse⟩ | ⟨hfalse, -⟩
    · rw [ofStatement, hmark.depth_eq, hbody.depth_eq, htest.depth_eq, hreads.depth_eq] at helse
      rw [decide_eq_true hmark.next?_eq] at hthen
      simpa [ofStatement] using
        Stmt.WrittenBy.conditionalElse keyword opening closing mark hcondition hthen helse
    · cases hfalse
  · rcases helse with ⟨hfalse, -⟩ | ⟨-, rfl, rfl, rfl⟩
    · cases hfalse
    · rw [ofStatement, decide_eq_false hnext]
      simpa using Stmt.WrittenBy.conditional keyword opening closing hcondition hthen.weaken

theorem whileLoop (bound : Nat) :
    Places (whileLoop nested bound) fun middle read last tree ↦ ∀ first keyword place,
      first.Reads [⟨.keyword .while, keyword⟩] middle →
        ofStatement place first (⟨.keyword .while, keyword⟩ :: read) last tree := by
  refine .bind (condition bound) fun test ↦ .bind hnested fun body ↦ .pure ?_
  rintro _ _ tokens _ hturn _ _ htest ⟨test, opening, closing, rfl, hcondition⟩
    first keyword place hreads
  rw [ofStatement, htest.depth_eq, hreads.depth_eq] at hturn
  simpa [ofStatement] using Stmt.WrittenBy.whileLoop keyword opening closing hcondition hturn

/-- A loop of which the keyword has been passed, taken apart. -/
theorem forLoop (bound : Nat) :
    Places (forLoop nested bound) fun middle read last tree ↦
      ∃ (opening mark closing : Span) (start test step own : List Token)
        (initializer : Option Stmt) (condition increment : Option Expr) (body : Stmt),
        read = ⟨.symbol .leftParenthesis, opening⟩ :: (start ++ (test ++
          ⟨.symbol .semicolon, mark⟩ :: (step ++ ⟨.symbol .rightParenthesis, closing⟩ :: own))) ∧
        Stmt.InitializerWrittenBy start initializer ∧ Expr.OptionWrittenBy test condition ∧
        Expr.OptionWrittenBy step increment ∧ ofStatement .asBody middle own last body ∧
        tree = .ofFor middle.passedSpan initializer condition increment body := by
  refine .view fun span ↦ .bind (.expect _) fun opening ↦ .bind (initializer bound) fun start ↦
    .view fun absent ↦ .bind (optionalExpression _ bound) fun test ↦ .bind (.expect _) fun mark ↦
    .view fun absent ↦ .bind (optionalExpression _ bound) fun increment ↦
    .bind (.expect _) fun closing ↦ .bind hnested fun body ↦ .pure ?_
  rintro _ _ own _ hbody _ _ hclosing rfl _ step hstep hincrement - _ _ hmark rfl _ test htest
    hcondition - _ start' hstart hinitializer _ _ hopening rfl hspan
  rw [ofStatement, hclosing.depth_eq, hstep.depth_eq, hmark.depth_eq, htest.depth_eq,
    hstart.depth_eq, hopening.depth_eq] at hbody
  exact ⟨opening, mark, closing, start', test, step, own, _, _, _, body, by simp, hinitializer,
    hcondition, hincrement, hbody, by rw [hspan]⟩

end Bodies

section Nested

variable {nested : StatementPlace → Parse Stmt}
  (hnested : ∀ place, Places (nested place) (ofStatement place))

include hnested

/-- The keyword that comes next decides by which rule the statement is written. -/
theorem simpleStatement (bound : Nat) (place : StatementPlace) :
    Places (simpleStatement nested bound) (ofStatement place) := by
  refine .ifAccept ?_ (.ifAccept ?_ (.ifAccept ?_ (.ifAccept ?_ (.ifAccept ?_ (.ifAt ?_ ?_)))))
  · refine .bind (whole bound) fun value ↦ .bind (.expect _) fun close ↦ .pure ?_
    rintro _ _ _ - rfl middle tokens - hvalue first keyword hreads
    simpa [ofStatement] using Stmt.WrittenBy.print keyword close hvalue
  · refine (returnStatement bound).mono ?_
    intro middle _ _ _ himp first keyword hreads _
    exact himp first keyword place hreads
  · refine (conditional (hnested .asBody) bound).mono ?_
    intro middle _ _ _ himp first keyword hreads _ _
    exact himp first keyword place hreads
  · refine (whileLoop (hnested .asBody) bound).mono ?_
    intro middle _ _ _ himp first keyword hreads _ _ _
    exact himp first keyword place hreads
  · refine (forLoop (hnested .asBody) bound).mono ?_
    rintro middle _ _ _ ⟨opening, mark, closing, start, test, step, own, initializer, condition,
      increment, body, rfl, hinitializer, hcondition, hincrement, hbody, rfl⟩ first keyword hreads -
      - - -
    have hspan : middle.passedSpan = keyword := by
      rw [Cursor.passedSpan, hreads.passed_eq]
      rfl
    rw [ofStatement, hreads.depth_eq] at hbody
    rw [hspan]
    exact .forLoop keyword opening mark closing hinitializer hcondition hincrement hbody
  · refine .map ((block (hnested .inList) bound).mono ?_)
    rintro _ _ _ _ ⟨items, opening, closing, hitems, rfl, rfl⟩ - - - - - -
    exact .block opening closing hitems
  · refine (expressionStatement bound).mono ?_
    rintro _ _ _ _ ⟨tokens, value, close, rfl, rfl, hvalue⟩ - - - - - -
    exact .expression close hvalue

theorem listedStatement (bound : Nat) :
    Places (listedStatement nested bound) (ofStatement .inList) := by
  refine .ifAccept ?_ (.ifAccept ?_ (.ifAt (.failHere _) ?_))
  · refine (functionDeclaration (hnested .inList) bound).mono ?_
    intro middle _ _ _ himp first keyword hreads
    exact himp first keyword hreads
  · refine (variableDeclaration bound).mono ?_
    intro _ _ _ _ hdeclaration first keyword _ _
    exact .declare keyword hdeclaration
  · refine (simpleStatement hnested bound .inList).mono ?_
    intro _ _ _ _ hstatement _ _ _
    exact hstatement

end Nested

/-- What is read as a statement without an error is written by the tokens that have been passed. -/
theorem statement (bound : Nat) (place : StatementPlace) :
    Places (Parse.statement bound place) (ofStatement place) := by
  induction bound generalizing place with
  | zero => exact .exhausted
  | succ bound ih =>
    cases place with
    | inList => exact listedStatement ih (bound + 1)
    | asBody => exact simpleStatement ih (bound + 1) .asBody

end Parse.Places

/-! ### Programs -/

/-- What is read as a program is written by its tokens. The tokens that have been passed are those
before the end of the input. -/
theorem writtenBy_of_ofTokens {lexemes : List Token} {stop : Span} {program : Program}
    (hlexemes : ∀ token ∈ lexemes, token.kind ≠ .endOfInput)
    (hprogram : Program.ofTokens (lexemes ++ [⟨.endOfInput, stop⟩]) = .ok program) :
    Program.WrittenBy lexemes program := by
  rw [Program.ofTokens] at hprogram
  split at hprogram
  · rename_i trees last hrun
    split at hprogram
    · rename_i hreported
      cases hprogram
      have hreported := List.isEmpty_iff.mp hreported
      obtain ⟨read, hreads, items, hitems, rfl, htrees⟩ :=
        Parse.Places.statements (.statement _ .inList) false _ hrun hreported
      have hwritten : Program.WrittenBy _ program := ⟨items, hitems, rfl, htrees⟩
      obtain ⟨-, -, -, hend⟩ := sound_parse _ hrun hreported
      have hrest : lexemes ++ [⟨.endOfInput, stop⟩] = items.flatMap Stretch.tokens ++ last.rest :=
        hreads.rest_eq
      have hkinds := congrArg (List.map Token.kind) hrest
      rw [List.map_append, List.map_append] at hkinds
      have hnone : TokenKind.endOfInput ∉ lexemes.map Token.kind := by simpa using hlexemes
      have hread := eq_of_append_endOfInput hnone hwritten.program.endOfInput_notMem hkinds hend
      have hlength := congrArg List.length hread
      rw [List.length_map, List.length_map] at hlength
      rwa [← (List.append_inj hrest hlength.symm).1] at hwritten
    · cases hprogram
  · cases hprogram
  · cases hprogram

/-- A list of tokens is read as a program exactly if it writes it, places included. -/
theorem ofTokens_eq_ok_iff_writtenBy {lexemes : List Token} {stop : Span} {program : Program}
    (hlexemes : ∀ token ∈ lexemes, token.kind ≠ .endOfInput) :
    Program.ofTokens (lexemes ++ [⟨.endOfInput, stop⟩]) = .ok program ↔
      Program.WrittenBy lexemes program := by
  refine ⟨writtenBy_of_ofTokens hlexemes, fun hwritten ↦ ?_⟩
  have hkinds : (lexemes ++ [(⟨.endOfInput, stop⟩ : Token)]).map Token.kind
      = lexemes.map Token.kind ++ [.endOfInput] := List.map_append ..
  obtain ⟨read, hread, htrees⟩ := exists_ofTokens_of_program hwritten.program hkinds (.inr rfl)
  rw [hread, (writtenBy_of_ofTokens hlexemes hread).unique hwritten htrees]

end Lox
