import Lox.Parsing.Program
import Lox.Proofs.Computation.Preservation
import Lox.Proofs.Syntax.CursorSteps

/-!
# Errors charged to tokens

Every error that is reported can be charged to a token of its own, except one at the end of the
tokens. The account is kept along the reading: a token that is passed pays one, and an error takes a
price from what has been paid. `Parse.Pays` says that reading which has a credit at first and is
done has a credit left, and that what fails has not taken more than there was.

An expression and a statement leave a credit behind, though nothing was there before them
(`Parse.Pays.expression`, `Parse.Pays.statement`). At a price of one this bounds the errors, and at
a price of nothing it says that a token has been passed. A list of statements needs a credit for the
failure that ends it: every other failure is paid for by the token that resynchronization drops, but
behind the last token there is none (`Parse.Pays.statements`).
-/

set_option autoImplicit false
set_option relaxedAutoImplicit false

namespace Lox

namespace Cursor

/-- The tokens still to come and the errors reported so far, each of these at a given price. -/
def worth (price : Nat) (cursor : Cursor) : Nat :=
  price * cursor.reported.length + cursor.rest.length

/-- A token that is passed is one token less to come. -/
theorem worth_advance (price : Nat) {cursor : Cursor} {kind : TokenKind}
    (hkind : cursor.next? = some kind) :
    cursor.worth price = cursor.advance.worth price + 1 := by
  rw [worth, worth, reported_advance, length_rest_advance hkind, Nat.add_assoc]

/-- An error that is reported raises the account by its price. -/
theorem worth_report (price : Nat) (error : SyntaxError) (cursor : Cursor) :
    (cursor.report error).worth price = cursor.worth price + price := by
  simp only [worth, report, List.length_append, List.length_singleton, Nat.mul_add, Nat.mul_one]
  omega

/-- Going on behind a failure reports nothing. -/
theorem reported_resynchronize (cursor : Cursor) :
    cursor.resynchronize.reported = cursor.reported :=
  cursor.reported_advance

/-- Resynchronization pays for an error if there is a token to drop. -/
theorem worth_resynchronize_lt (price : Nat) {cursor : Cursor} (hne : cursor.rest ≠ []) :
    cursor.resynchronize.worth price < cursor.worth price := by
  have hlength := length_resynchronize_lt (List.suffix_refl cursor.rest) hne
  rw [worth, worth, reported_resynchronize]
  omega

/-- Behind the last token there is nothing to skip. -/
theorem resynchronize_of_nil {cursor : Cursor} (hrest : cursor.rest = []) :
    cursor.resynchronize = cursor := by
  obtain ⟨passed, rest, reported, depth⟩ := cursor
  subst hrest
  rfl

/-- A credit for a failure behind the last token, unless nothing is left to read. -/
def allowance (cursor : Cursor) : Nat := if cursor.rest = [] then 0 else 1

/-- The credit for a failure at the end is one at most. -/
theorem allowance_le (cursor : Cursor) : cursor.allowance ≤ 1 := by
  rw [allowance]
  split <;> omega

end Cursor

namespace Parse

variable {α β ω : Type}

/-- One turn of a list: a statement, or the recovery from a failure. -/
def turn (statement : Parse Stmt) : Parse (Option Stmt) := do
  match ← statement.attempt with
  | .ok found => pure (some found)
  | .error error =>
    report error
    .modify Cursor.resynchronize
    pure none

/-- A list of statements is read in turns. -/
theorem statements_succ (inBlock : Bool) (statement : Parse Stmt) (bound : Nat) :
    statements inBlock statement (bound + 1) = (do
      if ← .gets fun cursor ↦ cursor.isAtEnd || inBlock && cursor.isAt (.symbol .rightBrace) then
        pure []
      else
        let found ← turn statement
        let others ← statements inBlock statement bound
        pure (found.toList ++ others)) := by
  rw [statements]
  refine bind_congr fun atEnd ↦ ?_
  split
  · rfl
  · rw [turn, bind_assoc]
    refine bind_congr fun result ↦ ?_
    cases result with
    | ok found => rfl
    | error error =>
      simp only [bind_assoc, pure_bind, Option.toList_none, List.nil_append, bind_pure]

/-- How a turn ends, which does not fail. -/
theorem run_turn (statement : Parse Stmt) (first : Cursor) :
    (turn statement).run first =
      match statement.run first with
      | .done found last => .done (some found) last
      | .failed error last => .done none (last.report error).resynchronize
      | .exhausted => .exhausted := by
  rw [turn, Bounded.run_bind, Bounded.run_attempt]
  cases statement.run first <;> rfl

/-! ### Payments -/

/-- Reading from a cursor with a credit: if it is done, a credit is left, and if it fails, no more
has been taken than there was. -/
def PaysFrom (price : Nat) (first : Cursor) (before after : Nat) (parse : Parse α) : Prop :=
  match parse.run first with
  | .done _ last => last.worth price + after ≤ first.worth price + before
  | .failed _ last => last.worth price ≤ first.worth price + before
  | .exhausted => True

/-- Reading with a credit, from whatever cursor. -/
def Pays (price before after : Nat) (parse : Parse α) : Prop :=
  ∀ first, PaysFrom price first before after parse

namespace PaysFrom

variable {price before middle after : Nat} {first : Cursor} {parse : Parse α} {next : α → Parse β}

theorem exhausted : PaysFrom price first before after (.exhausted : Parse α) := True.intro

/-- A failure leaves the cursor as it is, and takes nothing: the error is paid for where it is
reported. -/
theorem failHere (cause : SyntaxCause) :
    PaysFrom price first before after (Parse.failHere cause : Parse α) :=
  Nat.le_add_right _ _

theorem pure (value : α) : PaysFrom price first before before (Pure.pure value) := Nat.le_refl _

/-- A credit that is not needed is left, or dropped. -/
theorem mono {before' after' : Nat} (hparse : PaysFrom price first before after parse)
    (hbefore : before ≤ before') (hafter : before + after' ≤ before' + after) :
    PaysFrom price first before' after' parse := by
  unfold PaysFrom at hparse ⊢
  cases hrun : parse.run first <;> rw [hrun] at hparse <;> simp only at hparse ⊢ <;> omega

/-- A chain of which the first step is known. -/
theorem behind {value : α} {reached : Cursor} (hrun : parse.run first = .done value reached)
    (hpaid : reached.worth price + middle ≤ first.worth price + before)
    (hnext : PaysFrom price reached middle after (next value)) :
    PaysFrom price first before after (parse >>= next) := by
  unfold PaysFrom at hnext ⊢
  rw [Bounded.run_bind_of_done hrun]
  cases hlast : (next value).run reached <;> rw [hlast] at hnext <;> simp only at hnext ⊢ <;> omega

/-- Two readings one after the other pay from one account: what the first one leaves is what the
second one has. A failure has taken no more than there was, wherever it happens. -/
theorem bind (hparse : PaysFrom price first before middle parse)
    (hnext : ∀ value, Pays price middle after (next value)) :
    PaysFrom price first before after (parse >>= next) := by
  unfold PaysFrom at hparse
  cases hrun : parse.run first with
  | done value reached =>
    rw [hrun] at hparse
    exact behind hrun hparse (hnext value reached)
  | failed error last =>
    rw [hrun] at hparse
    unfold PaysFrom
    rw [Bounded.run_bind, hrun]
    exact hparse
  | exhausted =>
    unfold PaysFrom
    rw [Bounded.run_bind, hrun]
    trivial

/-- A view of the cursor, which passes nothing. -/
theorem view {view : Cursor → α} (hnext : PaysFrom price first before after (next (view first))) :
    PaysFrom price first before after (.gets view >>= next) := hnext

/-- A token that is passed pays one. -/
theorem pass {next : Unit → Parse β} {kind : TokenKind} (hkind : first.next? = some kind)
    (hnext : Pays price (before + 1) after (next ())) :
    PaysFrom price first before after (Parse.advance >>= next) := by
  have hpaid : PaysFrom price first before (before + 1) Parse.advance := by
    have hworth := first.worth_advance price hkind
    change first.advance.worth price + (before + 1) ≤ first.worth price + before
    omega
  exact hpaid.bind fun _ ↦ hnext

end PaysFrom

namespace Pays

variable {price before middle after : Nat} {parse : Parse α} {next : α → Parse β}

/-- There may be more credit at first, and less of the difference has to be left. -/
theorem mono {before' after' : Nat} (hparse : Pays price before after parse)
    (hbefore : before ≤ before') (hafter : before + after' ≤ before' + after) :
    Pays price before' after' parse :=
  fun first ↦ (hparse first).mono hbefore hafter

theorem bind (hparse : Pays price before middle parse)
    (hnext : ∀ value, Pays price middle after (next value)) :
    Pays price before after (parse >>= next) :=
  fun first ↦ (hparse first).bind hnext

theorem exhausted : Pays price before after (.exhausted : Parse α) := fun _ ↦ .exhausted

theorem failHere (cause : SyntaxCause) :
    Pays price before after (Parse.failHere cause : Parse α) := fun _ ↦ .failHere cause

theorem pure (value : α) : Pays price before before (Pure.pure value) := fun _ ↦ .pure value

theorem view {view : Cursor → α} (hnext : ∀ value, Pays price before after (next value)) :
    Pays price before after (.gets view >>= next) := fun first ↦ hnext (view first) first

/-- What needs no credit needs none that is there. -/
theorem spare (credit : Nat) (hparse : Pays price 0 after parse) :
    Pays price credit after parse :=
  hparse.mono (Nat.zero_le _) (by omega)

/-- What neither needs a credit nor leaves one leaves all that is there. -/
theorem keep (credit : Nat) (hparse : Pays price 0 0 parse) :
    Pays price credit credit parse :=
  hparse.mono (Nat.zero_le _) (by omega)

/-- What comes next does without the credit that is left. -/
theorem andThen (hparse : Pays price before middle parse)
    (hnext : ∀ value, Pays price 0 after (next value)) :
    Pays price before after (parse >>= next) :=
  hparse.bind fun value ↦ (hnext value).spare middle

/-- What is made of a value costs nothing. -/
theorem map {convert : α → β} (hparse : Pays price before after parse) :
    Pays price before after (convert <$> parse) := by
  rw [← bind_pure_comp]
  exact hparse.bind fun _ ↦ .pure _

/-- A token that is passed if it is there pays one into the account of what comes behind it. -/
theorem ifAccept {kind : TokenKind} {yes no : Parse α}
    (hyes : Pays price (before + 1) after yes) (hno : Pays price before after no) :
    Pays price before after (do if ← Parse.accept kind then yes else no) := by
  intro first
  unfold PaysFrom
  rw [Bounded.run_bind, Parse.accept, Bounded.run_update]
  by_cases hkind : first.isAt kind
  · rw [if_pos hkind]
    have hpassed := hyes first.advance
    have hworth := first.worth_advance price (of_decide_eq_true hkind)
    unfold PaysFrom at hpassed
    simp only [if_true]
    cases hrun : yes.run first.advance <;> rw [hrun] at hpassed <;> simp only at hpassed ⊢ <;> omega
  · rw [if_neg hkind]
    exact hno first

/-- A token that may be missing has to be reckoned with as missing, so it pays nothing. -/
theorem accept (kind : TokenKind) : Pays price 0 0 (Parse.accept kind) := by
  intro first
  unfold PaysFrom
  rw [Parse.accept, Bounded.run_update]
  by_cases hkind : first.isAt kind
  · rw [if_pos hkind]
    have hworth := first.worth_advance price (of_decide_eq_true hkind)
    simp only
    omega
  · simp only [if_neg hkind, Nat.le_refl]

/-- A token that is demanded pays one when it is passed. If it is not there, reading fails, and has
taken nothing. -/
theorem expect (kind : TokenKind) : Pays price 0 1 (Parse.expect kind) :=
  .view fun _ ↦ .ifAccept (.view fun _ ↦ .pure _) (.failHere _)

/-- A name pays one, like every token that is demanded. -/
theorem identifier (place : NamePlace) : Pays price 0 1 (Parse.identifier place) := by
  intro first
  unfold Parse.identifier
  refine .view ?_
  split
  · next hkind => exact .pass hkind (.view fun _ ↦ .pure _)
  · exact .failHere _

section

variable (hprice : price ≤ 1)

include hprice

/-- An error takes its price from a credit. -/
theorem report (error : SyntaxError) : Pays price 1 0 (Parse.report error) := by
  intro first
  have hworth := first.worth_report price error
  change (first.report error).worth price + 0 ≤ first.worth price + 1
  omega

/-- An error takes a credit, if its price is one at most. -/
theorem reportHere (cause : SyntaxCause) : Pays price 1 0 (Parse.reportHere cause) :=
  fun first ↦ report hprice _ first

/-- The comma before an item pays for the report that there are too many. -/
theorem separated {item : Parse α} (hitem : Pays price 0 1 item) (tooMany : SyntaxCause)
    (bound count : Nat) : Pays price 1 1 (Parse.separated item tooMany bound count) := by
  induction bound generalizing count with
  | zero => exact .exhausted
  | succ bound ih =>
    have hitems : Pays price 0 1 (item >>= fun first ↦
        Parse.accept (.symbol .comma) >>= fun accepted ↦
          if accepted then Parse.separated item tooMany bound (count + 1) >>= fun others ↦
            Pure.pure (first :: others)
          else Pure.pure [first]) :=
      hitem.bind fun first ↦ .ifAccept
        (((ih (count + 1)).mono (by omega) (by omega)).bind fun _ ↦ .pure _) (.pure _)
    simp only [Parse.separated]
    split
    · exact (reportHere hprice tooMany).bind fun _ ↦ hitems
    · exact hitems.spare 1

/-- A list in parentheses needs a credit for an item too many, which the token before it has paid,
and leaves one again, which its closing parenthesis pays. -/
theorem parenthesized {item : Parse α} (hitem : Pays price 0 1 item) (tooMany : SyntaxCause)
    (bound : Nat) : Pays price 1 1 (Parse.parenthesized item tooMany bound) := by
  have hclose (items : List α) : Pays price 0 1
      (Parse.expect (.symbol .rightParenthesis) >>= fun close ↦ Pure.pure (items, close)) :=
    (expect _).bind fun _ ↦ .pure _
  unfold Parse.parenthesized
  refine .view fun atClose ↦ ?_
  split
  · exact (hclose []).spare 1
  · exact (separated hprice hitem tooMany bound 0).andThen hclose

/-! ### Expressions -/

omit hprice in
/-- Each operator of a chain pays for the failure that may follow it, so the credit that is there at
first is there in the end. -/
theorem chainFrom (ofToken? : TokenKind → Option ω) (join : ω → Expr → Expr → Expr)
    {operand : Parse Expr} (hoperand : Pays price 0 1 operand) (bound : Nat) (left : Expr) :
    Pays price 1 1 (Parse.chainFrom ofToken? join operand bound left) := by
  induction bound generalizing left with
  | zero => exact .exhausted
  | succ bound ih =>
    intro first
    simp only [Parse.chainFrom]
    refine .view ?_
    cases hoperator : first.next?.bind ofToken? with
    | none => exact .pure _
    | some operator =>
      obtain ⟨kind, hkind, -⟩ := Option.bind_eq_some_iff.mp hoperator
      exact .pass hkind ((hoperand.spare 2).bind fun right ↦ ih _)

omit hprice in
/-- A chain leaves the credit that its first operand leaves. -/
theorem chain (ofToken? : TokenKind → Option ω) (join : ω → Expr → Expr → Expr) (bound : Nat)
    {operand : Parse Expr} (hoperand : Pays price 0 1 operand) :
    Pays price 0 1 (Parse.chain ofToken? join bound operand) :=
  hoperand.bind fun first ↦ chainFrom ofToken? join hoperand bound first

omit hprice in
/-- An operator that cannot be chained leaves the credit that its first operand leaves; a second
operator is a failure, and takes nothing. -/
theorem single (ofToken? : TokenKind → Option BinaryOperator) {operand : Parse Expr}
    (hoperand : Pays price 0 1 operand) : Pays price 0 1 (Parse.single ofToken? operand) := by
  unfold Parse.single
  refine hoperand.bind fun left first ↦ .view ?_
  cases hoperator : first.next?.bind ofToken? with
  | none => exact .pure _
  | some operator =>
    obtain ⟨kind, hkind, -⟩ := Option.bind_eq_some_iff.mp hoperator
    refine .pass hkind ((hoperand.spare 2).bind fun right ↦ .view fun second ↦ ?_)
    cases second with
    | none => exact .pure _
    | some second => exact .failHere _

omit hprice in
/-- A primary expression pays with its first token, and nothing else of it has to pay. -/
theorem primary {expression : Parse Expr} (hexpression : Pays price 0 1 expression) :
    Pays price 0 1 (Parse.primary expression) := by
  intro first
  unfold Parse.primary
  refine .view ?_
  cases hkind : first.next? with
  | none => exact .failHere _
  | some kind =>
    refine .view ?_
    split
    · exact .pass hkind (.pure _)
    · exact .pass hkind (.pure _)
    · exact .pass hkind ((hexpression.spare 1).andThen fun inner ↦ (expect _).bind fun _ ↦ .pure _)
    all_goals exact .failHere _

/-- The parenthesis that opens arguments pays for the report that there are too many. -/
theorem callFrom {expression : Parse Expr} (hexpression : Pays price 0 1 expression)
    (bound : Nat) (callee : Expr) :
    Pays price 1 1 (Parse.callFrom expression bound callee) := by
  induction bound generalizing callee with
  | zero => exact .exhausted
  | succ bound ih =>
    have harguments := parenthesized hprice hexpression .tooManyArguments (bound + 1)
    simp only [Parse.callFrom]
    refine .ifAccept ((harguments.mono (by omega) (by omega)).bind fun _ ↦ ih _) (.view fun _ ↦ ?_)
    split
    · exact .failHere _
    · exact .pure _

/-- A unary operator pays one more than its operand does. -/
theorem unary {expression : Parse Expr} (hexpression : Pays price 0 1 expression) (bound : Nat) :
    Pays price 0 1 (Parse.unary expression bound) := by
  induction bound with
  | zero => exact .exhausted
  | succ bound ih =>
    intro first
    simp only [Parse.unary]
    refine .view ?_
    cases hoperator : first.next?.bind UnaryOperator.ofToken? with
    | none => exact ((primary hexpression).bind fun _ ↦ callFrom hprice hexpression _ _) first
    | some operator =>
      obtain ⟨kind, hkind, -⟩ := Option.bind_eq_some_iff.mp hoperator
      exact .view (.pass hkind ((ih.spare 1).bind fun _ ↦ .pure _))

/-- Logical operators leave the credit that their first operand leaves. -/
theorem logical {expression : Parse Expr} (hexpression : Pays price 0 1 expression) (bound : Nat) :
    Pays price 0 1 (Parse.logical expression bound) := by
  have hfactor := chain BinaryOperator.ofFactorToken? Expr.joinBinary bound
    (unary hprice hexpression bound)
  have hterm := chain BinaryOperator.ofTermToken? Expr.joinBinary bound hfactor
  have hequality := single BinaryOperator.ofEqualityToken?
    (single BinaryOperator.ofComparisonToken? hterm)
  have hand := chain LogicalOperator.ofAndToken? Expr.joinLogical bound hequality
  exact chain LogicalOperator.ofOrToken? Expr.joinLogical bound hand

/-- The equality sign pays for the report that its target is invalid. -/
theorem expression (bound : Nat) : Pays price 0 1 (Parse.expression bound) := by
  induction bound with
  | zero => exact .exhausted
  | succ bound ih =>
    simp only [Parse.expression, Parse.assignment]
    refine (logical hprice ih _).bind fun target ↦ .ifAccept ?_ (.pure _)
    refine (ih.mono (Nat.zero_le 2) (by omega) : Pays price 2 2 _).bind fun value ↦ ?_
    split
    · exact (Pays.pure _).mono (Nat.le_refl _) (by omega)
    · exact ((report hprice _).mono (by omega) (by omega)).bind fun _ ↦ .pure _

/-! ### Statements -/

omit hprice in
/-- What may be left out pays nothing for certain. -/
theorem optionally (condition : Bool) {item : Parse α} (hitem : Pays price 0 after item) :
    Pays price 0 0 (Parse.optionally condition item) := by
  unfold Parse.optionally
  split
  · exact hitem.andThen fun _ ↦ .pure _
  · exact .pure _

/-- A turn needs a credit only if it leads to the end of the tokens. A failure behind the last token
has none to drop. -/
theorem turn {statement : Parse Stmt} (hstatement : Pays price 0 1 statement)
    {first last : Cursor} {found : Option Stmt}
    (hrun : (Parse.turn statement).run first = .done found last) :
    last.worth price + last.allowance ≤ first.worth price + 1 := by
  have hpays := hstatement first
  have hallowance := last.allowance_le
  unfold PaysFrom at hpays
  rw [run_turn] at hrun
  cases hread : statement.run first with
  | done value reached =>
    rw [hread] at hpays hrun
    obtain ⟨-, rfl⟩ := Outcome.done.inj hrun
    simp only at hpays
    omega
  | failed error reached =>
    rw [hread] at hpays hrun
    obtain ⟨-, rfl⟩ := Outcome.done.inj hrun
    have hreport := reached.worth_report price error
    simp only at hpays
    by_cases hrest : reached.rest = []
    · have hreported : (reached.report error).rest = [] := hrest
      rw [Cursor.resynchronize_of_nil hreported, Cursor.allowance, if_pos hreported]
      omega
    · have hdropped := (reached.report error).worth_resynchronize_lt price hrest
      omega
  | exhausted =>
    rw [hread] at hrun
    cases hrun

/-- A list of statements needs a credit for a failure behind the last token. -/
theorem statements (inBlock : Bool) {statement : Parse Stmt} (hstatement : Pays price 0 1 statement)
    (bound : Nat) : Pays price 1 0 (Parse.statements inBlock statement bound) := by
  suffices hlist : ∀ first : Cursor, PaysFrom price first first.allowance 0
      (Parse.statements inBlock statement bound) from
    fun first ↦ (hlist first).mono first.allowance_le first.allowance_le
  induction bound with
  | zero => exact fun _ ↦ .exhausted
  | succ bound ih =>
    intro first
    rw [statements_succ]
    refine .view ?_
    split
    · have hpaid : PaysFrom price first 0 0 (Pure.pure [] : Parse (List Stmt)) := .pure []
      exact hpaid.mono (Nat.zero_le _) (by omega)
    next hend =>
    have hne : first.rest ≠ [] := by
      refine Cursor.ne_nil_of_isAtEnd_eq ?_
      rw [Bool.not_eq_true, Bool.or_eq_false_iff] at hend
      exact hend.1
    rw [Cursor.allowance, if_neg hne]
    cases hturn : (Parse.turn statement).run first with
    | done found middle =>
      exact .behind hturn (turn hprice hstatement hturn) ((ih middle).bind fun others ↦ .pure _)
    | failed error middle =>
      rw [run_turn] at hturn
      split at hturn <;> cases hturn
    | exhausted =>
      unfold PaysFrom
      rw [Bounded.run_bind, hturn]
      trivial

/-- A block pays with its closing brace, which is demanded, and its opening one pays for the failure
that may end its list. -/
theorem block {statement : Parse Stmt} (hstatement : Pays price 0 1 statement) (bound : Nat) :
    Pays price 0 1 (Parse.block statement bound) :=
  (expect _).bind fun _ ↦ (statements hprice true hstatement bound).bind fun _ ↦
    (expect _).bind fun _ ↦ .pure _

omit hprice in
/-- Depths are no part of the account. -/
theorem insideFunction {body : Parse α} (hbody : Pays price before after body) :
    Pays price before after (Parse.insideFunction body) := by
  intro first
  have hinner := hbody { first with depth := first.depth + 1 }
  unfold PaysFrom at hinner ⊢
  rw [Parse.insideFunction, Bounded.run_within]
  cases hrun : body.run { first with depth := first.depth + 1 } <;> rw [hrun] at hinner <;>
    exact hinner

/-- The tokens of the head of a function pay for parameters too many, and its block pays for itself.
-/
theorem functionDeclaration {statement : Parse Stmt} (hstatement : Pays price 0 1 statement)
    (bound : Nat) : Pays price 0 1 (Parse.functionDeclaration statement bound) := by
  unfold Parse.functionDeclaration
  refine .view fun keyword ↦ (identifier _).andThen fun name ↦ (expect _).bind fun _ ↦ ?_
  refine (parenthesized hprice (identifier _) _ bound).andThen fun parameters ↦ ?_
  refine (insideFunction (block hprice hstatement bound)).bind fun body ↦ ?_
  exact .view fun close ↦ .pure _

/-- A declaration of a variable pays with its name. -/
theorem variableDeclaration (bound : Nat) :
    Pays price 0 1 (Parse.variableDeclaration bound) := by
  unfold Parse.variableDeclaration
  refine (identifier _).andThen fun name ↦ (accept _).bind fun accepted ↦ ?_
  refine (optionally accepted (expression hprice bound)).bind fun initializer ↦ ?_
  exact (expect _).bind fun _ ↦ .pure _

/-- An expression with a semicolon behind it. -/
theorem terminated (convert : Expr → Stmt) (bound : Nat) :
    Pays price 0 1 (Parse.expression bound >>= fun value ↦
      Parse.expect (.symbol .semicolon) >>= fun _ ↦ Pure.pure (convert value)) :=
  (expression hprice bound).andThen fun _ ↦ (expect _).bind fun _ ↦ .pure _

/-- The keyword pays for the report that it stands outside of every function. -/
theorem returnStatement (bound : Nat) : Pays price 1 1 (Parse.returnStatement bound) := by
  have hvalue (keyword : Span) : Pays price 0 1 (Parse.isAt (.symbol .semicolon) >>= fun atEnd ↦
      Parse.optionally (!atEnd) (Parse.expression bound) >>= fun value ↦
        Parse.expect (.symbol .semicolon) >>= fun close ↦
          Pure.pure (Stmt.return value ⟨keyword.start, close.stop⟩)) :=
    .view fun atEnd ↦ (optionally _ (expression hprice bound)).bind fun value ↦
      (expect _).bind fun close ↦ .pure _
  unfold Parse.returnStatement
  refine .view fun keyword ↦ .view fun depth ↦ ?_
  split
  · exact (report hprice _).bind fun _ ↦ hvalue keyword
  · exact (hvalue keyword).spare 1

theorem condition (bound : Nat) : Pays price 0 1 (Parse.condition bound) :=
  (expect _).andThen fun _ ↦ (expression hprice bound).andThen fun _ ↦
    (expect _).bind fun _ ↦ .pure _

/-- A conditional pays with its condition and its first branch; the second one may be missing. -/
theorem conditional {statement : Parse Stmt} (hstatement : Pays price 0 1 statement)
    (bound : Nat) : Pays price 0 1 (Parse.conditional statement bound) := by
  unfold Parse.conditional
  refine (condition hprice bound).bind fun test ↦ (hstatement.spare 1).bind fun thenBranch ↦ ?_
  refine ((accept _).keep 1).bind fun accepted ↦ ?_
  exact ((optionally accepted hstatement).keep 1).bind fun elseBranch ↦ .pure _

theorem whileLoop {statement : Parse Stmt} (hstatement : Pays price 0 1 statement) (bound : Nat) :
    Pays price 0 1 (Parse.whileLoop statement bound) :=
  (condition hprice bound).andThen fun _ ↦ hstatement.bind fun _ ↦ .pure _

theorem initializer (bound : Nat) : Pays price 0 1 (Parse.initializer bound) :=
  .ifAccept (.pure _) (.ifAccept ((variableDeclaration hprice bound).map.spare 1)
    (terminated hprice .expression bound).map)

/-- A loop with clauses pays with its parenthesis. -/
theorem forLoop {statement : Parse Stmt} (hstatement : Pays price 0 1 statement) (bound : Nat) :
    Pays price 0 1 (Parse.forLoop statement bound) := by
  have hoptional (condition : Bool) := optionally condition (expression hprice bound)
  unfold Parse.forLoop
  refine .view fun keyword ↦ (expect _).andThen fun _ ↦ ?_
  refine (initializer hprice bound).andThen fun first ↦ .view fun atEnd ↦ ?_
  refine (hoptional _).bind fun test ↦ (expect _).andThen fun _ ↦ .view fun atClose ↦ ?_
  refine (hoptional _).bind fun increment ↦ (expect _).andThen fun _ ↦ ?_
  exact hstatement.bind fun body ↦ .pure _

/-- A statement that is no declaration pays one, by its keyword or by its expression. A `return`
outside of functions takes the credit of its keyword for the error, and has another one from its
semicolon. -/
theorem simpleStatement {nested : StatementPlace → Parse Stmt}
    (hnested : ∀ place, Pays price 0 1 (nested place)) (bound : Nat) :
    Pays price 0 1 (Parse.simpleStatement nested bound) := by
  unfold Parse.simpleStatement
  refine .ifAccept ((terminated hprice .print bound).spare 1) ?_
  refine .ifAccept (returnStatement hprice bound) ?_
  refine .ifAccept ((conditional hprice (hnested .asBody) bound).spare 1) ?_
  refine .ifAccept ((whileLoop hprice (hnested .asBody) bound).spare 1) ?_
  refine .ifAccept ((forLoop hprice (hnested .asBody) bound).spare 1) (.view fun atBlock ↦ ?_)
  split
  · exact (block hprice (hnested .inList) bound).map
  · exact terminated hprice .expression bound

/-- A statement of a list pays one, and a declaration with its keyword. -/
theorem listedStatement {nested : StatementPlace → Parse Stmt}
    (hnested : ∀ place, Pays price 0 1 (nested place)) (bound : Nat) :
    Pays price 0 1 (Parse.listedStatement nested bound) := by
  unfold Parse.listedStatement
  refine .ifAccept ((functionDeclaration hprice (hnested .inList) bound).spare 1) ?_
  refine .ifAccept ((variableDeclaration hprice bound).spare 1) (.view fun atClass ↦ ?_)
  split
  · exact .failHere _
  · exact simpleStatement hprice hnested bound

/-- Every statement that is read leaves a credit, although nothing was there before it. So at least
one token has been passed. -/
theorem statement (bound : Nat) (place : StatementPlace) :
    Pays price 0 1 (Parse.statement bound place) := by
  induction bound generalizing place with
  | zero => exact .exhausted
  | succ bound ih =>
    cases place with
    | inList => exact listedStatement hprice ih (bound + 1)
    | asBody => exact simpleStatement hprice ih (bound + 1)

/-- A program needs a credit for the failure that may end its list behind the last token. -/
theorem program (bound : Nat) : Pays price 1 0 (Program.parse bound) :=
  statements hprice false (statement hprice bound .inList) bound

end

end Pays

end Parse

end Lox
