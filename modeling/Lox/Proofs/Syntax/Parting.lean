import Lox.Proofs.Syntax.Resumption

/-!
# Readings that part

Two readings pass the same tokens, and then different ones come next. Where they part, the one has
an unfinished statement and the closing brace behind it, the other a block without statements and
the tokens that the first goes on with behind what it skips (`Parting.ListRecovers.ofFails`). From
there on they agree, but for the error that has been reported at the brace.

That they agree from the start is shown from the inside to the outside, with one lemma for each rule
of the grammar by which a statement stands around the parting: `Parting.Recovers` says it of a
statement and `Parting.ListRecovers` of a list of statements.
-/

set_option autoImplicit false
set_option relaxedAutoImplicit false

namespace Lox

open Grammar

/-- What two readings have before them where they part, and what has been reported in the first of
them when they go on alike. -/
structure Parting where
  rest : List Token
  rest' : List Token
  errors : List SyntaxError

namespace Parting

variable (parting : Parting) {α β : Type}

/-- How two readings agree that have parted. -/
abbrev alike : Likeness := .resumed parting.errors

/-- Two readings that pass the same tokens before they part agree. -/
def Breaks (depth : Nat) (read : List TokenKind) (parse parse' : Parse α) : Prop :=
  ∀ first first', first.StandsBefore depth read parting.rest →
    first'.StandsBefore depth read parting.rest' →
      parting.alike.Agree first first' parse parse' fun _ _ _ _ ↦ True

/-- Bounds for two readings that pass so many tokens before they part. -/
structure Within (count limit limit' : Nat) : Prop where
  lt : count + parting.rest.length < limit
  lt' : count + parting.rest'.length < limit'

variable {parting} {depth : Nat} {read more : List TokenKind} {parse parse' : Parse α}
  {next next' : α → Parse β} {good good' : α → Prop}

namespace Breaks

/-- A chain of which the first step passes tokens that come before the parting. -/
theorem behind
    (hparse : Parse.Takes depth parse read (more ++ parting.rest.map Token.kind) good)
    (hparse' : Parse.Takes depth parse' read (more ++ parting.rest'.map Token.kind) good')
    (hkeeps : parse.Keeps Cursor.Remains) (hkeeps' : parse'.Keeps Cursor.Remains)
    (hnext : ∀ value value', good value → good' value' →
      parting.Breaks depth more (next value) (next' value')) :
    parting.Breaks depth (read ++ more) (parse >>= next) (parse' >>= next') := by
  intro first first' hfirst hfirst'
  obtain ⟨value, middle, hrun, hgood, hmiddle, hremains⟩ := hfirst.takes hparse hkeeps
  obtain ⟨value', middle', hrun', hgood', hmiddle', hremains'⟩ := hfirst'.takes hparse' hkeeps'
  exact .behind hrun hrun' hremains hremains'
    (hnext value value' hgood hgood' middle middle' hmiddle hmiddle')

/-- A chain of which the first step passes nothing. -/
theorem peek
    (hparse : Parse.Takes depth parse [] (read ++ parting.rest.map Token.kind) good)
    (hparse' : Parse.Takes depth parse' [] (read ++ parting.rest'.map Token.kind) good')
    (hkeeps : parse.Keeps Cursor.Remains) (hkeeps' : parse'.Keeps Cursor.Remains)
    (hnext : ∀ value value', good value → good' value' →
      parting.Breaks depth read (next value) (next' value')) :
    parting.Breaks depth read (parse >>= next) (parse' >>= next') :=
  behind hparse hparse' hkeeps hkeeps' hnext

/-- A chain of which the first step passes a token that comes before the parting. -/
theorem token {kind : TokenKind}
    (hparse : Parse.Takes depth parse [kind] (read ++ parting.rest.map Token.kind) good)
    (hparse' : Parse.Takes depth parse' [kind] (read ++ parting.rest'.map Token.kind) good')
    (hkeeps : parse.Keeps Cursor.Remains) (hkeeps' : parse'.Keeps Cursor.Remains)
    (hnext : ∀ value value', good value → good' value' →
      parting.Breaks depth read (next value) (next' value')) :
    parting.Breaks depth (kind :: read) (parse >>= next) (parse' >>= next') :=
  behind hparse hparse' hkeeps hkeeps' hnext

/-- A view of the cursors, of which nothing is known. -/
theorem view {view view' : Cursor → α}
    (hnext : ∀ value value', parting.Breaks depth read (next value) (next' value')) :
    parting.Breaks depth read (.gets view >>= next) (.gets view' >>= next') :=
  fun first first' hfirst hfirst' ↦ hnext (view first) (view' first') first first' hfirst hfirst'

section Branches

variable {kind : TokenKind} {yes yes' no no' : Parse α}

/-- A token before the parting decides for the same branch in both of the readings. -/
theorem ifAccepted (hyes : parting.Breaks depth read yes yes') :
    parting.Breaks depth (kind :: read) (do if ← Parse.accept kind then yes else no)
      (do if ← Parse.accept kind then yes' else no') := by
  refine token (.accept kind) (.accept kind) (Cursor.heldByReading_remains.accept kind)
    (Cursor.heldByReading_remains.accept kind) fun accepted accepted' haccepted haccepted' ↦ ?_
  rwa [haccepted, haccepted', if_pos rfl, if_pos rfl]

/-- If neither of the readings has the token before it, both take the second branch. At the parting
itself this has to be known of either. -/
theorem ifRefused (hkind : (read ++ parting.rest.map Token.kind).head? ≠ some kind)
    (hkind' : (read ++ parting.rest'.map Token.kind).head? ≠ some kind)
    (hno : parting.Breaks depth read no no') :
    parting.Breaks depth read (do if ← Parse.accept kind then yes else no)
      (do if ← Parse.accept kind then yes' else no') := by
  refine peek (.refuse hkind) (.refuse hkind') (Cursor.heldByReading_remains.accept kind)
    (Cursor.heldByReading_remains.accept kind) fun accepted accepted' haccepted haccepted' ↦ ?_
  rwa [haccepted, haccepted', if_neg Bool.false_ne_true, if_neg Bool.false_ne_true]

/-- The same where the token is only looked at. -/
theorem ifAt (hyes : parting.Breaks depth (kind :: read) yes yes') :
    parting.Breaks depth (kind :: read) (do if ← Parse.isAt kind then yes else no)
      (do if ← Parse.isAt kind then yes' else no') := by
  refine peek (.isAt kind) (.isAt kind) (.gets _) (.gets _) fun found found' hfound hfound' ↦ ?_
  rwa [hfound.trans (decide_eq_true rfl), hfound'.trans (decide_eq_true rfl), if_pos rfl,
    if_pos rfl]

theorem ifNotAt (hkind : (read ++ parting.rest.map Token.kind).head? ≠ some kind)
    (hkind' : (read ++ parting.rest'.map Token.kind).head? ≠ some kind)
    (hno : parting.Breaks depth read no no') :
    parting.Breaks depth read (do if ← Parse.isAt kind then yes else no)
      (do if ← Parse.isAt kind then yes' else no') := by
  refine peek (.isAt kind) (.isAt kind) (.gets _) (.gets _) fun found found' hfound hfound' ↦ ?_
  rwa [hfound, hfound', decide_eq_false hkind, decide_eq_false hkind',
    if_neg Bool.false_ne_true, if_neg Bool.false_ne_true]

end Branches

end Breaks

namespace Breaks

variable {limit limit' : Nat}

/-- A chain of which the readings part in the first step. -/
theorem bind (hparse : parting.Breaks depth read parse parse')
    (hwithin : parting.Within read.length limit limit')
    (hnext : ∀ value value' last last', parting.alike.Fits limit limit' last last' →
      parting.alike.Agree last last' (next value) (next' value') fun _ _ _ _ ↦ True) :
    parting.Breaks depth read (parse >>= next) (parse' >>= next') := by
  intro first first' hfirst hfirst'
  refine (hparse first first' hfirst hfirst').bind fun value value' last last' hfollow _ ↦ ?_
  have hlength := hfirst.length_eq ▸ hfollow.suffix.length_le
  have hlength' := hfirst'.length_eq ▸ hfollow.suffix'.length_le
  exact hnext value value' last last' ⟨hfollow.cursors, Nat.lt_of_le_of_lt hlength hwithin.lt,
    Nat.lt_of_le_of_lt hlength' hwithin.lt'⟩

/-- Converting the values makes no difference, since nothing is asked of them. -/
theorem map {convert convert' : α → β} (hparse : parting.Breaks depth read parse parse') :
    parting.Breaks depth read (convert <$> parse) (convert' <$> parse') :=
  fun first first' hfirst hfirst' ↦ (hparse first first' hfirst hfirst').map

/-- Readings that part inside of a function. -/
theorem insideFunction (hparse : parting.Breaks (depth + 1) read parse parse') :
    parting.Breaks depth read (Parse.insideFunction parse) (Parse.insideFunction parse') := by
  intro first first' hfirst hfirst'
  have henter {cursor : Cursor} {rest : List Token}
      (hcursor : cursor.StandsBefore depth read rest) :
      Cursor.StandsBefore (depth + 1) read rest { cursor with depth := cursor.depth + 1 } :=
    ⟨hcursor.exists_tokens, congrArg (· + 1) hcursor.depth_eq, hcursor.reported_eq⟩
  refine (hparse _ _ (henter hfirst) (henter hfirst')).insideFunction (fun hlast ↦ ?_)
    fun hvalues ↦ hvalues
  exact ⟨hlast.rest_eq, congrArg (· - 1) hlast.depth_eq, hlast.reported_eq, hlast.passed_eq⟩

end Breaks

/-! ### Statements -/

variable (parting)

/-- Two readings of a statement that part behind certain tokens agree, if the bounds are large
enough and an open function body allows a `return`. -/
def Recovers (place : StatementPlace) (inFunction : Bool) (read : List TokenKind) : Prop :=
  ∀ depth bound bound', (inFunction = true → depth ≠ 0) →
    parting.Within read.length bound bound' →
      parting.Breaks depth read (Parse.statement bound place) (Parse.statement bound' place)

/-- Two readings of a list of statements that part behind certain tokens agree, if the bounds are
large enough and an open function body allows a `return`. -/
def ListRecovers (inBlock inFunction : Bool) (read : List TokenKind) : Prop :=
  ∀ depth limit limit' bound bound' first first', (inFunction = true → depth ≠ 0) →
    parting.Within read.length limit limit' → parting.Within read.length bound bound' →
      first.StandsBefore depth read parting.rest → first'.StandsBefore depth read parting.rest' →
        parting.alike.Finish first first'
          (Parse.statements inBlock (Parse.statement limit .inList) bound)
          (Parse.statements inBlock (Parse.statement limit' .inList) bound') fun _ _ _ _ ↦ True

/-- A statement starts with certain tokens that come before the parting, or there if these are none.
-/
structure Begins (read : List TokenKind) : Prop where
  rest : Grammar.Begins startsStatement (read ++ parting.rest.map Token.kind)
  rest' : Grammar.Begins startsStatement (read ++ parting.rest'.map Token.kind)

variable {parting}

/-- Larger bounds do as well. -/
theorem Within.succ {count limit limit' : Nat} (hwithin : parting.Within count limit limit') :
    parting.Within count (limit + 1) (limit' + 1) :=
  ⟨Nat.lt_succ_of_lt hwithin.lt, Nat.lt_succ_of_lt hwithin.lt'⟩

/-- The bounds also do if fewer tokens are passed before the parting. -/
theorem Within.mono {count smaller limit limit' : Nat} (hwithin : parting.Within count limit limit')
    (hle : smaller ≤ count) : parting.Within smaller limit limit' :=
  ⟨by have := hwithin.lt; omega, by have := hwithin.lt'; omega⟩

/-- Bounds that suffice are not exhausted. -/
theorem Within.exists_succ {count limit limit' : Nat}
    (hwithin : parting.Within count limit limit') :
    ∃ smaller smaller', limit = smaller + 1 ∧ limit' = smaller' + 1 :=
  ⟨limit - 1, limit' - 1, by have := hwithin.lt; omega, by have := hwithin.lt'; omega⟩

/-- The header of a loop takes tokens from the front of what is left. -/
theorem keeps_loopHeader (bound : Nat) : (Parse.loopHeader bound).Keeps Cursor.Remains := by
  have h := Cursor.heldByReading_remains
  have hoptional (condition : Bool) := HeldByReading.optionally condition (h.expression bound)
  refine .bind (.gets _) fun keyword ↦ .bind (h.expect _) fun _ ↦ ?_
  refine .bind (h.initializer bound) fun first ↦ .bind (.gets _) fun atEnd ↦ ?_
  refine .bind (hoptional _) fun test ↦ .bind (h.expect _) fun _ ↦ .bind (.gets _) fun atClose ↦ ?_
  exact .bind (hoptional _) fun increment ↦ .bind (h.expect _) fun _ ↦ .pure _

namespace Recovers

variable {place : StatementPlace} {inFunction : Bool}

/-- A statement that is not a declaration is read by the parser of simple statements, in both
readings. -/
theorem ofSimple (hfirst : ∀ rest, ∀ word ∈ [Keyword.fun, .var, .class],
      (read ++ rest).head? ≠ some (.keyword word))
    (hsimple : ∀ depth bound bound', (inFunction = true → depth ≠ 0) →
      parting.Within read.length (bound + 1) (bound' + 1) →
        parting.Breaks depth read (Parse.simpleStatement (Parse.statement bound) (bound + 1))
          (Parse.simpleStatement (Parse.statement bound') (bound' + 1))) :
    parting.Recovers place inFunction read := by
  intro depth bound bound' hdepth hwithin
  obtain ⟨bound, bound', rfl, rfl⟩ := hwithin.exists_succ
  have hbreaks := hsimple depth bound bound' hdepth hwithin
  cases place with
  | inList =>
    exact .ifRefused (hfirst _ .fun (by simp)) (hfirst _ .fun (by simp))
      (.ifRefused (hfirst _ .var (by simp)) (hfirst _ .var (by simp))
        (.ifNotAt (hfirst _ .class (by simp)) (hfirst _ .class (by simp)) hbreaks))
  | asBody => exact hbreaks

/-- A condition in parentheses is read before the readings part. -/
theorem behindCondition {test : List TokenKind} {tree : Expr} {bound bound' : Nat}
    {next next' : Expr → Parse Stmt} (htest : Expression .assignment test tree)
    (hbound : test.length ≤ bound) (hbound' : test.length ≤ bound')
    (hnext : ∀ value value', parting.Breaks depth read (next value) (next' value')) :
    parting.Breaks depth (.symbol .leftParenthesis :: test ++ .symbol .rightParenthesis :: read)
      (Parse.condition bound >>= next) (Parse.condition bound' >>= next') := by
  have hkeeps (bound : Nat) := Cursor.heldByReading_remains.condition bound
  simpa using Breaks.behind (.conditionAlone htest hbound _) (.conditionAlone htest hbound' _)
    (hkeeps _) (hkeeps _) fun value value' _ _ ↦ hnext value value'

/-- If the parting lies in the only branch of a conditional, its condition has been taken in both
readings. Whether an `else` comes next is looked at behind the parting. -/
theorem conditional {test : List TokenKind} {condition : Expr}
    (htest : Expression .assignment test condition)
    (hbody : parting.Recovers .asBody inFunction read) :
    parting.Recovers place inFunction
      (.keyword .if :: .symbol .leftParenthesis :: test ++ .symbol .rightParenthesis :: read) := by
  refine ofSimple (by simp) fun depth bound bound' hdepth hwithin ↦ ?_
  obtain ⟨hlt, hlt'⟩ := hwithin
  simp only [List.length_append, List.length_cons] at hlt hlt'
  have hless : parting.Within read.length bound bound' := ⟨by omega, by omega⟩
  refine .ifRefused (by simp) (by simp) (.ifRefused (by simp) (by simp) (.ifAccepted ?_))
  refine behindCondition htest (by omega) (by omega) fun value value' ↦ ?_
  refine (hbody depth bound bound' hdepth hless).bind hless fun branch branch' _ _ hfits ↦ ?_
  exact (Likeness.resumed_heldBySteps.otherwise
    (fun place ↦ Likeness.resumed_heldBySteps.statement bound bound' place)
    (fun _ ↦ True.intro) hfits).mono fun _ _ _ _ _ _ ↦ True.intro

/-- The same if it lies in the branch behind the `else`. -/
theorem conditionalElse {test body : List TokenKind} {condition : Expr} {thenBranch : Stmt}
    (htest : Expression .assignment test condition)
    (hbody : Statement true .asBody inFunction true body thenBranch)
    (hother : parting.Recovers .asBody inFunction read) :
    parting.Recovers place inFunction
      (.keyword .if :: .symbol .leftParenthesis :: test ++ .symbol .rightParenthesis :: body ++
        .keyword .else :: read) := by
  simp only [List.cons_append, List.append_assoc]
  refine ofSimple (by simp) fun depth bound bound' hdepth hwithin ↦ ?_
  obtain ⟨hlt, hlt'⟩ := hwithin
  simp only [List.length_append, List.length_cons] at hlt hlt'
  have hless : parting.Within read.length bound bound' := ⟨by omega, by omega⟩
  have hkeeps (bound : Nat) := Cursor.heldByReading_remains.statement bound .asBody
  have hkeepsAccept := Cursor.heldByReading_remains.accept (.keyword .else)
  refine .ifRefused (by simp) (by simp) (.ifRefused (by simp) (by simp) (.ifAccepted ?_))
  refine behindCondition htest (by omega) (by omega) fun value value' ↦ ?_
  refine .behind (hbody.completes depth bound _ (by omega) hdepth (by simp))
    (hbody.completes depth bound' _ (by omega) hdepth (by simp)) (hkeeps _) (hkeeps _)
    fun branch branch' _ _ ↦ ?_
  refine .token (.accept _) (.accept _) hkeepsAccept hkeepsAccept
    fun accepted accepted' haccepted haccepted' ↦ ?_
  rw [haccepted, haccepted']
  refine .bind (.bind (hother depth bound bound' hdepth hless) hless ?_) hless ?_
  · exact fun _ _ _ _ hfits ↦ .pure hfits.cursors True.intro
  · exact fun _ _ _ _ hfits ↦ .pure hfits.cursors True.intro

/-- The same if it lies in the body of a loop. -/
theorem whileLoop {test : List TokenKind} {condition : Expr}
    (htest : Expression .assignment test condition)
    (hbody : parting.Recovers .asBody inFunction read) :
    parting.Recovers place inFunction
      (.keyword .while :: .symbol .leftParenthesis :: test ++
        .symbol .rightParenthesis :: read) := by
  refine ofSimple (by simp) fun depth bound bound' hdepth hwithin ↦ ?_
  obtain ⟨hlt, hlt'⟩ := hwithin
  simp only [List.length_append, List.length_cons] at hlt hlt'
  have hless : parting.Within read.length bound bound' := ⟨by omega, by omega⟩
  refine .ifRefused (by simp) (by simp) (.ifRefused (by simp) (by simp)
    (.ifRefused (by simp) (by simp) (.ifAccepted ?_)))
  refine behindCondition htest (by omega) (by omega) fun value value' ↦ ?_
  refine (hbody depth bound bound' hdepth hless).bind hless fun _ _ _ _ hfits ↦ ?_
  exact .pure hfits.cursors True.intro

/-- The same if the loop has clauses. -/
theorem forLoop {start test step : List TokenKind} {initializer : Option Stmt}
    {condition increment : Option Expr} (hstart : Initializer start initializer)
    (htest : OptionalExpression test condition) (hstep : OptionalExpression step increment)
    (hbody : parting.Recovers .asBody inFunction read) :
    parting.Recovers place inFunction
      (.keyword .for :: .symbol .leftParenthesis :: start ++ test ++ .symbol .semicolon :: step
        ++ .symbol .rightParenthesis :: read) := by
  have hread : .keyword .for :: .symbol .leftParenthesis :: start ++ test ++
        .symbol .semicolon :: step ++ .symbol .rightParenthesis :: read
      = .keyword .for :: (.symbol .leftParenthesis :: (start ++ (test ++ .symbol .semicolon ::
        (step ++ [.symbol .rightParenthesis]))) ++ read) := by simp
  rw [hread]
  refine ofSimple (by simp) fun depth bound bound' hdepth hwithin ↦ ?_
  obtain ⟨hlt, hlt'⟩ := hwithin
  simp only [List.length_append, List.length_cons] at hlt hlt'
  have hless : parting.Within read.length bound bound' := ⟨by omega, by omega⟩
  refine .ifRefused (by simp) (by simp) (.ifRefused (by simp) (by simp)
    (.ifRefused (by simp) (by simp) (.ifRefused (by simp) (by simp) (.ifAccepted ?_))))
  rw [Parse.forLoop_eq, Parse.forLoop_eq]
  refine .behind (.loopHeader hstart htest hstep (by omega))
    (.loopHeader hstart htest hstep (by omega)) (keeps_loopHeader _) (keeps_loopHeader _)
    fun header header' _ _ ↦ ?_
  refine (hbody depth bound bound' hdepth hless).bind hless fun _ _ _ _ hfits ↦ ?_
  exact .pure hfits.cursors True.intro

/-- A list of statements in braces, of which the first comes before the parting. -/
theorem takesBlock {bound bound' : Nat} (hdepth : inFunction = true → depth ≠ 0)
    (hlist : parting.ListRecovers true inFunction read)
    (hwithin : parting.Within read.length bound bound') :
    parting.Breaks depth (.symbol .leftBrace :: read)
      (Parse.block (Parse.statement bound .inList) (bound + 1))
      (Parse.block (Parse.statement bound' .inList) (bound' + 1)) := by
  have hkeeps := Cursor.heldByReading_remains.expect (.symbol .leftBrace)
  refine .token (.expect _) (.expect _) hkeeps hkeeps fun _ _ _ _ ↦ ?_
  have hstatements : parting.Breaks depth read
      (Parse.statements true (Parse.statement bound .inList) (bound + 1))
      (Parse.statements true (Parse.statement bound' .inList) (bound' + 1)) :=
    fun first first' hfirst hfirst' ↦
      .inl (hlist depth bound bound' _ _ first first' hdepth hwithin hwithin.succ hfirst hfirst')
  refine hstatements.bind hwithin fun _ _ _ _ hfits ↦ ?_
  exact (Likeness.resumed_heldBySteps.expect hfits.cursors (by simp)).bind
    fun _ _ _ _ hlast _ ↦ .pure hlast.cursors True.intro

/-- If the parting lies in a block, both readings have passed its opening brace. -/
theorem block (hlist : parting.ListRecovers true inFunction read) :
    parting.Recovers place inFunction (.symbol .leftBrace :: read) := by
  refine ofSimple (by simp) fun depth bound bound' hdepth hwithin ↦ ?_
  obtain ⟨hlt, hlt'⟩ := hwithin
  simp only [List.length_cons] at hlt hlt'
  refine .ifRefused (by simp) (by simp) (.ifRefused (by simp) (by simp)
    (.ifRefused (by simp) (by simp) (.ifRefused (by simp) (by simp)
      (.ifRefused (by simp) (by simp) (.ifAt (.map ?_))))))
  exact takesBlock hdepth hlist ⟨by omega, by omega⟩

/-- If it lies in the body of a function, both have passed the name and the parameters, and one more
body is open in both. -/
theorem function {parameters : List String} (name : String)
    (hlength : parameters.length ≤ maximumArguments)
    (hlist : parting.ListRecovers true true read) :
    parting.Recovers .inList inFunction
      (.keyword .fun :: .identifier name ::
        parenthesized (parameters.map fun parameter ↦ [.identifier parameter]) ++
        .symbol .leftBrace :: read) := by
  have hread : .keyword .fun :: .identifier name ::
        parenthesized (parameters.map fun parameter ↦ [.identifier parameter]) ++
        .symbol .leftBrace :: read
      = .keyword .fun :: .identifier name :: .symbol .leftParenthesis ::
        ((separated (parameters.map fun parameter ↦ [.identifier parameter]) ++
          [.symbol .rightParenthesis]) ++ (.symbol .leftBrace :: read)) := by
    simp [Grammar.parenthesized]
  rw [hread]
  intro depth bound bound' _ hwithin
  obtain ⟨bound, bound', rfl, rfl⟩ := hwithin.exists_succ
  obtain ⟨hlt, hlt'⟩ := hwithin
  have hcount := Parse.Takes.length_le_length_parameters parameters
  simp only [List.length_append, List.length_cons, List.length_nil] at hlt hlt'
  have h := Cursor.heldByReading_remains
  have hparameters (bound : Nat) :=
    h.parenthesized (h.identifier .parameter) .tooManyParameters bound
  refine .ifAccepted (.view fun keyword keyword' ↦ ?_)
  refine .token (.identifier _ name) (.identifier _ name) (h.identifier _) (h.identifier _)
    fun identifier identifier' _ _ ↦ ?_
  refine .token (.expect _) (.expect _) (h.expect _) (h.expect _) fun _ _ _ _ ↦ ?_
  refine .behind (.parameters hlength (by omega)) (.parameters hlength (by omega)) (hparameters _)
    (hparameters _) fun values values' _ _ ↦ ?_
  have hless : parting.Within read.length bound bound' := ⟨by omega, by omega⟩
  have hwhole : parting.Within (TokenKind.symbol .leftBrace :: read).length (bound + 1)
    (bound' + 1) := by
    constructor <;> rw [List.length_cons] <;> omega
  have hbody := takesBlock (fun _ ↦ Nat.succ_ne_zero depth) hlist hless
  exact hbody.insideFunction.bind hwhole fun _ _ _ _ hfits ↦ .view (.pure hfits.cursors True.intro)

end Recovers

/-! ### Lists of statements -/

theorem Begins.behind (hread : Grammar.Begins startsStatement read) (more : List TokenKind) :
    parting.Begins (read ++ more) :=
  ⟨(hread.append more).append _, (hread.append more).append _⟩

namespace ListRecovers

variable {inBlock inFunction : Bool}

/-- The first statement is read before the readings part. -/
theorem cons {item : Piece Stmt}
    (hitem : Statement true .inList inFunction false item.read item.tree)
    (hbegins : parting.Begins read) (hothers : parting.ListRecovers inBlock inFunction read) :
    parting.ListRecovers inBlock inFunction (item.read ++ read) := by
  intro depth limit limit' bound bound' first first' hdepth hlimit hbound hfirst hfirst'
  obtain ⟨bound, bound', rfl, rfl⟩ := hbound.exists_succ
  have hpos := List.length_pos_iff.mpr hitem.begins.ne_nil
  have hsmaller : parting.Within read.length limit limit' :=
    hlimit.mono (by rw [List.length_append]; omega)
  have hfewer : parting.Within read.length bound bound' := by
    obtain ⟨hlt, hlt'⟩ := hbound
    rw [List.length_append] at hlt hlt'
    exact ⟨by omega, by omega⟩
  have hle : item.read.length ≤ limit := by
    have hlt := hlimit.lt
    rw [List.length_append] at hlt
    omega
  have hle' : item.read.length ≤ limit' := by
    have hlt' := hlimit.lt'
    rw [List.length_append] at hlt'
    omega
  obtain ⟨value, last, hrun, hlast, hremains⟩ :=
    hfirst.exists_statements hitem hdepth hle fun _ ↦ hbegins.rest.head?_ne_some rfl
  obtain ⟨value', last', hrun', hlast', hremains'⟩ :=
    hfirst'.exists_statements hitem hdepth hle' fun _ ↦ hbegins.rest'.head?_ne_some rfl
  refine .later hrun hrun' hremains hremains' (.bind
    (hothers depth limit limit' bound bound' last last' hdepth hsmaller hfewer hlast hlast') ?_)
  exact fun _ _ _ _ hfollow _ ↦ .pure hfollow.cursors True.intro

/-- The readings part in the first statement. -/
theorem ofRecovers (hread : Grammar.Begins startsStatement read)
    (hstatement : parting.Recovers .inList inFunction read) :
    parting.ListRecovers inBlock inFunction read := by
  intro depth limit limit' bound bound' first first' hdepth hlimit hbound hfirst hfirst'
  have hagree := hstatement depth limit limit' hdepth hlimit first first' hfirst hfirst'
  have hlength := hfirst.length_eq
  have hlength' := hfirst'.length_eq
  obtain ⟨hlt, hlt'⟩ := hlimit
  obtain ⟨bound, bound', rfl, rfl⟩ := hbound.exists_succ
  obtain ⟨hless, hless'⟩ := hbound
  rw [← hlength] at hlt hless
  rw [← hlength'] at hlt' hless'
  have h := @Likeness.resumed_heldBySteps parting.errors
  refine .mono (h.statementsOfFirst (hfirst.not_endsList inBlock (hread.append _))
    (hfirst'.not_endsList inBlock (hread.append _)) hless hless' ?_ ?_) fun _ _ _ _ _ _ ↦ True.intro
  · rcases hagree with ⟨value, value', last, last', hrun, hrun', hfollow, -⟩ | hfailed
    · exact .inl ⟨value, value', last, last', hrun, hrun', hfollow, True.intro,
        Parse.length_rest_statement hlt hrun, Parse.length_rest_statement hlt' hrun'⟩
    · exact .inr hfailed
  · intro last last' hfollow hfewer
    have hwithin : parting.alike.Fits limit limit' last last' :=
      ⟨hfollow.cursors, Nat.lt_of_le_of_lt hfollow.suffix.length_le hlt,
        Nat.lt_of_le_of_lt hfollow.suffix'.length_le hlt'⟩
    exact h.statements inBlock (h.statement limit limit' .inList) hwithin hfewer

/-- The readings part where a statement cannot be read at a closing brace, and a block without
statements stands in the other one's way. From there on the same tokens come next, with the one
error in the first reading. -/
theorem ofFails {start after : List Token} {brace opening closing : Token} {cause : SyntaxCause}
    (hfails : StatementFails .inList inFunction (start.map Token.kind) cause)
    (hbegins : Grammar.Begins startsStatement (start.map Token.kind))
    (hbrace : brace.kind = .symbol .rightBrace) (hopening : opening.kind = .symbol .leftBrace)
    (hclosing : closing.kind = .symbol .rightBrace)
    (hrest : (Cursor.skipStatement (some brace) after).2 ≠ []) :
    (Parting.mk (start ++ brace :: after)
      (opening :: closing :: (Cursor.skipStatement (some brace) after).2)
      [⟨cause, brace.span⟩]).ListRecovers inBlock inFunction [] := by
  intro depth limit limit' bound bound' first first' hdepth hlimit hbound hfirst hfirst'
  have hsuffix := (Cursor.skipStatement_suffix (some brace) after).length_le
  obtain ⟨bound, bound', rfl, rfl⟩ := hbound.exists_succ
  obtain ⟨hlt, hlt'⟩ := hlimit
  obtain ⟨hless, hless'⟩ := hbound
  simp only [List.length_append, List.length_cons, List.length_nil] at hlt hlt' hless hless'
  have hstart : (start.map Token.kind).length < limit := by
    rw [List.length_map]
    omega
  have hsecond : 1 < limit' := by omega
  obtain ⟨last, hrun, hlast, hlastDepth, hreported, hremains⟩ :=
    hfirst.append.exists_statements_of_fails hfails hbegins hbrace hdepth hstart
  obtain ⟨value, last', hrun', hlast', hremains'⟩ :=
    hfirst'.exists_statements_of_emptyBlock hopening hclosing hsecond
  have hresumes : last.Resumes [⟨cause, brace.span⟩] last' := by
    refine ⟨hlast.trans hlast'.rest_eq.symm, hlastDepth.trans hlast'.depth_eq.symm, ?_,
      fun hnil ↦ absurd (hlast.symm.trans hnil) hrest⟩
    rw [hreported, hlast'.reported_eq, List.append_nil]
  have h := @Likeness.resumed_heldBySteps [⟨cause, brace.span⟩]
  have hfits : (Likeness.resumed _).Fits limit limit' last last' :=
    ⟨hresumes, by rw [hlast]; omega, by rw [hlast'.rest_eq]; omega⟩
  have hfewer : (Likeness.resumed _).Fits bound bound' last last' :=
    ⟨hresumes, by rw [hlast]; omega, by rw [hlast'.rest_eq]; omega⟩
  obtain ⟨values, values', reached, reached', hdone, hdone', hfollow, -⟩ :=
    h.statements inBlock (h.statement limit limit' .inList) hfits hfewer
  exact ⟨values, value :: values', reached, reached', hrun.trans hdone,
    hrun'.trans (Bounded.run_bind_of_done hdone'), ⟨hfollow.cursors,
      hfollow.suffix.trans hremains, hfollow.suffix'.trans hremains'⟩, True.intro⟩

end ListRecovers

end Parting

end Lox
