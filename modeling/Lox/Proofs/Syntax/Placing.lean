import Lox.Proofs.Computation.Preservation
import Lox.Proofs.Syntax.Standing

/-!
# Parsers and the places of their trees

A parser *places* what it reads if, whenever it has read something without an error, the tokens that
it passed, the value that it yields and the cursors before and behind them are related as they
should be: `Parse.Places`. In contrast to `Parse.Sound` the tokens are known with their places, and
the token passed last is known as well, which is where a parser takes the end of a place from.

There is one lemma for each elementary step and for each way in which steps are put together, and
one for the parser of each level of expressions: what is read as an expression is a tree that stands
on the tokens that have been passed (`Parse.Places.expression`).
-/

set_option autoImplicit false
set_option relaxedAutoImplicit false

namespace Lox

open Grammar

namespace Cursor

/-- The last cursor is reached from the first by passing certain tokens, without an error. -/
structure Reads (read : List Token) (first last : Cursor) : Prop where
  rest_eq : first.rest = read ++ last.rest
  passed_eq : last.passed = read.getLast?.or first.passed
  reported_eq : last.reported = first.reported
  depth_eq : last.depth = first.depth

theorem Reads.refl (cursor : Cursor) : Reads [] cursor cursor := ⟨rfl, rfl, rfl, rfl⟩

/-- Tokens that are passed one after the other are passed together. The token passed last is the
last one of the second part, unless this is empty. -/
theorem Reads.trans {read more : List Token} {first middle last : Cursor}
    (hfirst : Reads read first middle) (hsecond : Reads more middle last) :
    Reads (read ++ more) first last where
  rest_eq := by rw [hfirst.rest_eq, hsecond.rest_eq, List.append_assoc]
  passed_eq := by
    rw [hsecond.passed_eq, hfirst.passed_eq, List.getLast?_append, Option.or_assoc]
  reported_eq := hsecond.reported_eq.trans hfirst.reported_eq
  depth_eq := hsecond.depth_eq.trans hfirst.depth_eq

/-- Apart from their places, the tokens that are passed are the kinds that are passed. -/
theorem Reads.passes {read : List Token} {first last : Cursor} (hreads : Reads read first last) :
    Passes (read.map Token.kind) first last where
  kinds_eq := by rw [kinds, hreads.rest_eq, List.map_append, kinds]
  reported_eq := hreads.reported_eq
  depth_eq := hreads.depth_eq

/-- The next token is where the cursor stands. -/
theorem Reads.place_eq {token : Token} {first last : Cursor} (hreads : Reads [token] first last) :
    first.place = token.span := by
  have hrest := hreads.rest_eq
  rw [place]
  rw [List.singleton_append] at hrest
  rw [hrest]

theorem Reads.next?_eq {token : Token} {first last : Cursor} (hreads : Reads [token] first last) :
    first.next? = some token.kind := by
  rw [next?, hreads.rest_eq]
  rfl

/-- Passing the next token reads it alone, at the place that it has. -/
theorem reads_advance {cursor : Cursor} {kind : TokenKind} (hnext : cursor.next? = some kind) :
    ∃ span, Reads [⟨kind, span⟩] cursor cursor.advance := by
  obtain ⟨passed, rest, reported, depth⟩ := cursor
  cases rest with
  | nil => cases hnext
  | cons token rest =>
    obtain ⟨found, span⟩ := token
    obtain rfl : found = kind := Option.some.inj hnext
    exact ⟨span, rfl, rfl, rfl, rfl⟩

end Cursor

/-- How the cursor before, the tokens passed, the cursor behind them and the value yielded are
related. -/
abbrev Placing (α : Type) : Type := Cursor → List Token → Cursor → α → Prop

namespace Parse

variable {α β : Type}

/-- What is read without reporting an error is related as it should be. -/
def Places (parse : Parse α) (placing : Placing α) : Prop :=
  ∀ ⦃first last value⦄, parse.run first = .done value last → last.reported = [] →
    ∃ read, first.Reads read last ∧ placing first read last value

namespace Places

variable {parse : Parse α} {placing other : Placing α} {next : α → Parse β} {result : Placing β}

/-- What is known of the tokens and the value may be weakened. -/
theorem mono (hparse : Places parse placing)
    (himp : ∀ first read last value, placing first read last value → other first read last value) :
    Places parse other := by
  intro first last value hrun hreported
  obtain ⟨read, hreads, hplacing⟩ := hparse hrun hreported
  exact ⟨read, hreads, himp _ _ _ _ hplacing⟩

theorem pure {value : α} (hvalue : ∀ cursor, placing cursor [] cursor value) :
    Places (Pure.pure value) placing := by
  rintro first last value' hrun -
  cases hrun
  exact ⟨[], .refl first, hvalue _⟩

/-- What comes second may assume of what it reads that the first has been read. -/
theorem bind (hparse : Places parse placing)
    (hnext : ∀ value, Places (next value) fun middle read last reached ↦
      ∀ first before, first.Reads before middle → placing first before middle value →
        result first (before ++ read) last reached) :
    Places (parse >>= next) result := by
  intro first last reached hrun hreported
  obtain ⟨value, middle, hfirst, hsecond⟩ := Bounded.run_bind_eq_done.mp hrun
  obtain ⟨read, hread, himp⟩ := hnext value hsecond hreported
  obtain ⟨before, hbefore, hvalue⟩ := hparse hfirst (by rw [← hread.reported_eq, hreported])
  exact ⟨before ++ read, hbefore.trans hread, himp first before hbefore hvalue⟩

theorem map {convert : α → β} (hparse : Places parse fun first read last value ↦
      result first read last (convert value)) :
    Places (convert <$> parse) result := by
  rw [← bind_pure_comp]
  refine .bind hparse fun value ↦ .pure fun middle first before _ hbefore ↦ ?_
  rwa [List.append_nil]

/-- A view of the cursor, which passes nothing. -/
theorem view {view : Cursor → α} (hnext : ∀ value, Places (next value) fun first read last reached ↦
      value = view first → result first read last reached) :
    Places (.gets view >>= next) result := by
  intro first last reached hrun hreported
  obtain ⟨read, hread, himp⟩ := hnext (view first) hrun hreported
  exact ⟨read, hread, himp rfl⟩

/-- A failure yields no tree, so it has nothing to place. -/
theorem failHere (cause : SyntaxCause) : Places (failHere cause : Parse α) placing := by
  intro first last value hrun
  cases hrun

theorem exhausted : Places (.exhausted : Parse α) placing := by
  intro first last value hrun
  cases hrun

/-- Places aside, what is placed is read. -/
theorem sound (hparse : Places parse placing) : Sound parse fun _ _ _ _ ↦ True := by
  intro first last value hrun hreported
  obtain ⟨read, hreads, -⟩ := hparse hrun hreported
  exact ⟨_, hreads.passes, True.intro⟩

/-- What cannot be read without an error has no places. -/
theorem of_false (hparse : Sound parse fun _ _ _ _ ↦ False) : Places parse placing := by
  intro first last value hrun hreported
  obtain ⟨-, -, hfalse⟩ := hparse hrun hreported
  exact hfalse.elim

/-- Passing a token whose kind is known. -/
theorem pass {next : Unit → Parse β} {result : TokenKind → Placing β}
    (hnext : Places (next ()) fun middle read last reached ↦ ∀ first kind span,
      first.Reads [⟨kind, span⟩] middle → result kind first (⟨kind, span⟩ :: read) last reached) :
    Places (Parse.advance >>= next) fun first read last reached ↦
      ∀ kind, first.next? = some kind → result kind first read last reached := by
  intro first last reached hrun hreported
  obtain ⟨_, middle, hfirst, hsecond⟩ := Bounded.run_bind_eq_done.mp hrun
  cases hfirst
  obtain ⟨read, hread, himp⟩ := hnext hsecond hreported
  cases hkind : first.next? with
  | none =>
    have hrest : first.rest = [] := by simpa [Cursor.next?] using hkind
    rw [Cursor.advance, hrest] at hread
    refine ⟨read, hread, fun kind hsome ↦ ?_⟩
    rw [hkind] at hsome
    cases hsome
  | some kind =>
    obtain ⟨span, hspan⟩ := first.reads_advance hkind
    refine ⟨_, hspan.trans hread, fun found hfound ↦ ?_⟩
    obtain rfl := Option.some.inj (hkind.symm.trans hfound)
    exact himp first kind span hspan

/-- A token that may be missing is passed with its place, or else it is another one that comes next
and nothing has been passed. -/
theorem accept (kind : TokenKind) : Places (accept kind) fun first read last found ↦
    (found = true ∧ ∃ span, read = [⟨kind, span⟩]) ∨
      (found = false ∧ read = [] ∧ first = last ∧ first.next? ≠ some kind) := by
  rintro first last found hrun -
  rw [Parse.accept, Bounded.run_update, Cursor.isAt] at hrun
  by_cases hkind : first.next? = some kind
  · simp only [hkind, decide_true, if_true, Outcome.done.injEq] at hrun
    obtain ⟨rfl, rfl⟩ := hrun
    obtain ⟨span, hspan⟩ := first.reads_advance hkind
    exact ⟨_, hspan, .inl ⟨rfl, span, rfl⟩⟩
  · simp only [hkind, decide_false, Outcome.done.injEq] at hrun
    obtain ⟨rfl, rfl⟩ := hrun
    exact ⟨[], .refl first, .inr ⟨rfl, rfl, rfl, hkind⟩⟩

/-- A branch on whether the next token is of a given kind, in which case it is passed. -/
theorem ifAccept {kind : TokenKind} {yes no : Parse β}
    (hyes : Places yes fun middle read last reached ↦ ∀ first span,
      first.Reads [⟨kind, span⟩] middle → result first (⟨kind, span⟩ :: read) last reached)
    (hno : Places no fun first read last reached ↦
      first.next? ≠ some kind → result first read last reached) :
    Places (do if ← Parse.accept kind then yes else no) result := by
  refine .bind (.accept kind) fun found ↦ ?_
  cases found with
  | true =>
    refine hyes.mono ?_
    rintro _ _ _ _ hresult first _ hreads (⟨-, span, rfl⟩ | ⟨hfound, -⟩)
    · exact hresult first span hreads
    · cases hfound
  | false =>
    refine hno.mono ?_
    rintro _ _ _ _ hresult _ _ - (⟨hfound, -⟩ | ⟨-, rfl, rfl, hkind⟩)
    · cases hfound
    · exact hresult hkind

/-- A branch on whether the next token is of a given kind, which is not passed. -/
theorem ifAt {kind : TokenKind} {yes no : Parse β}
    (hyes : Places yes fun first read last reached ↦
      first.next? = some kind → result first read last reached)
    (hno : Places no fun first read last reached ↦
      first.next? ≠ some kind → result first read last reached) :
    Places (do if ← Parse.isAt kind then yes else no) result := by
  refine .view fun found ↦ ?_
  cases found with
  | true => exact hyes.mono fun _ _ _ _ himp hfound ↦ himp (of_decide_eq_true hfound.symm)
  | false => exact hno.mono fun _ _ _ _ himp hfound ↦ himp (of_decide_eq_false hfound.symm)

/-- A token that is demanded is the one that is passed, and its place is the value. -/
theorem expect (kind : TokenKind) :
    Places (expect kind) fun _ read _ span ↦ read = [⟨kind, span⟩] := by
  refine .view fun found ↦ .ifAccept ?_ (.failHere _)
  intro middle last span hrun hreported
  cases hrun
  refine ⟨[], .refl middle, fun first place hplace _ ↦ ?_⟩
  rw [Cursor.passedSpan, hplace.passed_eq]
  rfl

/-- A name is the token that writes it, with its place. The token that was looked at is the one that
is passed. -/
theorem identifier (place : NamePlace) :
    Places (identifier place) fun _ read _ value ↦ read = [value.token] := by
  refine .view fun kind ↦ ?_
  split
  · rename_i name
    suffices hknown : Places _ fun first read _ (value : Identifier) ↦ ∀ found,
        first.next? = some found → found = .identifier name →
          read = [value.token] from
      hknown.mono fun _ _ _ _ himp hkind ↦ himp _ hkind.symm rfl
    refine .pass (.view fun span ↦ .pure ?_)
    rintro middle rfl first _ span hspan rfl
    rw [Cursor.passedSpan, hspan.passed_eq]
    rfl
  · exact .failHere _

/-- A branch on whether the next token writes an operator. -/
theorem operator {ω : Type} {ofToken? : TokenKind → Option ω} {next : Option ω → Parse β}
    (hnone : Places (next none) result)
    (hsome : ∀ operator, Places (next (some operator)) fun first read last reached ↦
      ∀ kind, first.next? = some kind → ofToken? kind = some operator →
        result first read last reached) :
    Places (operator? ofToken? >>= next) result := by
  refine .view fun found ↦ ?_
  cases found with
  | none => exact hnone.mono fun _ _ _ _ hresult _ ↦ hresult
  | some operator =>
    refine (hsome operator).mono fun first _ _ _ himp hfound ↦ ?_
    obtain ⟨kind, hkind, hoperator⟩ := Option.bind_eq_some_iff.mp hfound.symm
    exact himp kind hkind hoperator

/-- A part that may be missing has been read and is there, or nothing has been passed. -/
theorem optionally {item : Parse α} (hitem : Places item placing) (condition : Bool) :
    Places (optionally condition item) fun first read last value ↦
      (condition = true ∧ ∃ present, value = some present ∧ placing first read last present) ∨
        (condition = false ∧ read = [] ∧ first = last ∧ value = none) := by
  cases condition with
  | true =>
    refine .bind hitem fun present ↦ .pure fun last first read _ hread ↦
      .inl ⟨rfl, present, rfl, ?_⟩
    rwa [List.append_nil]
  | false => exact .pure fun _ ↦ .inr ⟨rfl, rfl, rfl, rfl⟩

/-- A body is read in the same tokens one level deeper. From the cursors inside, which differ in
nothing but the depth, one may come back to those outside. -/
theorem insideFunction {body : Parse α} (hbody : Places body placing) :
    Places (insideFunction body) fun first read last value ↦
      ∃ inner outer, inner.depth = first.depth + 1 ∧ outer.next? = last.next? ∧
        placing inner read outer value := by
  intro first last value hrun hreported
  obtain ⟨reached, hinner, rfl⟩ := Bounded.run_within_eq_done.mp hrun
  obtain ⟨read, hread, hplacing⟩ := hbody hinner hreported
  refine ⟨read, ⟨hread.rest_eq, hread.passed_eq, hread.reported_eq, ?_⟩, _, reached, rfl, rfl,
    hplacing⟩
  exact congrArg (· - 1) hread.depth_eq

/-- A failure may be caught where what follows it cannot be read without an error. -/
theorem attempt {next : Except SyntaxError α → Parse β} (hparse : Places parse placing)
    (hok : ∀ value, Places (next (.ok value)) fun middle read last reached ↦
      ∀ first before, first.Reads before middle → placing first before middle value →
        result first (before ++ read) last reached)
    (herror : ∀ error, Sound (next (.error error)) fun _ _ _ _ ↦ False) :
    Places (parse.attempt >>= next) result := by
  intro first last reached hrun hreported
  obtain ⟨attempted, middle, hfirst, hsecond⟩ := Bounded.run_bind_eq_done.mp hrun
  rw [Bounded.run_attempt] at hfirst
  cases hinner : parse.run first with
  | done value state =>
    rw [hinner] at hfirst
    obtain ⟨rfl, rfl⟩ := Outcome.done.inj hfirst
    have hwhole : (parse >>= fun value ↦ next (.ok value)).run first = .done reached last :=
      Bounded.run_bind_eq_done.mpr ⟨value, state, hinner, hsecond⟩
    exact Places.bind hparse hok hwhole hreported
  | failed error state =>
    rw [hinner] at hfirst
    obtain ⟨rfl, rfl⟩ := Outcome.done.inj hfirst
    obtain ⟨-, -, hfalse⟩ := herror error hsecond hreported
    exact hfalse.elim
  | exhausted =>
    rw [hinner] at hfirst
    cases hfirst

/-- Items between commas stand on tokens of their own, with a comma before each but the first. That
a list without errors is not too long follows from the counting. -/
theorem separated {item : Parse α} {stands : List Token → α → Prop}
    (hitem : Places item fun _ read _ value ↦ stands read value) (tooMany : SyntaxCause)
    (bound count : Nat) :
    Places (separated item tooMany bound count) fun _ read _ values ↦
      ∃ items : List (Stretch α), items ≠ [] ∧ count + items.length ≤ maximumArguments ∧
        (∀ item ∈ items, stands item.tokens item.tree) ∧
        Separated (items.map Stretch.tokens) read ∧ values = items.map Stretch.tree := by
  induction bound generalizing count with
  | zero => exact .exhausted
  | succ bound ih =>
    have hrest : Places (do
        let first ← item
        if ← Parse.accept (.symbol .comma) then
          let others ← Parse.separated item tooMany bound (count + 1)
          Pure.pure (first :: others)
        else Pure.pure [first]) fun _ read _ values ↦ count < maximumArguments →
          ∃ items : List (Stretch α), items ≠ [] ∧ count + items.length ≤ maximumArguments ∧
            (∀ item ∈ items, stands item.tokens item.tree) ∧
            Separated (items.map Stretch.tokens) read ∧ values = items.map Stretch.tree := by
      refine .bind hitem fun value ↦ .ifAccept ?_ (.pure ?_)
      · refine .bind (ih (count + 1)) fun others ↦ .pure ?_
        rintro - - more - ⟨items, hne, hlength, hitems, hmore, rfl⟩ - comma - - read - hread -
        obtain ⟨second, items, rfl⟩ := List.exists_cons_of_ne_nil hne
        refine ⟨⟨read, value⟩ :: second :: items, by simp, ?_, ?_, ?_, rfl⟩
        · rw [List.length_cons]
          omega
        · rintro other (_ | ⟨_, hmem⟩)
          · exact hread
          · exact hitems other hmem
        · rw [List.append_nil]
          exact .cons read comma hmore
      · rintro - - - read - hread hcount
        refine ⟨[⟨read, value⟩], by simp, hcount, by simpa using hread, ?_, rfl⟩
        rw [List.append_nil]
        exact .single read
    rw [Parse.separated]
    split
    · exact .of_false (.bind_of_false (.reportHere tooMany) fun _ ↦ hrest.sound)
    · rename_i hcount
      exact hrest.mono fun _ _ _ _ hitems ↦ hitems (Nat.lt_of_not_le hcount)

/-- A list in parentheses is empty or one of items between commas, and its value ends with the place
of the closing parenthesis. -/
theorem parenthesized {item : Parse α} {stands : List Token → α → Prop}
    (hitem : Places item fun _ read _ value ↦ stands read value) (tooMany : SyntaxCause)
    (bound : Nat) :
    Places (parenthesized item tooMany bound) fun _ read _ values ↦
      ∃ (items : List (Stretch α)) (list : List Token), items.length ≤ maximumArguments ∧
        (∀ item ∈ items, stands item.tokens item.tree) ∧
        Separated (items.map Stretch.tokens) list ∧
        read = list ++ [⟨.symbol .rightParenthesis, values.2⟩] ∧
        values.1 = items.map Stretch.tree := by
  have hclose (values : List α) : Places (do
      let close ← Parse.expect (.symbol .rightParenthesis)
      Pure.pure (values, close)) fun _ read _ reached ↦ ∀ list,
        (∃ items : List (Stretch α), items.length ≤ maximumArguments ∧
          (∀ item ∈ items, stands item.tokens item.tree) ∧
          Separated (items.map Stretch.tokens) list ∧ values = items.map Stretch.tree) →
        ∃ (items : List (Stretch α)) (list' : List Token), items.length ≤ maximumArguments ∧
          (∀ item ∈ items, stands item.tokens item.tree) ∧
          Separated (items.map Stretch.tokens) list' ∧
          list ++ read = list' ++ [⟨.symbol .rightParenthesis, reached.2⟩] ∧
          reached.1 = items.map Stretch.tree := by
    refine .bind (.expect _) fun close ↦ .pure ?_
    rintro - - _ - rfl list ⟨items, hlength, hall, hlist, hvalues⟩
    exact ⟨items, list, hlength, hall, hlist, by simp, hvalues⟩
  refine .ifAt ?_ ?_
  · refine (hclose []).mono fun _ read _ _ himp _ ↦ ?_
    exact himp [] ⟨[], by simp, by simp, .none, rfl⟩
  · refine .bind (separated hitem tooMany bound 0) fun values ↦ (hclose values).mono ?_
    rintro - read - _ himp - list - ⟨items, -, hlength, hall, hlist, hvalues⟩ -
    exact himp list ⟨items, by omega, hall, hlist, hvalues⟩

/-- A table of operators and the trees that are made of them give the places that are right. -/
def Joins {ω : Type} (ofToken? : TokenKind → Option ω) (join : ω → Expr → Expr → Expr) : Prop :=
  ∀ ⦃kind operator⦄, ofToken? kind = some operator → ∀ ⦃first second left right⦄ (mark : Span),
    Expr.StandsOn first left → Expr.StandsOn second right →
    Expr.StandsOn (first ++ ⟨kind, mark⟩ :: second) (join operator left right)

/-- The binary operators of a table make trees that stand on the tokens of the operands and the one
of the operator between them. -/
theorem joins_binary {precedence : Precedence} {ofToken? : TokenKind → Option BinaryOperator}
    (hreadBy : precedence.ReadBy ofToken? Expr.joinBinary .binary) :
    Joins ofToken? Expr.joinBinary := by
  intro kind operator hoperator first second left right mark hleft hright
  have hmem : (kind, .binary operator) ∈ precedence.operators := by
    rw [Precedence.mem_operators_iff, ← hreadBy.map_ofToken?, hoperator]
    rfl
  obtain ⟨rfl, -⟩ := Precedence.mem_operators_iff_kind.mp hmem
  exact .binary operator mark hleft hright

/-- The same for the logical operators. -/
theorem joins_logical {precedence : Precedence} {ofToken? : TokenKind → Option LogicalOperator}
    (hreadBy : precedence.ReadBy ofToken? Expr.joinLogical .logical) :
    Joins ofToken? Expr.joinLogical := by
  intro kind operator hoperator first second left right mark hleft hright
  have hmem : (kind, .logical operator) ∈ precedence.operators := by
    rw [Precedence.mem_operators_iff, ← hreadBy.map_ofToken?, hoperator]
    rfl
  obtain ⟨rfl, -⟩ := Precedence.mem_operators_iff_kind.mp hmem
  exact .logical operator mark hleft hright

/-- The placing of an expression. -/
abbrev ofExpression : Placing Expr := fun _ read _ tree ↦ tree.StandsOn read

section Operators

variable {ω : Type} {ofToken? : TokenKind → Option ω} {join : ω → Expr → Expr → Expr}
  {operand : Parse Expr} (hjoins : Joins ofToken? join) (hoperand : Places operand ofExpression)

include hjoins hoperand

/-- A chain that goes on from a left operand makes a tree that stands on the tokens of this operand
and those that have been passed since. -/
theorem chainFrom (bound : Nat) (left : Expr) :
    Places (chainFrom ofToken? join operand bound left) fun _ read _ tree ↦
      ∀ before, left.StandsOn before → tree.StandsOn (before ++ read) := by
  induction bound generalizing left with
  | zero => exact .exhausted
  | succ bound ih =>
    refine .operator (.pure fun _ before hleft ↦ by rwa [List.append_nil]) fun operator ↦ ?_
    refine .pass (.bind hoperand fun right ↦ (ih _).mono ?_)
    rintro _ more _ tree htree middle second - hright first kind mark - hoperator before hleft
    rw [← List.cons_append, ← List.append_assoc]
    exact htree _ (hjoins hoperator mark hleft hright)

theorem chain (bound : Nat) : Places (chain ofToken? join bound operand) ofExpression := by
  refine .bind hoperand fun left ↦ (chainFrom hjoins hoperand bound left).mono ?_
  rintro _ _ _ _ htree _ before - hleft
  exact htree before hleft

end Operators

/-- An operator that cannot be chained, once or not at all. -/
theorem single {ofToken? : TokenKind → Option BinaryOperator} {operand : Parse Expr}
    (hjoins : Joins ofToken? Expr.joinBinary) (hoperand : Places operand ofExpression) :
    Places (single ofToken? operand) ofExpression := by
  refine .bind hoperand fun left ↦ .operator (.pure ?_) fun operator ↦ ?_
  · intro _ _ before _ hleft
    rwa [ofExpression, List.append_nil]
  · refine .pass (.bind hoperand fun right ↦ .operator (.pure ?_) fun _ ↦ .failHere _)
    rintro _ _ second - hright _ _ mark - hoperator _ first - hleft
    rw [ofExpression, List.append_nil]
    exact hjoins hoperator mark hleft hright

/-! ### Expressions -/

variable {nested : Parse Expr}

/-- A primary expression stands on its token, or on those between its parentheses and on these. -/
theorem primary (hnested : Places nested ofExpression) : Places (primary nested) ofExpression := by
  refine .view fun kind ↦ ?_
  split
  · exact .failHere _
  · rename_i kind
    refine .view fun span ↦ ?_
    suffices hknown : Places _ fun first read _ tree ↦ ∀ found, first.next? = some found →
        found = kind → span = first.place → Expr.StandsOn read tree from
      hknown.mono fun _ _ _ _ himp hspan hkind ↦ himp _ hkind.symm rfl hspan
    split
    · rename_i value hliteral
      refine .pass (.pure ?_)
      rintro _ _ _ place hplace rfl hspan
      rw [hspan, hplace.place_eq, Literal.ofToken?_eq_some_iff.mp hliteral]
      exact .literal value place
    · rename_i name hliteral
      refine .pass (.pure ?_)
      rintro _ _ _ place hplace rfl hspan
      rw [hspan, hplace.place_eq]
      exact .name ⟨name, place⟩
    · refine .pass (.bind hnested fun inner ↦ .bind (.expect _) fun close ↦ .pure ?_)
      rintro _ _ _ - rfl _ tokens - hinner _ _ place hplace rfl hspan
      rw [hspan, hplace.place_eq, List.append_nil]
      exact .grouping place close hinner
    · exact .failHere _
    · exact .failHere _
    · exact .failHere _

/-- Calls that go on from a callee make a tree that stands on the tokens of the callee and those
that have been passed since. -/
theorem callFrom (hnested : Places nested ofExpression) (bound : Nat) (callee : Expr) :
    Places (callFrom nested bound callee) fun _ read _ tree ↦
      ∀ before, callee.StandsOn before → tree.StandsOn (before ++ read) := by
  induction bound generalizing callee with
  | zero => exact .exhausted
  | succ bound ih =>
    refine .ifAccept ?_ (.ifAt (.failHere _) (.pure fun _ _ _ before hcallee ↦ ?_))
    · refine .bind (parenthesized hnested .tooManyArguments _) fun list ↦ (ih _).mono ?_
      rintro _ more _ tree htree _ read - ⟨items, tokens, -, hitems, hlist, rfl, hvalues⟩ _ opening
        -
        before hcallee
      have hcall := Expr.StandsOn.call opening list.2 hcallee hitems hlist
      rw [← hvalues] at hcall
      simpa using htree _ hcall
    · rwa [List.append_nil]

theorem call (hnested : Places nested ofExpression) (bound : Nat) :
    Places (call nested bound) ofExpression := by
  refine .bind (primary hnested) fun callee ↦ (callFrom hnested bound callee).mono ?_
  rintro _ _ _ _ htree _ before - hcallee
  exact htree before hcallee

/-- A unary operator stands on its token and on those of its operand. -/
theorem unary (hnested : Places nested ofExpression) (bound : Nat) :
    Places (unary nested bound) ofExpression := by
  induction bound with
  | zero => exact .exhausted
  | succ bound ih =>
    refine .view fun found ↦ ?_
    cases found with
    | none => exact (call hnested (bound + 1)).mono fun _ _ _ _ htree _ ↦ htree
    | some operator =>
      refine .view fun span ↦ ?_
      suffices hknown : Places _ fun first read _ tree ↦ ∀ found, first.next? = some found →
          UnaryOperator.ofToken? found = some operator → span = first.place →
            Expr.StandsOn read tree by
        refine hknown.mono fun first _ _ _ himp hspan hfound ↦ ?_
        obtain ⟨kind, hkind, hoperator⟩ := Option.bind_eq_some_iff.mp hfound.symm
        exact himp kind hkind hoperator hspan
      refine .pass (.bind ih fun operand ↦ .pure ?_)
      rintro _ _ tokens - hoperand _ _ place hplace hoperator hspan
      rw [hspan, hplace.place_eq, UnaryOperator.kind_eq_of_ofToken? hoperator, List.append_nil]
      exact .unary operator place hoperand

theorem binary (hnested : Places nested ofExpression) (bound : Nat) :
    Places (binary nested bound) ofExpression := by
  have hfactor := chain (joins_binary Precedence.factor_readBy) (unary hnested bound) bound
  have hterm := chain (joins_binary Precedence.term_readBy) hfactor bound
  have hcomparison := single (joins_binary Precedence.comparison_readBy) hterm
  exact single (joins_binary Precedence.equality_readBy) hcomparison

theorem logical (hnested : Places nested ofExpression) (bound : Nat) :
    Places (logical nested bound) ofExpression := by
  have hand := chain (joins_logical Precedence.logicAnd_readBy) (binary hnested bound) bound
  exact chain (joins_logical Precedence.logicOr_readBy) hand bound

/-- An assignment stands on the name, the token between, and the tokens of its value. Any other
target is reported, so that there would have been an error. -/
theorem assignment (hnested : Places nested ofExpression) (bound : Nat) :
    Places (assignment nested bound) ofExpression := by
  refine .bind (logical hnested bound) fun target ↦ .ifAccept ?_ (.pure ?_)
  · refine .bind hnested fun value ↦ ?_
    split
    · rename_i identifier
      refine .pure ?_
      intro _ _ tokens _ hvalue _ mark _ _ before _ hname
      cases hname
      rw [ofExpression, List.append_nil]
      exact .assign identifier mark hvalue
    · refine .of_false (.bind_of_false (.report _) fun _ ↦ .pure fun _ _ ↦ True.intro)
  · intro _ _ _ before _ hvalue
    rwa [ofExpression, List.append_nil]

/-- What is read as an expression stands on the tokens that have been passed. -/
theorem expression (bound : Nat) : Places (expression bound) ofExpression := by
  induction bound with
  | zero => exact .exhausted
  | succ bound ih => exact assignment ih (bound + 1)

/-- What is read as an expression also fits, because it is one of the grammar. -/
theorem fitting (bound : Nat) : Places (Parse.expression bound) fun _ read _ tree ↦
    tree.StandsOn read ∧ tree.Fits .assignment := by
  intro first last tree hrun hreported
  obtain ⟨read, hreads, hstands⟩ := expression bound hrun hreported
  obtain ⟨kinds, hpasses, hexpression⟩ := Sound.expression bound hrun hreported
  exact ⟨read, hreads, hstands, (expression_eraseSpans_iff.mp hexpression).2⟩

end Places

end Parse

end Lox
