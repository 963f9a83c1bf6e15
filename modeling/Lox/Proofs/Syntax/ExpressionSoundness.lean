import Lox.Proofs.Syntax.Reading
import Lox.Proofs.Syntax.SpanErasure

/-!
# Expressions are read as the grammar has them

Whatever `Parse.expression` reads without reporting an error is an expression of the grammar, with
the tree that is yielded apart from places (`Parse.Sound.expression`). There is one lemma for the
parser of each level, about any parser of whole expressions that is sound.
-/

set_option autoImplicit false
set_option relaxedAutoImplicit false

namespace Lox

open Grammar

/-- The reading of an expression of a level. -/
def ofLevel (level : Level) : Reading Expr :=
  fun _ read _ tree ↦ Expression level read tree.eraseSpans

/-- The operator of a level that a token writes for the parser. -/
def Grammar.Precedence.ofToken? (precedence : Precedence) (kind : TokenKind) : Option Operator :=
  match precedence with
  | logicOr => (LogicalOperator.ofOrToken? kind).map .logical
  | logicAnd => (LogicalOperator.ofAndToken? kind).map .logical
  | equality => (BinaryOperator.ofEqualityToken? kind).map .binary
  | comparison => (BinaryOperator.ofComparisonToken? kind).map .binary
  | term => (BinaryOperator.ofTermToken? kind).map .binary
  | factor => (BinaryOperator.ofFactorToken? kind).map .binary

/-- The parser knows the operators of a level by the tokens that write them in the grammar. -/
theorem Grammar.Precedence.mem_operators_iff {precedence : Precedence} {kind : TokenKind}
    {operator : Operator} :
    (kind, operator) ∈ precedence.operators ↔ precedence.ofToken? kind = some operator := by
  cases precedence <;>
    simp only [ofToken?, operators, LogicalOperator.ofOrToken?, LogicalOperator.ofAndToken?,
      BinaryOperator.ofEqualityToken?, BinaryOperator.ofComparisonToken?,
      BinaryOperator.ofTermToken?, BinaryOperator.ofFactorToken?] <;>
    split <;> simp_all [eq_comm]

/-- The table and the trees that a parser of operators is given are those of a level. -/
structure Grammar.Precedence.ReadBy {ω : Type} (precedence : Precedence)
    (ofToken? : TokenKind → Option ω) (join : ω → Expr → Expr → Expr) (write : ω → Operator) :
    Prop where
  map_ofToken? : ∀ kind, (ofToken? kind).map write = precedence.ofToken? kind
  eraseSpans_join : ∀ operator left right,
    (join operator left right).eraseSpans
      = (write operator).between left.eraseSpans right.eraseSpans

namespace Grammar.Precedence

/-- The level of `or` is read by its parser: the token is looked up in the table, and the operands
are joined with the place that reaches over both. -/
theorem logicOr_readBy :
    logicOr.ReadBy LogicalOperator.ofOrToken? Expr.joinLogical .logical :=
  ⟨fun _ ↦ rfl, fun _ _ _ ↦ rfl⟩

theorem logicAnd_readBy :
    logicAnd.ReadBy LogicalOperator.ofAndToken? Expr.joinLogical .logical :=
  ⟨fun _ ↦ rfl, fun _ _ _ ↦ rfl⟩

theorem equality_readBy :
    equality.ReadBy BinaryOperator.ofEqualityToken? Expr.joinBinary .binary :=
  ⟨fun _ ↦ rfl, fun _ _ _ ↦ rfl⟩

theorem comparison_readBy :
    comparison.ReadBy BinaryOperator.ofComparisonToken? Expr.joinBinary .binary :=
  ⟨fun _ ↦ rfl, fun _ _ _ ↦ rfl⟩

theorem term_readBy :
    term.ReadBy BinaryOperator.ofTermToken? Expr.joinBinary .binary :=
  ⟨fun _ ↦ rfl, fun _ _ _ ↦ rfl⟩

theorem factor_readBy :
    factor.ReadBy BinaryOperator.ofFactorToken? Expr.joinBinary .binary :=
  ⟨fun _ ↦ rfl, fun _ _ _ ↦ rfl⟩

end Grammar.Precedence

namespace Grammar.Expression

/-- A token that is a literal is a primary expression. -/
theorem literal {kind : TokenKind} {value : Literal}
    (hliteral : Literal.ofToken? kind = some value) :
    Expression .primary [kind] (.literal value .origin) := by
  unfold Literal.ofToken? at hliteral
  split at hliteral <;> cases hliteral
  · exact .number _
  · exact .string _
  · exact .trueWord
  · exact .falseWord
  · exact .nilWord

/-- Operators with operands behind them make no name. -/
theorem eq_nil_of_foldl_after {others : List Operation} {first : Expr} {identifier : Identifier}
    (hname : others.foldl Operation.after first = .name identifier) : others = [] := by
  rcases List.eq_nil_or_concat others with rfl | ⟨others, last, rfl⟩
  · rfl
  · rw [List.concat_eq_append, List.foldl_append, List.foldl_cons, List.foldl_nil,
      Operation.after] at hname
    generalize last.operator = operator at hname
    cases operator <;> cases hname

/-- Argument lists behind a callee make no name. -/
theorem eq_nil_of_foldl_callWith {lists : List (List (Piece Expr))} {callee : Expr}
    {identifier : Identifier} (hname : lists.foldl callWith callee = .name identifier) :
    lists = [] := by
  rcases List.eq_nil_or_concat lists with rfl | ⟨lists, last, rfl⟩
  · rfl
  · rw [List.concat_eq_append, List.foldl_append] at hname
    cases hname

/-- The tree of a name is written by that name alone. -/
theorem read_eq_of_name {level : Level} {read : List TokenKind} {tree : Expr}
    {identifier : Identifier} (hexpression : Expression level read tree)
    (hname : tree = .name identifier) : read = [.identifier identifier.name] := by
  induction hexpression with
  | value _ ih => exact ih hname
  | operators _ _ _ _ ih =>
    obtain rfl := eq_nil_of_foldl_after hname
    simpa using ih hname
  | operand _ ih => exact ih hname
  | call _ _ _ ih =>
    obtain rfl := eq_nil_of_foldl_callWith hname
    simpa using ih hname
  | name name =>
    cases hname
    rfl
  | _ => cases hname

end Grammar.Expression

namespace Parse.Sound

variable {α : Type}

/-- Items with commas between them have been read up to a token that is no comma. There are not too
many of them, counting those before. The check of their number makes the whole fail if there are too
many. -/
theorem separated {item : Parse α} {reads : List TokenKind → α → Prop}
    (hitem : Sound item fun _ read _ value ↦ reads read value) (tooMany : SyntaxCause)
    (bound count : Nat) :
    Sound (separated item tooMany bound count) fun _ read _ values ↦
      ∃ items : List (Piece α), items ≠ [] ∧ count + items.length ≤ maximumArguments ∧
        (∀ item ∈ items, reads item.read item.tree) ∧
        read = Grammar.separated (items.map Piece.read) ∧ values = items.map Piece.tree := by
  induction bound generalizing count with
  | zero => exact .exhausted
  | succ bound ih =>
    have hrest : Sound (do
        let first ← item
        if ← Parse.accept (.symbol .comma) then
          let others ← Parse.separated item tooMany bound (count + 1)
          Pure.pure (first :: others)
        else Pure.pure [first]) fun _ read _ values ↦ count < maximumArguments →
          ∃ items : List (Piece α), items ≠ [] ∧ count + items.length ≤ maximumArguments ∧
            (∀ item ∈ items, reads item.read item.tree) ∧
            read = Grammar.separated (items.map Piece.read) ∧
            values = items.map Piece.tree := by
      refine .bind hitem fun first ↦ .ifAccept ?_ (.pure ?_)
      · refine .bind (ih (count + 1)) fun others ↦ .pure ?_
        rintro - - _ ⟨items, hne, hlength, hitems, rfl, rfl⟩ read hread -
        obtain ⟨second, items, rfl⟩ := List.exists_cons_of_ne_nil hne
        refine ⟨⟨read, first⟩ :: second :: items, by simp, ?_, ?_, by simp [Grammar.separated],
          rfl⟩
        · rw [List.length_cons]
          omega
        · rintro other (_ | ⟨_, hmem⟩)
          · exact hread
          · exact hitems other hmem
      · rintro - - - read hread hcount
        exact ⟨[⟨read, first⟩], by simp, hcount, by simpa using hread, by simp [Grammar.separated],
          rfl⟩
    rw [Parse.separated]
    split
    · exact .bind_of_false (.reportHere tooMany) fun _ ↦ hrest.trivial
    · rename_i hcount
      exact hrest.mono fun _ _ _ _ hitems ↦ hitems (Nat.lt_of_not_le hcount)

/-- A list in parentheses is either empty or has items with commas between them. -/
theorem parenthesized {item : Parse α} {reads : List TokenKind → α → Prop}
    (hitem : Sound item fun _ read _ value ↦ reads read value) (tooMany : SyntaxCause)
    (bound : Nat) :
    Sound (parenthesized item tooMany bound) fun _ read _ values ↦
      ∃ items : List (Piece α), items.length ≤ maximumArguments ∧
        (∀ item ∈ items, reads item.read item.tree) ∧
        .symbol .leftParenthesis :: read = Grammar.parenthesized (items.map Piece.read) ∧
        values.1 = items.map Piece.tree := by
  have hclose (values : List α) : Sound (do
      let close ← Parse.expect (.symbol .rightParenthesis)
      Pure.pure (values, close)) fun _ read _ reached ↦ ∀ before,
        (∃ items : List (Piece α), items.length ≤ maximumArguments ∧
          (∀ item ∈ items, reads item.read item.tree) ∧
          before = Grammar.separated (items.map Piece.read) ∧ values = items.map Piece.tree) →
        ∃ items : List (Piece α), items.length ≤ maximumArguments ∧
          (∀ item ∈ items, reads item.read item.tree) ∧
          .symbol .leftParenthesis :: (before ++ read)
            = Grammar.parenthesized (items.map Piece.read) ∧
          reached.1 = items.map Piece.tree := by
    refine .bind (.expect _) fun close ↦ .pure ?_
    rintro _ _ _ rfl _ ⟨items, hlength, hall, rfl, hvalues⟩
    exact ⟨items, hlength, hall, by simp [Grammar.parenthesized], hvalues⟩
  refine .ifAt ?_ ?_
  · refine (hclose []).mono ?_
    rintro _ read _ _ himp -
    exact himp [] ⟨[], by simp [Grammar.separated]⟩
  · refine .bind (separated hitem tooMany bound 0) fun values ↦ (hclose values).mono ?_
    rintro _ read _ _ himp before ⟨items, -, hlength, hall, hread, hvalues⟩ -
    exact himp before ⟨items, by omega, hall, hread, hvalues⟩

variable {ω : Type} {precedence : Precedence} {ofToken? : TokenKind → Option ω}
  {join : ω → Expr → Expr → Expr} {write : ω → Operator} {operand : Parse Expr}

/-- Behind a left operand operations of the level have been read, and they are joined from the left.
-/
theorem chainFrom (hreadBy : precedence.ReadBy ofToken? join write)
    (hoperand : Sound operand (ofLevel precedence.operand)) (bound : Nat) (left : Expr) :
    Sound (chainFrom ofToken? join operand bound left) fun _ read _ tree ↦
      ∃ others : List Operation,
        (∀ other ∈ others, (other.mark, other.operator) ∈ precedence.operators) ∧
        (∀ other ∈ others, Expression precedence.operand other.read other.operand) ∧
        read = others.flatMap Operation.kinds ∧
        tree.eraseSpans = others.foldl Operation.after left.eraseSpans := by
  induction bound generalizing left with
  | zero => exact .exhausted
  | succ bound ih =>
    rw [Parse.chainFrom]
    refine .operator (.pure fun _ _ ↦ ⟨[], by simp⟩) fun operator ↦ ?_
    refine .pass (.bind hoperand fun right ↦ (ih _).mono ?_)
    rintro _ _ _ tree ⟨others, hmarks, hothers, rfl, htree⟩ read hright kind hkind
    have hmark : (kind, write operator) ∈ precedence.operators := by
      rw [Precedence.mem_operators_iff, ← hreadBy.map_ofToken?, hkind]
      rfl
    refine ⟨⟨kind, write operator, read, right.eraseSpans⟩ :: others, ?_, ?_, ?_, ?_⟩
    · rintro other (_ | ⟨_, hmem⟩)
      · exact hmark
      · exact hmarks other hmem
    · rintro other (_ | ⟨_, hmem⟩)
      · exact hright
      · exact hothers other hmem
    · simp [Operation.kinds]
    · rw [htree, hreadBy.eraseSpans_join]
      rfl

/-- So an operand and what follows it make an expression of a level that may be chained. -/
theorem chain (hreadBy : precedence.ReadBy ofToken? join write)
    (hassociates : precedence.associates = true)
    (hoperand : Sound operand (ofLevel precedence.operand)) (bound : Nat) :
    Sound (chain ofToken? join bound operand) (ofLevel (.operators precedence)) := by
  refine .bind hoperand fun first ↦ (chainFrom hreadBy hoperand bound first).mono ?_
  rintro _ _ _ tree ⟨others, hmarks, hothers, rfl, htree⟩ read hfirst
  rw [ofLevel, htree]
  exact .operators hfirst hmarks hothers (by simp [hassociates])

/-- At a level that may not be chained a second operator makes the parser fail, so there is at most
one. -/
theorem single {ofToken? : TokenKind → Option BinaryOperator}
    (hreadBy : precedence.ReadBy ofToken? Expr.joinBinary .binary)
    (hoperand : Sound operand (ofLevel precedence.operand)) :
    Sound (single ofToken? operand) (ofLevel (.operators precedence)) := by
  refine .bind hoperand fun first ↦ .operator (.pure ?_) fun operator ↦ ?_
  · rintro _ _ read hfirst
    exact @Expression.operators precedence _ _ [] hfirst (by simp) (by simp) (by simp)
  · refine .pass (.bind hoperand fun right ↦ .operator (.pure ?_) fun _ ↦ .failHere _)
    rintro _ _ other hright kind hkind read hfirst
    have hmark : (kind, .binary operator) ∈ precedence.operators := by
      rw [Precedence.mem_operators_iff, ← hreadBy.map_ofToken?, hkind]
      rfl
    have hone := @Expression.operators precedence _ _
      [⟨kind, .binary operator, other, right.eraseSpans⟩] hfirst (by simpa using hmark)
      (by simpa [ofLevel] using hright) (by simp)
    rw [ofLevel, hreadBy.eraseSpans_join]
    simpa [Operation.kinds, Operation.after] using hone

/-! ### The levels -/

variable {nested : Parse Expr}

/-- What is read as a primary expression is a literal, a name or an expression in parentheses. -/
theorem primary (hnested : Sound nested (ofLevel .assignment)) :
    Sound (primary nested) (ofLevel .primary) := by
  refine .peek fun kind ↦ ?_
  split
  · exact .failHere _
  · rename_i kind
    refine .view fun span ↦ ?_
    suffices hknown : Sound _ fun depth read rest tree ↦ ∀ found,
        (read ++ rest).head? = some found → found = kind →
          ofLevel .primary depth read rest tree from
      hknown.mono fun _ _ _ _ himp hkind ↦ himp kind hkind rfl
    split
    · rename_i value hliteral
      refine .pass (.pure ?_)
      rintro _ _ _ rfl
      exact .literal hliteral
    · rename_i name hliteral
      refine .pass (.pure ?_)
      rintro _ _ _ rfl
      exact .name name
    · refine .pass (.bind hnested fun inner ↦ .bind (.expect _) fun close ↦ .pure ?_)
      rintro _ _ _ rfl _ hinner _ rfl
      simpa [ofLevel] using Expression.grouping hinner
    · exact .failHere _
    · exact .failHere _
    · exact .failHere _

/-- Behind a callee argument lists have been read, and the calls nest to the left. -/
theorem callFrom (hnested : Sound nested (ofLevel .assignment)) (bound : Nat)
    (callee : Expr) :
    Sound (callFrom nested bound callee) fun _ read _ tree ↦
      ∃ lists : List (List (Piece Expr)),
        (∀ arguments ∈ lists, ∀ argument ∈ arguments,
          Expression .assignment argument.read argument.tree) ∧
        (∀ arguments ∈ lists, arguments.length ≤ maximumArguments) ∧
        read = lists.flatMap argumentKinds ∧
        tree.eraseSpans = lists.foldl callWith callee.eraseSpans := by
  induction bound generalizing callee with
  | zero => exact .exhausted
  | succ bound ih =>
    refine .ifAccept ?_ (.ifAt (.failHere _) (.pure fun _ _ _ _ ↦ ⟨[], by simp⟩))
    refine .bind (parenthesized hnested .tooManyArguments _) fun arguments ↦ (ih _).mono ?_
    rintro _ _ _ tree ⟨lists, hall, hlengths, rfl, htree⟩ read hread
    obtain ⟨items, hlength, hitems, hread, hvalues⟩ := hread
    refine ⟨items.map (Piece.map Expr.eraseSpans) :: lists, ?_, ?_, ?_, ?_⟩
    · rintro other (_ | ⟨_, hmem⟩) argument hargument
      · obtain ⟨item, hitem, rfl⟩ := List.mem_map.mp hargument
        exact hitems item hitem
      · exact hall other hmem argument hargument
    · rintro other (_ | ⟨_, hmem⟩)
      · rwa [List.length_map]
      · exact hlengths other hmem
    · rw [← List.cons_append, hread, List.flatMap_cons, argumentKinds, List.map_map]
      rfl
    · rw [htree, Expr.eraseSpans_call, Expr.eraseSpansAll_eq_map, hvalues, List.foldl_cons,
        callWith, List.map_map, List.map_map]
      rfl

/-- So a primary expression and the argument lists behind it make a call. -/
theorem call (hnested : Sound nested (ofLevel .assignment)) (bound : Nat) :
    Sound (call nested bound) (ofLevel .call) := by
  refine .bind (primary hnested) fun callee ↦ (callFrom hnested bound callee).mono ?_
  rintro _ _ _ tree ⟨lists, hall, hlengths, rfl, htree⟩ read hcallee
  rw [ofLevel, htree]
  exact .call hcallee hall hlengths

/-- Unary operators nest to the right, in front of a call. The induction is on the bound. -/
theorem unary (hnested : Sound nested (ofLevel .assignment)) (bound : Nat) :
    Sound (unary nested bound) (ofLevel .unary) := by
  induction bound with
  | zero => exact .exhausted
  | succ bound ih =>
    refine .operator ?_ fun operator ↦ .view fun span ↦ .pass (.bind ih fun operand ↦ .pure ?_)
    · exact (call hnested (bound + 1)).mono fun _ _ _ _ hcall ↦ .operand hcall
    · rintro _ _ read hread kind hkind
      rw [ofLevel, List.append_nil, Expr.eraseSpans_unary]
      unfold UnaryOperator.ofToken? at hkind
      split at hkind <;> cases hkind
      · exact .negate hread
      · exact .complement hread

/-- The levels of binary operators, from the tightest to the loosest. -/
theorem binary (hnested : Sound nested (ofLevel .assignment)) (bound : Nat) :
    Sound (binary nested bound) (ofLevel (.operators .equality)) := by
  have hfactor := chain Precedence.factor_readBy rfl (unary hnested bound) bound
  have hterm := chain Precedence.term_readBy rfl hfactor bound
  have hcomparison := single Precedence.comparison_readBy hterm
  exact single Precedence.equality_readBy hcomparison

/-- The same with the two levels of logical operators. -/
theorem logical (hnested : Sound nested (ofLevel .assignment)) (bound : Nat) :
    Sound (logical nested bound) (ofLevel (.operators .logicOr)) := by
  have hand := chain Precedence.logicAnd_readBy rfl (binary hnested bound) bound
  exact chain Precedence.logicOr_readBy rfl hand bound

/-- What is read as an assignment has a name on its left, as any other target is reported. -/
theorem assignment (hnested : Sound nested (ofLevel .assignment)) (bound : Nat) :
    Sound (assignment nested bound) (ofLevel .assignment) := by
  refine .bind (logical hnested bound) fun target ↦ .ifAccept ?_ (.pure ?_)
  · refine .bind hnested fun value ↦ ?_
    split
    · rename_i identifier
      refine .pure ?_
      intro depth rest read hvalue before hname
      have hbefore : before = [.identifier identifier.eraseSpan.name] :=
        Expression.read_eq_of_name hname (Expr.eraseSpans_name identifier)
      rw [hbefore]
      simpa [ofLevel, Identifier.eraseSpan_eq] using
        Expression.assign identifier.name hvalue
    · exact .bind_of_false (.report _) fun _ ↦ .pure fun _ _ ↦ True.intro
  · intro depth rest _ before hvalue
    rw [ofLevel, List.append_nil]
    exact .value hvalue

/-- Whatever is read as an expression is one, with the tree that is yielded. -/
theorem expression (bound : Nat) : Sound (expression bound) (ofLevel .assignment) := by
  induction bound with
  | zero => exact .exhausted
  | succ bound ih => exact assignment ih (bound + 1)

end Parse.Sound

end Lox
