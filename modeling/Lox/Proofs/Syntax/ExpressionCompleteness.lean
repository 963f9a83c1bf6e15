import Lox.Proofs.Syntax.ExpressionSoundness
import Lox.Proofs.Syntax.Taking

/-!
# The expressions of the grammar are read

Every expression of the grammar is read where nothing comes next that would go on with it, by a
parser whose bound is at least the number of its tokens (`Parse.Takes.expression`).

What would go on with an expression depends on its level: `looseness` puts the tokens that may do so
in the order of the levels, so that an expression ends before a token that is looser than its level.
There is one lemma for each rule of the grammar.
-/

set_option autoImplicit false
set_option relaxedAutoImplicit false

namespace Lox

open Grammar

namespace Grammar

/-- The place of a level in the order from the tightest to the loosest. -/
def Level.looseness : Level → Nat
  | primary => 0
  | call => 1
  | unary => 1
  | operators .factor => 2
  | operators .term => 3
  | operators .comparison => 4
  | operators .equality => 5
  | operators .logicAnd => 6
  | operators .logicOr => 7
  | assignment => 8

/-- The tightest level at which an expression may go on with a token, or more than that of all
levels if there is none. -/
def looseness : TokenKind → Nat
  | .symbol .leftParenthesis | .symbol .dot => 1
  | .symbol .slash | .symbol .star => 2
  | .symbol .minus | .symbol .plus => 3
  | .symbol .greater | .symbol .greaterEqual | .symbol .less | .symbol .lessEqual => 4
  | .symbol .bangEqual | .symbol .equalEqual => 5
  | .keyword .and => 6
  | .keyword .or => 7
  | .symbol .equal => 8
  | _ => 9

/-- Nothing comes next that an expression of a level may go on with. -/
def Level.EndsBefore (level : Level) (rest : List TokenKind) : Prop :=
  ∀ kind ∈ rest.head?, level.looseness < Grammar.looseness kind

/-- What ends an expression of a level ends one of a tighter level. -/
theorem Level.EndsBefore.mono {level other : Level} {rest : List TokenKind}
    (hends : other.EndsBefore rest) (hle : level.looseness ≤ other.looseness) :
    level.EndsBefore rest :=
  fun kind hkind ↦ Nat.lt_of_le_of_lt hle (hends kind hkind)

/-- A token that is looser than the level ends an expression. -/
theorem Level.EndsBefore.cons {level : Level} {kind : TokenKind} (rest : List TokenKind)
    (hkind : level.looseness < Grammar.looseness kind) : level.EndsBefore (kind :: rest) := by
  rintro next hnext
  obtain rfl := Option.some.inj hnext
  exact hkind

/-- Behind an expression comes no token that would go on with it. -/
theorem Level.EndsBefore.head?_ne {level : Level} {rest : List TokenKind} {kind : TokenKind}
    (hends : level.EndsBefore rest) (hle : Grammar.looseness kind ≤ level.looseness) :
    rest.head? ≠ some kind :=
  fun hkind ↦ Nat.not_lt_of_le hle (hends kind hkind)

/-- A primary expression ends where it ends, whatever comes next. -/
theorem Level.EndsBefore.primary (rest : List TokenKind) : Level.primary.EndsBefore rest := by
  intro kind _
  unfold Grammar.looseness
  split <;> decide

namespace Precedence

/-- The operands of a level of operators are tighter than this level. -/
theorem looseness_operand_lt (precedence : Precedence) :
    precedence.operand.looseness < (Level.operators precedence).looseness := by
  cases precedence <;> decide

/-- The tokens of a level of operators are as loose as the level. -/
theorem looseness_of_mem {precedence : Precedence} {mark : TokenKind} {operator : Operator}
    (hmem : (mark, operator) ∈ precedence.operators) :
    looseness mark = (Level.operators precedence).looseness := by
  have hall : ∀ entry ∈ precedence.operators,
      looseness entry.1 = (Level.operators precedence).looseness := by
    cases precedence <;> decide
  exact hall _ hmem

/-- Before a token that is looser than a level, its parser finds no operator. -/
theorem bind_eq_none {ω : Type} {precedence : Precedence} {ofToken? : TokenKind → Option ω}
    {join : ω → Expr → Expr → Expr} {write : ω → Operator} {rest : List TokenKind}
    (hreadBy : precedence.ReadBy ofToken? join write)
    (hrest : (Level.operators precedence).EndsBefore rest) :
    rest.head?.bind ofToken? = none := by
  rw [Option.bind_eq_none_iff]
  intro kind hkind
  cases hfound : ofToken? kind with
  | none => rfl
  | some found =>
    have hmem : (kind, write found) ∈ precedence.operators := by
      rw [mem_operators_iff, ← hreadBy.map_ofToken?, hfound]
      rfl
    have hlt := hrest kind hkind
    rw [looseness_of_mem hmem] at hlt
    exact absurd hlt (Nat.lt_irrefl _)

/-- The operand before further operators of a level ends before them. -/
theorem endsBefore_operations {precedence : Precedence} {others : List Operation}
    {rest : List TokenKind}
    (hmarks : ∀ other ∈ others, (other.mark, other.operator) ∈ precedence.operators)
    (hrest : (Level.operators precedence).EndsBefore rest) :
    precedence.operand.EndsBefore (others.flatMap Operation.kinds ++ rest) := by
  cases others with
  | nil => exact hrest.mono (Nat.le_of_lt precedence.looseness_operand_lt)
  | cons other others =>
    refine .cons _ ?_
    rw [looseness_of_mem (hmarks other List.mem_cons_self)]
    exact precedence.looseness_operand_lt

end Precedence

end Grammar

namespace Parse.Takes

variable {depth : Nat} {rest : List TokenKind}

variable {ω : Type} {precedence : Precedence} {ofToken? : TokenKind → Option ω}
  {join : ω → Expr → Expr → Expr} {write : ω → Operator} {operand : Parse Expr}

/-- In a table that reads a level, a token of the level is found with its operator. -/
theorem operation (hreadBy : precedence.ReadBy ofToken? join write) {mark : TokenKind}
    {operator : Operator} (hmark : (mark, operator) ∈ precedence.operators)
    (more : List TokenKind) :
    Takes depth (Parse.operator? ofToken?) [] (mark :: more) fun found ↦
      ∃ present, found = some present ∧ write present = operator := by
  refine (operator? ofToken?).mono fun found hfound ↦ ?_
  rw [Precedence.mem_operators_iff, ← hreadBy.map_ofToken?, Option.map_eq_some_iff] at hmark
  obtain ⟨present, hpresent, hwrite⟩ := hmark
  exact ⟨present, hfound.trans hpresent, hwrite⟩

/-- A chain takes the operators that come one after the other, each with the operand behind it, and
stops before what is looser. The induction is on the operators that are left. -/
theorem chainFrom (hreadBy : precedence.ReadBy ofToken? join write) {others : List Operation}
    (hmarks : ∀ other ∈ others, (other.mark, other.operator) ∈ precedence.operators)
    (hoperands : ∀ other ∈ others, ∀ more, precedence.operand.EndsBefore more →
      Takes depth operand other.read more fun value ↦ value.eraseSpans = other.operand)
    (hrest : (Level.operators precedence).EndsBefore rest) {bound : Nat}
    (hbound : others.length < bound) (left : Expr) :
    Takes depth (chainFrom ofToken? join operand bound left) (others.flatMap Operation.kinds) rest
      fun value ↦ value.eraseSpans = others.foldl Operation.after left.eraseSpans := by
  induction others generalizing bound left with
  | nil =>
    obtain ⟨bound, rfl⟩ := Nat.exists_eq_succ_of_ne_zero (Nat.ne_of_gt hbound)
    refine .peek (operator? ofToken?) fun found hfound ↦ ?_
    obtain rfl : found = none := hfound.trans (Precedence.bind_eq_none hreadBy hrest)
    exact .pure rfl
  | cons other others ih =>
    obtain ⟨bound, rfl⟩ := Nat.exists_eq_succ_of_ne_zero (Nat.ne_of_gt (Nat.zero_lt_of_lt hbound))
    obtain ⟨hmark, hmarks⟩ := List.forall_mem_cons.mp hmarks
    obtain ⟨hoperand, hoperands⟩ := List.forall_mem_cons.mp hoperands
    refine .peek (operation hreadBy hmark _) fun found hfound ↦ ?_
    obtain ⟨present, rfl, hwrite⟩ := hfound
    refine .token (.advance _) fun _ _ ↦ .bind (hoperand _ ?_) fun right hright ↦ ?_
    · exact Precedence.endsBefore_operations hmarks hrest
    · have hothers := ih hmarks hoperands (Nat.lt_of_succ_lt_succ hbound)
        (join present left right)
      rwa [hreadBy.eraseSpans_join, hwrite, hright] at hothers

/-- A chain takes its first operand and all the operators that follow it. -/
theorem chain (hreadBy : precedence.ReadBy ofToken? join write) {read : List TokenKind}
    {first : Expr} {others : List Operation}
    (hfirst : ∀ more, precedence.operand.EndsBefore more →
      Takes depth operand read more fun value ↦ value.eraseSpans = first)
    (hmarks : ∀ other ∈ others, (other.mark, other.operator) ∈ precedence.operators)
    (hoperands : ∀ other ∈ others, ∀ more, precedence.operand.EndsBefore more →
      Takes depth operand other.read more fun value ↦ value.eraseSpans = other.operand)
    (hrest : (Level.operators precedence).EndsBefore rest) {bound : Nat}
    (hbound : others.length < bound) :
    Takes depth (chain ofToken? join bound operand) (read ++ others.flatMap Operation.kinds) rest
      fun value ↦ value.eraseSpans = others.foldl Operation.after first := by
  refine .bind (hfirst _ (Precedence.endsBefore_operations hmarks hrest)) fun left hleft ↦ ?_
  rw [← hleft]
  exact chainFrom hreadBy hmarks hoperands hrest hbound left

/-- At a level that is not chained there is one operator at most, and no second one comes behind it,
for this would be no looser than the level. -/
theorem single {ofToken? : TokenKind → Option BinaryOperator}
    (hreadBy : precedence.ReadBy ofToken? Expr.joinBinary .binary) {read : List TokenKind}
    {first : Expr} {others : List Operation}
    (hfirst : ∀ more, precedence.operand.EndsBefore more →
      Takes depth operand read more fun value ↦ value.eraseSpans = first)
    (hmarks : ∀ other ∈ others, (other.mark, other.operator) ∈ precedence.operators)
    (hoperands : ∀ other ∈ others, ∀ more, precedence.operand.EndsBefore more →
      Takes depth operand other.read more fun value ↦ value.eraseSpans = other.operand)
    (hrest : (Level.operators precedence).EndsBefore rest) (hlength : others.length ≤ 1) :
    Takes depth (single ofToken? operand) (read ++ others.flatMap Operation.kinds) rest
      fun value ↦ value.eraseSpans = others.foldl Operation.after first := by
  refine .bind (hfirst _ (Precedence.endsBefore_operations hmarks hrest)) fun left hleft ↦ ?_
  have hnone := Precedence.bind_eq_none hreadBy hrest
  cases others with
  | nil =>
    refine .peek (.operator? ofToken?) fun found hfound ↦ ?_
    obtain rfl : found = none := hfound.trans hnone
    exact .pure hleft
  | cons other others =>
    obtain rfl : others = [] := by simpa using hlength
    have hmark := hmarks other List.mem_cons_self
    have hoperand := hoperands other List.mem_cons_self rest
      (hrest.mono (Nat.le_of_lt precedence.looseness_operand_lt))
    rw [List.flatMap_cons, List.flatMap_nil, List.append_nil, Operation.kinds]
    refine .peek (operation hreadBy hmark _) fun found hfound ↦ ?_
    obtain ⟨present, rfl, hwrite⟩ := hfound
    refine .token (.advance _) fun _ _ ↦ .last hoperand fun right hright ↦ ?_
    refine .peek (.operator? ofToken?) fun second hsecond ↦ ?_
    obtain rfl : second = none := hsecond.trans hnone
    refine .pure ?_
    rw [hreadBy.eraseSpans_join, hwrite, hleft, hright]
    rfl

section Items

variable {α β : Type} {item : Parse α} {erase : α → β} {items : List (Piece β)}

/-- Items with commas between them are taken one by one, up to a closing parenthesis. Each item has
to end before a comma and before this parenthesis. -/
theorem separated
    (hitems : ∀ piece ∈ items, ∀ more,
      (more.head? = some (.symbol .comma) ∨ more.head? = some (.symbol .rightParenthesis)) →
        Takes depth item piece.read more fun value ↦ erase value = piece.tree)
    (hne : items ≠ []) (tooMany : SyntaxCause) {bound count : Nat} (hbound : items.length ≤ bound)
    (hcount : count + items.length ≤ maximumArguments)
    (hrest : rest.head? = some (.symbol .rightParenthesis)) :
    Takes depth (separated item tooMany bound count) (Grammar.separated (items.map Piece.read)) rest
      fun values ↦ values.map erase = items.map Piece.tree := by
  induction items generalizing bound count with
  | nil => exact absurd rfl hne
  | cons first items ih =>
    obtain ⟨bound, rfl⟩ := Nat.exists_eq_succ_of_ne_zero (n := bound)
      (by rw [List.length_cons] at hbound; omega)
    rw [List.length_cons] at hcount hbound
    obtain ⟨hfirst, hitems⟩ := List.forall_mem_cons.mp hitems
    rw [Parse.separated, if_neg (by omega)]
    cases items with
    | nil =>
      refine .last (hfirst rest (.inr hrest)) fun value hvalue ↦ ?_
      exact .ifRefused (by simp [hrest]) (.pure (by simpa using hvalue))
    | cons second items =>
      have hread : Grammar.separated ((first :: second :: items).map Piece.read) = first.read ++
          .symbol .comma :: Grammar.separated ((second :: items).map Piece.read) := rfl
      rw [hread]
      refine .bind (hfirst _ (.inl rfl)) fun value hvalue ↦ ?_
      refine .ifAccepted (.last (ih hitems (by simp) (by omega) (by omega)) ?_)
      refine fun values hvalues ↦ .pure ?_
      rw [List.map_cons, hvalue, hvalues]
      rfl

/-- A list in parentheses is taken as a whole, empty or not. An item must not begin with a closing
parenthesis, by which an empty list is known. -/
theorem parenthesized
    (hitems : ∀ piece ∈ items, ∀ more,
      (more.head? = some (.symbol .comma) ∨ more.head? = some (.symbol .rightParenthesis)) →
        Takes depth item piece.read more fun value ↦ erase value = piece.tree)
    {starts : TokenKind → Bool} (hbegins : ∀ piece ∈ items, Begins starts piece.read)
    (hstarts : starts (.symbol .rightParenthesis) = false) (tooMany : SyntaxCause) {bound : Nat}
    (hbound : items.length ≤ bound) (hlength : items.length ≤ maximumArguments) :
    Takes depth (parenthesized item tooMany bound)
      (Grammar.separated (items.map Piece.read) ++ [.symbol .rightParenthesis]) rest
      fun values ↦ values.1.map erase = items.map Piece.tree := by
  rw [Parse.parenthesized]
  cases items with
  | nil =>
    refine .peek (.isAt _) fun found hfound ↦ ?_
    rw [hfound, if_pos (by simp [Grammar.separated])]
    rw [pure_bind]
    exact .last (.expect _) fun _ _ ↦ .pure rfl
  | cons first items =>
    have hfirst := (hbegins first List.mem_cons_self).separated (items.map Piece.read)
    refine .peek (.isAt _) fun found hfound ↦ ?_
    rw [List.append_assoc] at hfound
    obtain rfl : found = false := hfound.trans (decide_eq_false (hfirst.head?_ne hstarts _))
    rw [if_neg Bool.false_ne_true]
    refine .bind (separated hitems (by simp) tooMany hbound (by omega) rfl) fun values hvalues ↦ ?_
    exact .last (.expect _) fun _ _ ↦ .pure hvalues

end Items

/-- Argument lists are taken one by one, up to what does not go on with a call. -/
theorem callFrom {nested : Parse Expr} {lists : List (List (Piece Expr))}
    (hnested : ∀ arguments ∈ lists, ∀ argument ∈ arguments, ∀ more,
      Level.assignment.EndsBefore more →
        Takes depth nested argument.read more fun value ↦ value.eraseSpans = argument.tree)
    (hbegins : ∀ arguments ∈ lists, ∀ argument ∈ arguments, Begins startsExpression argument.read)
    (hlengths : ∀ arguments ∈ lists, arguments.length ≤ maximumArguments)
    (hrest : Level.call.EndsBefore rest) {bound : Nat}
    (hbound : (lists.flatMap argumentKinds).length < bound) (callee : Expr) :
    Takes depth (callFrom nested bound callee) (lists.flatMap argumentKinds) rest
      fun value ↦ value.eraseSpans = lists.foldl callWith callee.eraseSpans := by
  induction lists generalizing bound callee with
  | nil =>
    obtain ⟨bound, rfl⟩ := Nat.exists_eq_succ_of_ne_zero (Nat.ne_of_gt hbound)
    have hopen : rest.head? ≠ some (.symbol .leftParenthesis) := hrest.head?_ne (by decide)
    have hdot : rest.head? ≠ some (.symbol .dot) := hrest.head?_ne (by decide)
    exact .ifRefused hopen (.ifNotAt hdot (.pure rfl))
  | cons arguments lists ih =>
    obtain ⟨bound, rfl⟩ := Nat.exists_eq_succ_of_ne_zero (Nat.ne_of_gt (Nat.zero_lt_of_lt hbound))
    obtain ⟨hfirst, hnested⟩ := List.forall_mem_cons.mp hnested
    obtain ⟨hfirstBegins, hbegins⟩ := List.forall_mem_cons.mp hbegins
    obtain ⟨hlength, hlengths⟩ := List.forall_mem_cons.mp hlengths
    have hitems : arguments.length ≤ (Grammar.separated (arguments.map Piece.read)).length := by
      rw [← List.length_map Piece.read]
      refine length_le_length_separated fun item hitem ↦ ?_
      obtain ⟨argument, hargument, rfl⟩ := List.mem_map.mp hitem
      exact (hfirstBegins argument hargument).ne_nil
    rw [List.flatMap_cons, argumentKinds, Grammar.parenthesized] at hbound ⊢
    simp only [List.length_append, List.length_cons, List.length_nil] at hbound
    have harguments (more : List TokenKind) :
        Takes depth (Parse.parenthesized nested .tooManyArguments (bound + 1))
          (Grammar.separated (arguments.map Piece.read) ++ [.symbol .rightParenthesis]) more
          fun values ↦ values.1.map Expr.eraseSpans = arguments.map Piece.tree := by
      refine parenthesized (fun argument hargument more hmore ↦ ?_) hfirstBegins rfl _ (by omega)
        hlength
      refine hfirst argument hargument more fun kind hkind ↦ ?_
      rcases hmore with hmore | hmore
      · obtain rfl := Option.some.inj (hmore.symm.trans hkind)
        decide
      · obtain rfl := Option.some.inj (hmore.symm.trans hkind)
        decide
    refine .ifAccepted (.bind (harguments _) fun values hvalues ↦ ?_)
    have hshorter : (lists.flatMap argumentKinds).length < bound := by omega
    have hothers := ih hnested hbegins hlengths hshorter
      (.call callee values.1 ⟨callee.span.start, values.2.stop⟩)
    rwa [Expr.eraseSpans_call, Expr.eraseSpansAll_eq_map, hvalues] at hothers

end Parse.Takes

/-! ### The rules of the grammar -/

/-- The parser of a level. -/
def Parse.atLevel (nested : Parse Expr) (bound : Nat) : Level → Parse Expr
  | .primary => primary nested
  | .call => call nested bound
  | .unary => unary nested bound
  | .operators .factor => chain BinaryOperator.ofFactorToken? Expr.joinBinary bound <|
    unary nested bound
  | .operators .term => chain BinaryOperator.ofTermToken? Expr.joinBinary bound <|
    chain BinaryOperator.ofFactorToken? Expr.joinBinary bound <| unary nested bound
  | .operators .comparison => single BinaryOperator.ofComparisonToken? <|
    chain BinaryOperator.ofTermToken? Expr.joinBinary bound <|
    chain BinaryOperator.ofFactorToken? Expr.joinBinary bound <| unary nested bound
  | .operators .equality => binary nested bound
  | .operators .logicAnd => chain LogicalOperator.ofAndToken? Expr.joinLogical bound <|
    binary nested bound
  | .operators .logicOr => logical nested bound
  | .assignment => assignment nested bound

/-- Tokens that are read as an expression of a level, if the bounds are as large as their number. -/
def Completes (level : Level) (read : List TokenKind) (tree : Expr) : Prop :=
  ∀ depth nestedBound bound rest, read.length ≤ nestedBound + 1 → read.length ≤ bound →
    level.EndsBefore rest →
      Parse.Takes depth (Parse.atLevel (Parse.expression nestedBound) bound level) read rest
        fun value ↦ value.eraseSpans = tree

namespace Completes

open Parse

variable {read : List TokenKind} {tree : Expr}

/-- A whole expression, as it is nested in others. -/
theorem nested (hcompletes : Completes .assignment read tree) (hne : read ≠ []) {bound : Nat}
    (hbound : read.length ≤ bound) (depth : Nat) {rest : List TokenKind}
    (hrest : Level.assignment.EndsBefore rest) :
    Takes depth (expression bound) read rest fun value ↦ value.eraseSpans = tree := by
  have hpos := List.length_pos_iff.mpr hne
  have hne := Nat.ne_of_gt (Nat.lt_of_lt_of_le hpos hbound)
  obtain ⟨bound, rfl⟩ := Nat.exists_eq_succ_of_ne_zero hne
  exact hcompletes depth bound (bound + 1) rest hbound hbound hrest

/-- A literal is a token of its own. -/
theorem literal {kind : TokenKind} {value : Literal}
    (hliteral : Literal.ofToken? kind = some value) :
    Completes .primary [kind] (.literal value .origin) := by
  intro depth nestedBound bound rest _ _ _
  refine .peek .next? fun found hfound ↦ ?_
  obtain rfl : found = some kind := hfound
  refine .peek (.view _) fun span _ ↦ ?_
  simp only [hliteral]
  exact .last (.advance _) fun _ _ ↦ .pure rfl

/-- A name is a token of its own. -/
theorem name (name : String) : Completes .primary [.identifier name] (.name ⟨name, .origin⟩) := by
  intro depth nestedBound bound rest _ _ _
  refine .peek .next? fun found hfound ↦ ?_
  obtain rfl : found = some (.identifier name) := hfound
  exact .peek (.view _) fun span _ ↦ .last (.advance _) fun _ _ ↦ .pure rfl

/-- An expression in parentheses ends before the closing one, whatever its level is outside. -/
theorem grouping (hinner : Completes .assignment read tree) (hne : read ≠ []) :
    Completes .primary (.symbol .leftParenthesis :: read ++ [.symbol .rightParenthesis])
      (.grouping tree .origin) := by
  intro depth nestedBound bound rest hnested _ _
  simp only [List.length_append, List.length_cons, List.length_nil] at hnested
  refine .peek .next? fun found hfound ↦ ?_
  obtain rfl : found = some (.symbol .leftParenthesis) := hfound
  refine .peek (.view _) fun span _ ↦ .token (.advance _) fun _ _ ↦ ?_
  refine .bind (hinner.nested hne (by omega) depth (.cons _ (by decide))) fun inner hinner ↦ ?_
  refine .last (.expect _) fun close _ ↦ .pure ?_
  rw [Expr.eraseSpans_grouping, hinner]

/-- An item of a list is no longer than the list. -/
theorem length_le_of_mem_separated {item : List TokenKind} {items : List (List TokenKind)}
    (hmem : item ∈ items) : item.length ≤ (Grammar.separated items).length := by
  fun_induction Grammar.separated items with
  | case1 => cases hmem
  | case2 other => exact Nat.le_of_eq (congrArg List.length (List.mem_singleton.mp hmem))
  | case3 first others _ ih =>
    rw [List.length_append, List.length_cons]
    rcases List.mem_cons.mp hmem with rfl | hmem
    · omega
    · have := ih hmem
      omega

/-- An argument has fewer tokens than all the lists together, for these have parentheses besides. -/
theorem length_argument_lt {lists : List (List (Piece Expr))} {arguments : List (Piece Expr)}
    {argument : Piece Expr} (hlist : arguments ∈ lists) (hargument : argument ∈ arguments) :
    argument.read.length < (lists.flatMap argumentKinds).length := by
  have hle := length_le_of_mem_separated (List.mem_map_of_mem (f := Piece.read) hargument)
  obtain ⟨before, after, rfl⟩ := List.append_of_mem hlist
  simp only [List.flatMap_append, List.flatMap_cons, List.length_append, argumentKinds,
    Grammar.parenthesized, List.length_cons, List.length_nil]
  omega

/-- A callee and its argument lists. The arguments are shorter than the whole, so that the bound is
enough for them. -/
theorem call {lists : List (List (Piece Expr))} (hcallee : Completes .primary read tree)
    (harguments : ∀ arguments ∈ lists, ∀ argument ∈ arguments,
      Completes .assignment argument.read argument.tree)
    (hbegins : ∀ arguments ∈ lists, ∀ argument ∈ arguments, Begins startsExpression argument.read)
    (hlengths : ∀ arguments ∈ lists, arguments.length ≤ maximumArguments) (hne : read ≠ []) :
    Completes .call (read ++ lists.flatMap argumentKinds) (lists.foldl callWith tree) := by
  intro depth nestedBound bound rest hnested hbound hrest
  have hpos := List.length_pos_iff.mpr hne
  rw [List.length_append] at hnested hbound
  refine .bind (hcallee depth nestedBound bound _ (by omega) (by omega) (.primary _))
    fun callee hcallee ↦ ?_
  rw [← hcallee]
  refine Takes.callFrom (fun arguments hlist argument hargument more hmore ↦ ?_) hbegins hlengths
    hrest (by omega) callee
  have hshorter := length_argument_lt hlist hargument
  exact (harguments arguments hlist argument hargument).nested
    (hbegins arguments hlist argument hargument).ne_nil (by omega) depth hmore

/-- What begins as a primary expression does begins with no unary operator. -/
theorem operand (hcall : Completes .call read tree) (hbegins : Begins startsPrimary read) :
    Completes .unary read tree := by
  intro depth nestedBound bound rest hnested hbound hrest
  obtain ⟨kind, others, rfl, hkind⟩ := hbegins
  obtain ⟨bound, rfl⟩ := Nat.exists_eq_succ_of_ne_zero (n := bound) (by
    rw [List.length_cons] at hbound
    omega)
  have hnone : UnaryOperator.ofToken? kind = none := by
    unfold UnaryOperator.ofToken?
    split
    · cases hkind
    · cases hkind
    · rfl
  refine .peek (.operator? _) fun found hfound ↦ ?_
  obtain rfl : found = none := hfound.trans hnone
  exact hcall depth nestedBound (bound + 1) rest hnested hbound hrest

/-- A unary operator before an operand of the same level. -/
theorem unary {kind : TokenKind} {operator : UnaryOperator} (hoperand : Completes .unary read tree)
    (hoperator : UnaryOperator.ofToken? kind = some operator) :
    Completes .unary (kind :: read) (.unary operator tree .origin) := by
  intro depth nestedBound bound rest hnested hbound hrest
  rw [List.length_cons] at hnested hbound
  obtain ⟨bound, rfl⟩ := Nat.exists_eq_succ_of_ne_zero (n := bound) (by omega)
  refine .peek (.operator? _) fun found hfound ↦ ?_
  obtain rfl : found = some operator := hfound.trans hoperator
  refine .peek (.view _) fun span _ ↦ .token (.advance _) fun _ _ ↦ ?_
  refine .last (hoperand depth nestedBound bound rest (by omega) (by omega) hrest)
    fun operand hoperand ↦ .pure ?_
  rw [Expr.eraseSpans_unary, hoperand]

/-- An operand of a chain has fewer tokens than the operators with their operands together. -/
theorem length_operand_lt {other : Operation} {others : List Operation} (hmem : other ∈ others) :
    other.read.length < (others.flatMap Operation.kinds).length := by
  obtain ⟨before, after, rfl⟩ := List.append_of_mem hmem
  simp only [List.flatMap_append, List.flatMap_cons, List.length_append, Operation.kinds,
    List.length_cons]
  omega

theorem length_le_length_kinds (others : List Operation) :
    others.length ≤ (others.flatMap Operation.kinds).length := by
  induction others with
  | nil => exact Nat.le_refl _
  | cons other others ih =>
    simp only [List.flatMap_cons, List.length_append, Operation.kinds, List.length_cons]
    omega

/-- A level of operators, which reads the operands by the level below it. Each of the six levels is
a chain or a single operator, and its table reads the level. -/
theorem operators {precedence : Precedence} {others : List Operation}
    (hfirst : Completes precedence.operand read tree)
    (hmarks : ∀ other ∈ others, (other.mark, other.operator) ∈ precedence.operators)
    (hothers : ∀ other ∈ others, Completes precedence.operand other.read other.operand)
    (hlength : precedence.associates = false → others.length ≤ 1) (hne : read ≠ []) :
    Completes (.operators precedence) (read ++ others.flatMap Operation.kinds)
      (others.foldl Operation.after tree) := by
  intro depth nestedBound bound rest hnested hbound hrest
  have hpos := List.length_pos_iff.mpr hne
  rw [List.length_append] at hnested hbound
  have htakes (more : List TokenKind) (hmore : precedence.operand.EndsBefore more) :=
    hfirst depth nestedBound bound more (by omega) (by omega) hmore
  have hoperands (other : Operation) (hother : other ∈ others) (more : List TokenKind)
      (hmore : precedence.operand.EndsBefore more) :=
    have hle := length_operand_lt hother
    hothers other hother depth nestedBound bound more (by omega) (by omega) hmore
  have hbound' : others.length < bound := by
    have hle := length_le_length_kinds others
    omega
  cases precedence with
  | factor => exact .chain Precedence.factor_readBy htakes hmarks hoperands hrest hbound'
  | term => exact .chain Precedence.term_readBy htakes hmarks hoperands hrest hbound'
  | comparison =>
    exact .single Precedence.comparison_readBy htakes hmarks hoperands hrest (hlength rfl)
  | equality =>
    exact .single Precedence.equality_readBy htakes hmarks hoperands hrest (hlength rfl)
  | logicAnd => exact .chain Precedence.logicAnd_readBy htakes hmarks hoperands hrest hbound'
  | logicOr => exact .chain Precedence.logicOr_readBy htakes hmarks hoperands hrest hbound'

/-- What stands alone at the level of assignments has no token of an assignment behind it. -/
theorem value (hvalue : Completes (.operators .logicOr) read tree) :
    Completes .assignment read tree := by
  intro depth nestedBound bound rest hnested hbound hrest
  have hor : (Level.operators .logicOr).EndsBefore rest := hrest.mono (by decide)
  have hequal : rest.head? ≠ some (.symbol .equal) := hrest.head?_ne (by decide)
  refine .last (hvalue depth nestedBound bound rest hnested hbound hor) fun target htarget ↦ ?_
  exact .ifRefused hequal (.pure htarget)

/-- A name alone is an expression of every level without assignments. -/
theorem nameAlone (name : String) :
    Completes (.operators .logicOr) [.identifier name] (.name ⟨name, .origin⟩) := by
  have hcall : Completes .call [.identifier name] (.name ⟨name, .origin⟩) :=
    @call _ _ [] (Completes.name name) (by simp) (by simp) (by simp) (by simp)
  have hunary := hcall.operand ⟨_, _, rfl, rfl⟩
  have hstep (precedence : Precedence)
      (hoperand : Completes precedence.operand [.identifier name] (.name ⟨name, .origin⟩)) :
      Completes (.operators precedence) [.identifier name] (.name ⟨name, .origin⟩) :=
    @operators _ _ precedence [] hoperand (by simp) (by simp) (by simp) (by simp)
  have hcomparison := hstep .comparison (hstep .term (hstep .factor hunary))
  exact hstep .logicOr (hstep .logicAnd (hstep .equality hcomparison))

/-- A name, the token of an assignment and a value. -/
theorem assign (name : String) (hvalue : Completes .assignment read tree) (hne : read ≠ []) :
    Completes .assignment (.identifier name :: .symbol .equal :: read)
      (.assign ⟨name, .origin⟩ tree .origin) := by
  intro depth nestedBound bound rest hnested hbound hrest
  simp only [List.length_cons] at hnested hbound
  refine .token (nameAlone name depth nestedBound bound _ (by simp) (by simp; omega)
    (.cons _ (by decide))) fun target htarget ↦ ?_
  refine .ifAccepted (.last (hvalue.nested hne (by omega) depth hrest) fun value hvalue ↦ ?_)
  cases target <;> cases htarget
  refine .pure ?_
  rw [Expr.eraseSpans_assign, hvalue]
  rfl

end Completes

/-- Every expression of the grammar is read, by induction on the rules. The empty sequence of
operators is the case in which one level goes over into the next. -/
theorem Grammar.Expression.completes {level : Level} {read : List TokenKind} {tree : Expr}
    (hexpression : Expression level read tree) : Completes level read tree := by
  induction hexpression with
  | assign name hvalue ih => exact ih.assign name hvalue.begins.ne_nil
  | value hvalue ih => exact ih.value
  | operators hfirst hmarks _ hlength ih ihothers =>
    exact ih.operators hmarks ihothers hlength hfirst.begins.ne_nil
  | negate _ ih => exact ih.unary rfl
  | complement _ ih => exact ih.unary rfl
  | operand hcall ih => exact ih.operand hcall.begins
  | call hcallee harguments hlengths ih iharguments =>
    exact ih.call iharguments
      (fun arguments hlist argument hargument ↦
        (harguments arguments hlist argument hargument).begins)
      hlengths hcallee.begins.ne_nil
  | number | string | trueWord | falseWord | nilWord => exact .literal rfl
  | name name => exact .name name
  | grouping hinner ih => exact ih.grouping hinner.begins.ne_nil

/-- Every expression of the grammar is read where nothing comes next that would go on with it. -/
theorem Parse.Takes.expression {read rest : List TokenKind} {tree : Expr}
    (hexpression : Expression .assignment read tree) {bound : Nat} (hbound : read.length ≤ bound)
    (depth : Nat) (hrest : Level.assignment.EndsBefore rest) :
    Takes depth (expression bound) read rest fun value ↦ value.eraseSpans = tree :=
  hexpression.completes.nested hexpression.begins.ne_nil hbound depth hrest

end Lox
