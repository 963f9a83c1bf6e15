import Lox.Proofs.Syntax.ExpressionSoundness

/-!
# How an expression is written

The tree of an expression determines the tokens that write it: `Expr.kinds` lists their kinds, and
`Expr.Fits` says at which levels a tree may stand without parentheses. So the grammar of expressions
is a matter of the tree alone: the tokens that write a tree at a level are those that it lists,
and they write it where it fits (`Grammar.expression_eraseSpans_iff`).

A tree that fits somewhere may also stand alone (`Expr.Fits.alone`).
-/

set_option autoImplicit false
set_option relaxedAutoImplicit false

namespace Lox

open Grammar

/-- The token that writes a literal. -/
def Literal.kind : Literal → TokenKind
  | number value => .number value
  | string text => .string text
  | boolean true => .keyword .true
  | boolean false => .keyword .false
  | nil => .keyword .nil

/-- A token is read as a literal exactly if it is the one that writes it. -/
theorem Literal.ofToken?_eq_some_iff {kind : TokenKind} {value : Literal} :
    ofToken? kind = some value ↔ kind = value.kind := by
  constructor
  · intro hvalue
    unfold ofToken? at hvalue
    split at hvalue <;> cases hvalue <;> rfl
  · rintro rfl
    unfold Literal.kind
    split <;> rfl

/-- The token that writes a unary operator. -/
def UnaryOperator.kind : UnaryOperator → TokenKind
  | negate => .symbol .minus
  | not => .symbol .bang

/-- A token that is read as a unary operator is the one that writes it. -/
theorem UnaryOperator.kind_eq_of_ofToken? {kind : TokenKind} {operator : UnaryOperator}
    (hoperator : ofToken? kind = some operator) : kind = operator.kind := by
  unfold ofToken? at hoperator
  split at hoperator <;> cases hoperator <;> rfl

/-- The token that writes a binary operator. -/
def BinaryOperator.kind : BinaryOperator → TokenKind
  | add => .symbol .plus
  | subtract => .symbol .minus
  | multiply => .symbol .star
  | divide => .symbol .slash
  | greater => .symbol .greater
  | greaterEqual => .symbol .greaterEqual
  | less => .symbol .less
  | lessEqual => .symbol .lessEqual
  | equal => .symbol .equalEqual
  | notEqual => .symbol .bangEqual

/-- The token that writes a logical operator. -/
def LogicalOperator.kind : LogicalOperator → TokenKind
  | and => .keyword .and
  | or => .keyword .or

namespace Grammar

/-- The token that writes an operator. -/
def Operator.kind : Operator → TokenKind
  | binary operator => operator.kind
  | logical operator => operator.kind

/-- The level of an operator. -/
def Operator.precedence : Operator → Precedence
  | binary .add | binary .subtract => .term
  | binary .multiply | binary .divide => .factor
  | binary .greater | binary .greaterEqual | binary .less | binary .lessEqual => .comparison
  | binary .equal | binary .notEqual => .equality
  | logical .and => .logicAnd
  | logical .or => .logicOr

/-- The operators of a level are those that belong to it, with the tokens that write them. -/
theorem Precedence.mem_operators_iff_kind {precedence : Precedence} {mark : TokenKind}
    {operator : Operator} :
    (mark, operator) ∈ precedence.operators
      ↔ mark = operator.kind ∧ precedence = operator.precedence := by
  rcases operator with (_ | _ | _ | _ | _ | _ | _ | _ | _ | _) | (_ | _) <;> cases precedence <;>
    simp [operators, Operator.kind, Operator.precedence, BinaryOperator.kind, LogicalOperator.kind]

/-- The place of a level in the order from the tightest to the loosest, all of them told apart. -/
def Level.rank : Level → Nat
  | primary => 0
  | call => 1
  | unary => 2
  | operators .factor => 3
  | operators .term => 4
  | operators .comparison => 5
  | operators .equality => 6
  | operators .logicAnd => 7
  | operators .logicOr => 8
  | assignment => 9

/-- There is no looser level than the one of assignments. -/
theorem Level.rank_le_assignment (level : Level) : level.rank ≤ Level.assignment.rank := by
  rcases level with _ | ⟨_ | _⟩ | _ <;> decide

theorem Level.eq_of_rank_eq {first second : Level} (hrank : first.rank = second.rank) :
    first = second := by
  rcases first with _ | ⟨_ | _⟩ | _ <;> rcases second with _ | ⟨_ | _⟩ | _ <;>
    first | rfl | cases hrank

/-- The next looser level. -/
def Level.looser : Level → Level
  | primary => call
  | call => unary
  | unary => operators .factor
  | operators .factor => operators .term
  | operators .term => operators .comparison
  | operators .comparison => operators .equality
  | operators .equality => operators .logicAnd
  | operators .logicAnd => operators .logicOr
  | operators .logicOr | assignment => assignment

/-- The level at which the left operand of an operator stands. -/
def Precedence.leftOperand (precedence : Precedence) : Level :=
  if precedence.associates then .operators precedence else precedence.operand

/-- The operands of a level are of a tighter one. -/
theorem Precedence.rank_operand_lt (precedence : Precedence) :
    precedence.operand.rank < (Level.operators precedence).rank := by
  cases precedence <;> decide

/-- On its left an operator may have what it may have on its right. -/
theorem Precedence.rank_operand_le_leftOperand (precedence : Precedence) :
    precedence.operand.rank ≤ precedence.leftOperand.rank := by
  cases precedence <;> decide

end Grammar

/-! ### The tokens and the level of a tree -/

mutual

/-- The kinds of the tokens that write an expression. -/
def Expr.kinds : Expr → List TokenKind
  | .literal value _ => [value.kind]
  | .grouping inner _ =>
    .symbol .leftParenthesis :: inner.kinds ++ [.symbol .rightParenthesis]
  | .unary operator operand _ => operator.kind :: operand.kinds
  | .binary operator left right _ => left.kinds ++ operator.kind :: right.kinds
  | .logical operator left right _ => left.kinds ++ operator.kind :: right.kinds
  | .name identifier => [.identifier identifier.name]
  | .assign target value _ => .identifier target.name :: .symbol .equal :: value.kinds
  | .call callee arguments _ => callee.kinds ++ parenthesized (Expr.kindsAll arguments)

/-- The kinds of the tokens of several expressions. -/
def Expr.kindsAll : List Expr → List (List TokenKind)
  | [] => []
  | first :: others => first.kinds :: Expr.kindsAll others

end

theorem Expr.kindsAll_eq_map (expressions : List Expr) :
    kindsAll expressions = expressions.map kinds := by
  induction expressions with
  | nil => rfl
  | cons first others ih => rw [kindsAll, ih, List.map_cons]

/-- A tree that may stand at a level without parentheses around it. -/
inductive Expr.Fits : Level → Expr → Prop
  | literal {level : Level} (value : Literal) (span : Span) : Fits level (.literal value span)
  | name {level : Level} (identifier : Identifier) : Fits level (.name identifier)
  | grouping {level : Level} {inner : Expr} {span : Span} : Fits .assignment inner →
    Fits level (.grouping inner span)
  | unary {level : Level} {operator : UnaryOperator} {operand : Expr} {span : Span} :
    Level.unary.rank ≤ level.rank → Fits .unary operand →
    Fits level (.unary operator operand span)
  | binary {level : Level} {operator : BinaryOperator} {left right : Expr} {span : Span} :
    (Level.operators (Operator.binary operator).precedence).rank ≤ level.rank →
    Fits (Operator.binary operator).precedence.leftOperand left →
    Fits (Operator.binary operator).precedence.operand right →
    Fits level (.binary operator left right span)
  | logical {level : Level} {operator : LogicalOperator} {left right : Expr} {span : Span} :
    (Level.operators (Operator.logical operator).precedence).rank ≤ level.rank →
    Fits (Operator.logical operator).precedence.leftOperand left →
    Fits (Operator.logical operator).precedence.operand right →
    Fits level (.logical operator left right span)
  | assign {target : Identifier} {value : Expr} {span : Span} : Fits .assignment value →
    Fits .assignment (.assign target value span)
  | call {level : Level} {callee : Expr} {arguments : List Expr} {span : Span} :
    Level.call.rank ≤ level.rank → Fits .call callee →
    arguments.length ≤ maximumArguments → (∀ argument ∈ arguments, Fits .assignment argument) →
    Fits level (.call callee arguments span)

namespace Expr

/-- What fits at a level fits at every looser one. -/
theorem Fits.mono {level other : Level} {tree : Expr} (hfits : Fits level tree)
    (hle : level.rank ≤ other.rank) : Fits other tree := by
  cases hfits with
  | literal value span => exact .literal value span
  | name identifier => exact .name identifier
  | grouping hinner => exact .grouping hinner
  | unary hrank hoperand => exact .unary (Nat.le_trans hrank hle) hoperand
  | binary hrank hleft hright => exact .binary (Nat.le_trans hrank hle) hleft hright
  | logical hrank hleft hright => exact .logical (Nat.le_trans hrank hle) hleft hright
  | assign hvalue =>
    obtain rfl : other = .assignment :=
      Level.eq_of_rank_eq (Nat.le_antisymm other.rank_le_assignment hle)
    exact .assign hvalue
  | call hrank hcallee hlength harguments =>
    exact .call (Nat.le_trans hrank hle) hcallee hlength harguments

/-- In particular it may stand alone. -/
theorem Fits.alone {level : Level} {tree : Expr} (hfits : Fits level tree) :
    Fits .assignment tree :=
  hfits.mono level.rank_le_assignment

/-- Trees by induction, with the arguments of a call as members of a list. -/
@[elab_as_elim]
theorem inductionOn {motive : Expr → Prop} (tree : Expr)
    (literal : ∀ value span, motive (.literal value span))
    (grouping : ∀ inner span, motive inner → motive (.grouping inner span))
    (unary : ∀ operator operand span, motive operand → motive (.unary operator operand span))
    (binary : ∀ operator left right span, motive left → motive right →
      motive (.binary operator left right span))
    (logical : ∀ operator left right span, motive left → motive right →
      motive (.logical operator left right span))
    (name : ∀ identifier, motive (.name identifier))
    (assign : ∀ target value span, motive value → motive (.assign target value span))
    (call : ∀ callee arguments span, motive callee → (∀ argument ∈ arguments, motive argument) →
      motive (.call callee arguments span)) : motive tree :=
  @Expr.rec motive (fun arguments ↦ ∀ argument ∈ arguments, motive argument)
    literal grouping unary binary logical name assign call (fun _ hmem ↦ by cases hmem)
    (fun _ _ hfirst hothers argument hmem ↦ by
      rcases List.mem_cons.mp hmem with rfl | hmem
      · exact hfirst
      · exact hothers argument hmem) tree

/-- Places have nothing to do with the tokens that write a tree. -/
theorem kinds_eraseSpans (tree : Expr) : tree.eraseSpans.kinds = tree.kinds := by
  induction tree using Expr.inductionOn with
  | literal => rfl
  | grouping inner _ ih => simp only [eraseSpans_grouping, kinds, ih]
  | unary operator operand _ ih => simp only [eraseSpans_unary, kinds, ih]
  | binary operator left right _ ihleft ihright =>
    simp only [eraseSpans_binary, kinds, ihleft, ihright]
  | logical operator left right _ ihleft ihright =>
    simp only [eraseSpans_logical, kinds, ihleft, ihright]
  | name => rfl
  | assign target value _ ih => simp only [eraseSpans_assign, kinds, Identifier.eraseSpan_eq, ih]
  | call callee arguments _ ihcallee iharguments =>
    simp only [eraseSpans_call, kinds, ihcallee, kindsAll_eq_map, eraseSpansAll_eq_map,
      List.map_map]
    have harguments : arguments.map (kinds ∘ eraseSpans) = arguments.map kinds :=
      List.map_congr_left iharguments
    rw [harguments]

/-- Nor with the levels at which it fits. -/
theorem Fits.of_eraseSpans {level : Level} {tree : Expr} (hfits : Fits level tree.eraseSpans) :
    Fits level tree := by
  induction tree using Expr.inductionOn generalizing level with
  | literal value span => exact .literal value span
  | name identifier => exact .name identifier
  | grouping inner _ ih =>
    rw [eraseSpans_grouping] at hfits
    cases hfits with
    | grouping hinner => exact .grouping (ih hinner)
  | unary operator operand _ ih =>
    rw [eraseSpans_unary] at hfits
    cases hfits with
    | unary hrank hoperand => exact .unary hrank (ih hoperand)
  | binary operator left right _ ihleft ihright =>
    rw [eraseSpans_binary] at hfits
    cases hfits with
    | binary hrank hleft hright => exact .binary hrank (ihleft hleft) (ihright hright)
  | logical operator left right _ ihleft ihright =>
    rw [eraseSpans_logical] at hfits
    cases hfits with
    | logical hrank hleft hright => exact .logical hrank (ihleft hleft) (ihright hright)
  | assign target value _ ih =>
    rw [eraseSpans_assign] at hfits
    cases hfits with
    | assign hvalue => exact .assign (ih hvalue)
  | call callee arguments _ ihcallee iharguments =>
    rw [eraseSpans_call, eraseSpansAll_eq_map] at hfits
    cases hfits with
    | call hrank hcallee hlength harguments =>
      rw [List.length_map] at hlength
      refine .call hrank (ihcallee hcallee) hlength fun argument hmem ↦ ?_
      exact iharguments argument hmem (harguments _ (List.mem_map_of_mem hmem))

end Expr

/-! ### The grammar reads a tree off its tokens -/

namespace Grammar

/-- An operator is written between its operands. -/
theorem Operator.kinds_between (operator : Operator) (left right : Expr) :
    (operator.between left right).kinds = left.kinds ++ operator.kind :: right.kinds := by
  cases operator <;> rfl

/-- Between operands that fit on its two sides, an operator makes a tree of its own level. -/
theorem Operator.fits_between {operator : Operator} {left right : Expr}
    (hleft : left.Fits operator.precedence.leftOperand)
    (hright : right.Fits operator.precedence.operand) :
    (operator.between left right).Fits (.operators operator.precedence) := by
  cases operator with
  | binary => exact .binary (Nat.le_refl _) hleft hright
  | logical => exact .logical (Nat.le_refl _) hleft hright

/-- Operators of a level that may follow one another, behind a left operand. -/
theorem fits_foldl_after {precedence : Precedence} (hassociates : precedence.associates = true)
    {others : List Operation} {left : Expr} (hleft : left.Fits (.operators precedence))
    (hmarks : ∀ other ∈ others, (other.mark, other.operator) ∈ precedence.operators)
    (hothers : ∀ other ∈ others, other.operand.Fits precedence.operand) :
    (others.foldl Operation.after left).Fits (.operators precedence) := by
  induction others generalizing left with
  | nil => exact hleft
  | cons other others ih =>
    obtain ⟨-, rfl⟩ := Precedence.mem_operators_iff_kind.mp (hmarks other List.mem_cons_self)
    refine ih (Operator.fits_between ?_ (hothers other List.mem_cons_self))
      (fun _ hmem ↦ hmarks _ (List.mem_cons_of_mem _ hmem))
      fun _ hmem ↦ hothers _ (List.mem_cons_of_mem _ hmem)
    rwa [Precedence.leftOperand, if_pos hassociates]

/-- Operations that nest to the left are written one after the other. -/
theorem kinds_foldl_after {precedence : Precedence} {others : List Operation} {left : Expr}
    (hmarks : ∀ other ∈ others, (other.mark, other.operator) ∈ precedence.operators)
    (hothers : ∀ other ∈ others, other.read = other.operand.kinds) :
    (others.foldl Operation.after left).kinds = left.kinds ++ others.flatMap Operation.kinds := by
  induction others generalizing left with
  | nil => simp
  | cons other others ih =>
    obtain ⟨hmark, -⟩ := Precedence.mem_operators_iff_kind.mp (hmarks other List.mem_cons_self)
    rw [List.foldl_cons, ih (fun _ hmem ↦ hmarks _ (List.mem_cons_of_mem _ hmem))
      (fun _ hmem ↦ hothers _ (List.mem_cons_of_mem _ hmem)), Operation.after,
      Operator.kinds_between, List.flatMap_cons, Operation.kinds, hmark,
      hothers other List.mem_cons_self]
    simp

/-- Calls that follow one another make a tree of the level of calls. -/
theorem fits_foldl_callWith {lists : List (List (Piece Expr))} {callee : Expr}
    (hcallee : callee.Fits .call)
    (harguments : ∀ arguments ∈ lists, ∀ argument ∈ arguments, argument.tree.Fits .assignment)
    (hlengths : ∀ arguments ∈ lists, arguments.length ≤ maximumArguments) :
    (lists.foldl callWith callee).Fits .call := by
  induction lists generalizing callee with
  | nil => exact hcallee
  | cons arguments lists ih =>
    refine ih (.call (Nat.le_refl _) hcallee ?_ ?_)
      (fun _ hmem ↦ harguments _ (List.mem_cons_of_mem _ hmem))
      fun _ hmem ↦ hlengths _ (List.mem_cons_of_mem _ hmem)
    · rw [List.length_map]
      exact hlengths arguments List.mem_cons_self
    · intro tree htree
      obtain ⟨argument, hargument, rfl⟩ := List.mem_map.mp htree
      exact harguments arguments List.mem_cons_self argument hargument

/-- They are written as their argument lists, one after the other. -/
theorem kinds_foldl_callWith {lists : List (List (Piece Expr))} {callee : Expr}
    (harguments : ∀ arguments ∈ lists, ∀ argument ∈ arguments,
      argument.read = argument.tree.kinds) :
    (lists.foldl callWith callee).kinds = callee.kinds ++ lists.flatMap argumentKinds := by
  induction lists generalizing callee with
  | nil => simp
  | cons arguments lists ih =>
    have hreads : arguments.map Piece.read = (arguments.map Piece.tree).map Expr.kinds := by
      rw [List.map_map]
      exact List.map_congr_left (harguments arguments List.mem_cons_self)
    rw [List.foldl_cons, ih fun _ hmem ↦ harguments _ (List.mem_cons_of_mem _ hmem), callWith,
      Expr.kinds, Expr.kindsAll_eq_map, List.flatMap_cons, argumentKinds, hreads,
      List.append_assoc]

/-- What the grammar has as an expression is a tree that fits, behind the tokens that it lists. At a
level that cannot be chained there is one operator at most. -/
theorem Expression.kinds_and_fits {level : Level} {read : List TokenKind} {tree : Expr}
    (hexpression : Expression level read tree) : read = tree.kinds ∧ tree.Fits level := by
  induction hexpression with
  | assign name _ ih => exact ⟨by rw [Expr.kinds, ← ih.1], .assign ih.2⟩
  | value _ ih => exact ⟨ih.1, ih.2.mono (by decide)⟩
  | @operators precedence read first others _ hmarks _ hlength ih ihothers =>
    constructor
    · rw [kinds_foldl_after hmarks fun other hmem ↦ (ihothers other hmem).1, ih.1]
    · have hothers (other : Operation) (hmem : other ∈ others) := (ihothers other hmem).2
      have hfirst := ih.2.mono (Nat.le_of_lt precedence.rank_operand_lt)
      cases hassociates : precedence.associates with
      | true => exact fits_foldl_after hassociates hfirst hmarks hothers
      | false =>
        have hone := hlength hassociates
        cases others with
        | nil => exact hfirst
        | cons other others =>
          obtain rfl := List.eq_nil_of_length_eq_zero (Nat.le_zero.mp (Nat.le_of_succ_le_succ hone))
          obtain ⟨-, rfl⟩ := Precedence.mem_operators_iff_kind.mp (hmarks other List.mem_cons_self)
          refine Operator.fits_between ?_ (hothers other List.mem_cons_self)
          exact ih.2.mono (Precedence.rank_operand_le_leftOperand _)
  | negate _ ih => exact ⟨by rw [ih.1]; rfl, .unary (Nat.le_refl _) ih.2⟩
  | complement _ ih => exact ⟨by rw [ih.1]; rfl, .unary (Nat.le_refl _) ih.2⟩
  | operand _ ih => exact ⟨ih.1, ih.2.mono (by decide)⟩
  | call _ _ hlengths ih iharguments =>
    constructor
    · rw [kinds_foldl_callWith fun list hlist argument hmem ↦
        (iharguments list hlist argument hmem).1, ih.1]
    · exact fits_foldl_callWith (ih.2.mono (by decide))
        (fun list hlist argument hmem ↦ (iharguments list hlist argument hmem).2) hlengths
  | grouping _ ih => exact ⟨by rw [Expr.kinds, ← ih.1], .grouping ih.2⟩
  | name name => exact ⟨rfl, .name _⟩
  | _ => exact ⟨rfl, .literal _ _⟩

/-- Every level but the first one is read as the next looser one if nothing is added to it. -/
theorem Expression.looser {level : Level} {read : List TokenKind} {tree : Expr}
    (hexpression : Expression level read tree) : Expression level.looser read tree := by
  have hoperators (precedence : Precedence) (hoperand : Expression precedence.operand read tree) :
      Expression (.operators precedence) read tree := by
    simpa using @Expression.operators precedence read tree [] hoperand (by simp) (by simp) (by simp)
  match level with
  | .primary =>
    have hcall := @Expression.call read tree [] hexpression (by simp) (by simp)
    rwa [List.flatMap_nil, List.append_nil] at hcall
  | .call => exact .operand hexpression
  | .unary => exact hoperators .factor hexpression
  | .operators .factor => exact hoperators .term hexpression
  | .operators .term => exact hoperators .comparison hexpression
  | .operators .comparison => exact hoperators .equality hexpression
  | .operators .equality => exact hoperators .logicAnd hexpression
  | .operators .logicAnd => exact hoperators .logicOr hexpression
  | .operators .logicOr => exact .value hexpression
  | .assignment => exact hexpression

/-- So an expression of one level is an expression of every looser one. The induction is on how many
levels there are between them. -/
theorem Expression.mono {level other : Level} {read : List TokenKind} {tree : Expr}
    (hexpression : Expression level read tree) (hle : level.rank ≤ other.rank) :
    Expression other read tree := by
  generalize hdistance : other.rank - level.rank = distance
  induction distance generalizing level with
  | zero =>
    have hrank : level.rank = other.rank := by omega
    obtain rfl := Level.eq_of_rank_eq hrank
    exact hexpression
  | succ distance ih =>
    have hrank : level.looser.rank = level.rank + 1 := by
      have hother := other.rank_le_assignment
      rcases level with _ | ⟨_ | _⟩ | _ <;> first | rfl | omega
    exact ih hexpression.looser (by omega) (by omega)

/-- One more operator with its operand. -/
theorem Expression.between {operator : Operator} {first second : List TokenKind}
    {left right : Expr} (hleft : Expression operator.precedence.leftOperand first left)
    (hright : Expression operator.precedence.operand second right) :
    Expression (.operators operator.precedence) (first ++ operator.kind :: second)
      (operator.between left right) := by
  have hmark : (operator.kind, operator) ∈ operator.precedence.operators :=
    Precedence.mem_operators_iff_kind.mpr ⟨rfl, rfl⟩
  rw [Precedence.leftOperand] at hleft
  split at hleft
  · rename_i hassociates
    cases hleft with
    | @operators _ read first others hfirst hmarks hothers _ =>
      have hall := @Expression.operators operator.precedence read first
        (others ++ [⟨operator.kind, operator, second, right⟩]) hfirst
        (fun other hmem ↦ by
          rcases List.mem_append.mp hmem with hmem | hmem
          · exact hmarks other hmem
          · obtain rfl := List.mem_singleton.mp hmem
            exact hmark)
        (fun other hmem ↦ by
          rcases List.mem_append.mp hmem with hmem | hmem
          · exact hothers other hmem
          · obtain rfl := List.mem_singleton.mp hmem
            exact hright)
        (by simp [hassociates])
      simpa [Operation.kinds, Operation.after] using hall
  · have hone := @Expression.operators operator.precedence first left
      [⟨operator.kind, operator, second, right⟩] hleft (by simpa using hmark)
      (by simpa using hright) (by simp)
    simpa [Operation.kinds, Operation.after] using hone

/-- One more argument list. -/
theorem Expression.callWith {read : List TokenKind} {callee : Expr}
    {arguments : List (Piece Expr)} (hcallee : Expression .call read callee)
    (harguments : ∀ argument ∈ arguments, Expression .assignment argument.read argument.tree)
    (hlength : arguments.length ≤ maximumArguments) :
    Expression .call (read ++ argumentKinds arguments) (callWith callee arguments) := by
  cases hcallee with
  | @call read callee lists hprimary hlists hlengths =>
    have hall := @Expression.call read callee (lists ++ [arguments]) hprimary
      (fun list hlist ↦ by
        rcases List.mem_append.mp hlist with hlist | hlist
        · exact hlists list hlist
        · obtain rfl := List.mem_singleton.mp hlist
          exact harguments)
      (fun list hlist ↦ by
        rcases List.mem_append.mp hlist with hlist | hlist
        · exact hlengths list hlist
        · obtain rfl := List.mem_singleton.mp hlist
          exact hlength)
    simpa using hall

/-- A tree that fits is an expression, behind the tokens that it lists. -/
theorem expression_of_fits {level : Level} {tree : Expr} (hfits : tree.Fits level) :
    Expression level tree.kinds tree.eraseSpans := by
  induction hfits with
  | literal value span =>
    exact Expression.mono (.literal (Literal.ofToken?_eq_some_iff.mpr rfl)) (Nat.zero_le _)
  | name identifier => exact Expression.mono (.name identifier.name) (Nat.zero_le _)
  | grouping _ ih => exact Expression.mono (.grouping ih) (Nat.zero_le _)
  | @unary _ operator _ _ hrank _ ih =>
    cases operator with
    | negate => exact Expression.mono (.negate ih) hrank
    | not => exact Expression.mono (.complement ih) hrank
  | @binary _ operator _ _ _ hrank _ _ ihleft ihright =>
    exact Expression.mono (Expression.between ihleft ihright) hrank
  | @logical _ operator _ _ _ hrank _ _ ihleft ihright =>
    exact Expression.mono (Expression.between ihleft ihright) hrank
  | assign _ ih => exact .assign _ ih
  | @call _ callee arguments _ hrank _ hlength _ ih iharguments =>
    have hcall := @Expression.callWith _ _
      (arguments.map fun argument ↦ ⟨argument.kinds, argument.eraseSpans⟩) ih
      (by simpa using iharguments) (by rwa [List.length_map])
    refine Expression.mono ?_ hrank
    rw [Expr.kinds, Expr.kindsAll_eq_map, Expr.eraseSpans_call,
      Expr.eraseSpansAll_eq_map]
    simpa [argumentKinds, Grammar.callWith, Function.comp_def] using hcall

/-- The tokens that write a tree at a level are those that it lists, and they do where it fits. -/
theorem expression_eraseSpans_iff {level : Level} {read : List TokenKind} {tree : Expr} :
    Expression level read tree.eraseSpans ↔ read = tree.kinds ∧ tree.Fits level := by
  constructor
  · intro hexpression
    obtain ⟨hread, hfits⟩ := hexpression.kinds_and_fits
    exact ⟨hread.trans tree.kinds_eraseSpans, hfits.of_eraseSpans⟩
  · rintro ⟨rfl, hfits⟩
    exact expression_of_fits hfits

end Grammar

end Lox
