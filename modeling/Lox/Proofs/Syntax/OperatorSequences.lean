import Lox.Proofs.Syntax.Grammar
import Lox.Proofs.Syntax.SpanErasure
import Mathlib.Data.List.Basic
import Mathlib.Data.List.TakeWhile

/-!
# Sequences of binary operators

Operands with binary operators between them, read from left to right, are a sequence without any
structure (`Expr.sequence`). How tightly the operators bind gives it one: in a tree that is layered
no operator stands above a looser one, and of equal ones the last stands above the others
(`Expr.IsLayered`). There is one such tree at most (`Expr.eq_of_sequence_eq`).

The grammar writes such a tree for each sequence in which no operator is chained that cannot be
(`exists_expression_of_links`): there is one equality at most, and between two comparisons there is
an equality. At each level the sequence is cut at the operators of that level, and what is between
them belongs to tighter levels (`exists_groups`).
-/

set_option autoImplicit false
set_option relaxedAutoImplicit false

namespace Lox

open Grammar

namespace BinaryOperator

/-- How tightly an operator binds its operands. -/
def precedence : BinaryOperator → Nat
  | equal | notEqual => 1
  | greater | greaterEqual | less | lessEqual => 2
  | add | subtract => 3
  | multiply | divide => 4

/-- The token that writes an operator. -/
def mark : BinaryOperator → TokenKind
  | add => .symbol .plus
  | subtract => .symbol .minus
  | multiply => .symbol .star
  | divide => .symbol .slash
  | greater => .symbol .greater
  | greaterEqual => .symbol .greaterEqual
  | less => .symbol .less
  | lessEqual => .symbol .lessEqual
  | equal => .symbol .equalEqual
  | notEqual => .symbol .bangEqual

theorem one_le_precedence (operator : BinaryOperator) : 1 ≤ operator.precedence := by
  cases operator <;> decide

end BinaryOperator

/-- Whether some operator is chained that cannot be: there are two equalities, or two comparisons
without an equality between them. -/
def Chained (operators : List BinaryOperator) : Prop :=
  ∃ before first between second after,
    operators = before ++ first :: between ++ second :: after ∧
    ((first.precedence = 1 ∧ second.precedence = 1) ∨
      (first.precedence = 2 ∧ second.precedence = 2 ∧ ∀ other ∈ between, other.precedence ≠ 1))

theorem Chained.of_infix {before operators after : List BinaryOperator}
    (hchained : Chained operators) : Chained (before ++ operators ++ after) := by
  obtain ⟨start, first, between, second, rest, rfl, hboth⟩ := hchained
  exact ⟨before ++ start, first, between, second, rest ++ after, by simp, hboth⟩

/-- Whether an operator is chained with one of those behind it, or some of those are. -/
theorem chained_cons_iff {operator : BinaryOperator} {operators : List BinaryOperator} :
    Chained (operator :: operators) ↔
      (operator.precedence = 1 ∧ ∃ second ∈ operators, second.precedence = 1) ∨
      (operator.precedence = 2 ∧
        ∃ second ∈ operators.takeWhile (·.precedence ≠ 1), second.precedence = 2) ∨
      Chained operators := by
  constructor
  · rintro ⟨before, first, between, second, after, hsplit, hboth⟩
    cases before with
    | nil =>
      simp only [List.nil_append, List.cons_append, List.cons.injEq] at hsplit
      obtain ⟨rfl, rfl⟩ := hsplit
      rcases hboth with ⟨hfirst, hsecond⟩ | ⟨hfirst, hsecond, hbetween⟩
      · exact .inl ⟨hfirst, second, by simp, hsecond⟩
      · refine .inr (.inl ⟨hfirst, second, ?_, hsecond⟩)
        have hpass : ∀ other ∈ between, decide (other.precedence ≠ 1) = true := by
          simpa using hbetween
        rw [List.takeWhile_append_of_pos hpass, List.takeWhile_cons_of_pos (by simp [hsecond])]
        simp
    | cons start before =>
      obtain ⟨rfl, rfl⟩ := List.cons.inj hsplit
      exact .inr (.inr ⟨before, first, between, second, after, rfl, hboth⟩)
  · rintro (⟨hfirst, second, hmem, hsecond⟩ | ⟨hfirst, second, hmem, hsecond⟩ | hchained)
    · obtain ⟨between, after, rfl⟩ := List.append_of_mem hmem
      exact ⟨[], operator, between, second, after, rfl, .inl ⟨hfirst, hsecond⟩⟩
    · obtain ⟨between, after, htake⟩ := List.append_of_mem hmem
      refine ⟨[], operator, between, second,
        after ++ operators.dropWhile (·.precedence ≠ 1), ?_, .inr ⟨hfirst, hsecond, ?_⟩⟩
      · have hwhole : operators = (between ++ second :: after) ++
            operators.dropWhile (·.precedence ≠ 1) := by
          rw [← htake, List.takeWhile_append_dropWhile]
        simpa using hwhole
      · intro other hother
        have hpass : other ∈ operators.takeWhile (·.precedence ≠ 1) := by
          rw [htake]
          exact List.mem_append_left _ hother
        simpa using List.mem_takeWhile_imp hpass
    · have hwhole : Chained ([operator] ++ operators ++ []) := hchained.of_infix
      simpa using hwhole

instance decidableChained : DecidablePred Chained
  | [] => .isFalse fun ⟨before, _, _, _, _, hsplit, _⟩ ↦ by simp at hsplit
  | operator :: operators =>
    have := decidableChained operators
    decidable_of_iff' _ chained_cons_iff

example : Chained [.equal, .less, .notEqual] ∧ ¬Chained [.less, .equal, .greater, .add] := by decide

/-! ### Trees as sequences -/

namespace Expr

/-- The operands of the binary operators of a tree in the order of the text, and before each but the
first one the operator. -/
def sequence : Expr → Expr × List (BinaryOperator × Expr)
  | binary operator left right _ =>
    (left.sequence.1, left.sequence.2 ++ (operator, right.sequence.1) :: right.sequence.2)
  | tree => (tree, [])

/-- Looser operators stand above tighter ones, and of those that bind equally the last stands above
the others. -/
def IsLayered : Expr → Prop
  | binary operator left right _ => left.IsLayered ∧ right.IsLayered ∧
    (∀ other ∈ left.sequence.2, operator.precedence ≤ other.1.precedence) ∧
    ∀ other ∈ right.sequence.2, operator.precedence < other.1.precedence
  | _ => True

/-- The operators of one tree lie as those of another do: an operator of the first one would be
tighter than one of the second, and no tighter than it. -/
theorem not_later {operator operator' : BinaryOperator}
    {left right left' right' between : List (BinaryOperator × Expr)} {operand operand' : Expr}
    (hright : ∀ other ∈ right, operator.precedence < other.1.precedence)
    (hleft' : ∀ other ∈ left', operator'.precedence ≤ other.1.precedence)
    (hbefore : left' = left ++ (operator, operand) :: between)
    (hafter : right = between ++ (operator', operand') :: right') : False := by
  have hlt := hright (operator', operand') (by simp [hafter])
  have hle := hleft' (operator, operand) (by simp [hbefore])
  simp only at hlt hle
  omega

/-- A sequence is cut at the same operator in two layered trees. -/
theorem sequence_parts_eq {operator operator' : BinaryOperator}
    {left right left' right' : List (BinaryOperator × Expr)} {operand operand' : Expr}
    (hleft : ∀ other ∈ left, operator.precedence ≤ other.1.precedence)
    (hright : ∀ other ∈ right, operator.precedence < other.1.precedence)
    (hleft' : ∀ other ∈ left', operator'.precedence ≤ other.1.precedence)
    (hright' : ∀ other ∈ right', operator'.precedence < other.1.precedence)
    (heq : left ++ (operator, operand) :: right = left' ++ (operator', operand') :: right') :
    left = left' ∧ operator = operator' ∧ operand = operand' ∧ right = right' := by
  rcases List.append_eq_append_iff.mp heq with ⟨between, hlater, hmore⟩ | ⟨between, hlater, hmore⟩
  · cases between with
    | nil => simp_all
    | cons first between =>
      obtain ⟨rfl, hrest⟩ := List.cons.inj hmore
      exact (not_later hright hleft' hlater hrest).elim
  · cases between with
    | nil => simp_all
    | cons first between =>
      obtain ⟨rfl, hrest⟩ := List.cons.inj hmore
      exact (not_later hright' hleft hlater hrest).elim

/-- A tree with another operator than a binary one, or none, is its own first operand. -/
theorem sequence_eraseSpans_of_forall_ne {tree : Expr}
    (htree : ∀ operator left right span, tree = binary operator left right span → False) :
    tree.eraseSpans.sequence = (tree.eraseSpans, []) := by
  cases tree with
  | binary => exact (htree _ _ _ _ rfl).elim
  | _ => rfl

/-- A sequence comes from one layered tree at most. -/
theorem eq_of_sequence_eq {tree tree' : Expr} (htree : tree.eraseSpans.IsLayered)
    (htree' : tree'.eraseSpans.IsLayered)
    (hsequence : tree.eraseSpans.sequence = tree'.eraseSpans.sequence) :
    tree.eraseSpans = tree'.eraseSpans := by
  induction tree using Expr.sequence.induct generalizing tree' with
  | case1 operator left right span ihleft ihright =>
    by_cases hbinary : ∃ operator' left' right' span', tree' = binary operator' left' right' span'
    · obtain ⟨operator', left', right', span', rfl⟩ := hbinary
      obtain ⟨hleft, hright, hlooser, htighter⟩ := htree
      obtain ⟨hleft', hright', hlooser', htighter'⟩ := htree'
      obtain ⟨hfirst, hothers⟩ := Prod.mk.inj hsequence
      obtain ⟨hbefore, rfl, hoperand, hafter⟩ :=
        sequence_parts_eq hlooser htighter hlooser' htighter' hothers
      have hlefts := ihleft hleft hleft' (Prod.ext hfirst hbefore)
      have hrights := ihright hright hright' (Prod.ext hoperand hafter)
      rw [eraseSpans_binary, eraseSpans_binary, hlefts, hrights]
    · rw [sequence_eraseSpans_of_forall_ne fun _ _ _ _ heq ↦ hbinary ⟨_, _, _, _, heq⟩]
        at hsequence
      simp [sequence] at hsequence
  | case2 tree hne =>
    have hfirst := sequence_eraseSpans_of_forall_ne hne
    by_cases hbinary : ∃ operator' left' right' span', tree' = binary operator' left' right' span'
    · obtain ⟨operator', left', right', span', rfl⟩ := hbinary
      rw [hfirst] at hsequence
      simp [sequence] at hsequence
    · rw [hfirst, sequence_eraseSpans_of_forall_ne fun _ _ _ _ heq ↦ hbinary ⟨_, _, _, _, heq⟩]
        at hsequence
      exact congrArg Prod.fst hsequence

end Expr

/-! ### Sequences that the grammar writes -/

/-- A binary operator, and the operand to its right with the tokens that write it. -/
structure Grammar.Link where
  operator : BinaryOperator
  read : List TokenKind
  operand : Expr

namespace Grammar.Link

/-- The tokens of an operator and the operand to its right. -/
def kinds (link : Link) : List TokenKind := link.operator.mark :: link.read

/-- The operators of a sequence. -/
def operators (links : List Link) : List BinaryOperator := links.map operator

/-- An operator and its operand as they stand in the sequence of a tree. -/
def entry (link : Link) : BinaryOperator × Expr := (link.operator, link.operand)

end Grammar.Link

/-- What is chained within a part of a sequence is chained in the whole. -/
theorem Chained.of_parts (before links after : List Link)
    (hchained : Chained (Link.operators links)) :
    Chained (Link.operators (before ++ links ++ after)) := by
  rw [Link.operators, List.map_append, List.map_append]
  exact hchained.of_infix

/-- If nothing is chained, two operators are neither both equalities nor both comparisons without an
equality between them. -/
theorem not_both_of_not_chained {start between rest : List Link} {first second : Link}
    (hchained : ¬Chained (Link.operators (start ++ first :: between ++ second :: rest))) :
    ¬(first.operator.precedence = 1 ∧ second.operator.precedence = 1) ∧
      ((∀ other ∈ between, other.operator.precedence ≠ 1) →
        ¬(first.operator.precedence = 2 ∧ second.operator.precedence = 2)) := by
  have hsplit : Link.operators (start ++ first :: between ++ second :: rest)
      = Link.operators start ++ first.operator :: Link.operators between ++
        second.operator :: Link.operators rest := by
    simp [Link.operators]
  refine ⟨fun hboth ↦ hchained ⟨_, _, _, _, _, hsplit, .inl hboth⟩, fun hbetween hboth ↦ ?_⟩
  refine hchained ⟨_, _, _, _, _, hsplit, .inr ⟨hboth.1, hboth.2, ?_⟩⟩
  exact List.forall_mem_map.mpr hbetween

/-- If nothing is chained, there are only tighter operators around an equality. -/
theorem one_lt_of_equality {before after : List Link} {link : Link}
    (hchained : ¬Chained (Link.operators (before ++ link :: after)))
    (hlink : link.operator.precedence = 1) :
    ∀ other ∈ before ++ after, 1 < other.operator.precedence := by
  intro other hother
  refine Nat.lt_of_le_of_ne other.operator.one_le_precedence fun hequal ↦ ?_
  rcases List.mem_append.mp hother with hother | hother
  · obtain ⟨start, between, rfl⟩ := List.append_of_mem hother
    exact (not_both_of_not_chained hchained).1 ⟨hequal.symm, hlink⟩
  · obtain ⟨between, rest, rfl⟩ := List.append_of_mem hother
    rw [← List.cons_append, ← List.append_assoc] at hchained
    exact (not_both_of_not_chained hchained).1 ⟨hlink, hequal.symm⟩

/-- If nothing is chained, there are only tighter operators around a comparison up to the next
equalities. -/
theorem two_lt_of_comparison {start before after : List Link} {link : Link}
    (hchained : ¬Chained (Link.operators (start ++ before ++ link :: after)))
    (hlink : link.operator.precedence = 2)
    (hnone : ∀ other ∈ before ++ after, other.operator.precedence ≠ 1) :
    ∀ other ∈ before ++ after, 2 < other.operator.precedence := by
  intro other hother
  have hle := other.operator.one_le_precedence
  have hne := hnone other hother
  suffices hcomparison : other.operator.precedence ≠ 2 by omega
  intro hcomparison
  obtain ⟨hbefore, hafter⟩ := List.forall_mem_append.mp hnone
  rcases List.mem_append.mp hother with hother | hother
  · obtain ⟨first, between, rfl⟩ := List.append_of_mem hother
    rw [← List.append_assoc start] at hchained
    refine (not_both_of_not_chained hchained).2 (fun inner hinner ↦ ?_) ⟨hcomparison, hlink⟩
    exact hbefore inner (by simp [hinner])
  · obtain ⟨between, rest, rfl⟩ := List.append_of_mem hother
    rw [← List.cons_append, ← List.append_assoc] at hchained
    refine (not_both_of_not_chained hchained).2 (fun inner hinner ↦ ?_) ⟨hlink, hcomparison⟩
    exact hafter inner (by simp [hinner])

/-- What is chained first is chained with an operator before it. -/
theorem exists_link_of_concat {links : List Link} {second : BinaryOperator}
    (hunchained : ¬Chained (Link.operators links))
    (hchained : Chained (Link.operators links ++ [second])) :
    ∃ before link between, links = before ++ link :: between ∧
      ((link.operator.precedence = 1 ∧ second.precedence = 1) ∨
        (link.operator.precedence = 2 ∧ second.precedence = 2 ∧
          ∀ other ∈ between, other.operator.precedence ≠ 1)) := by
  obtain ⟨before, first, between, last, after, hsplit, hboth⟩ := hchained
  rcases after.eq_nil_or_concat' with rfl | ⟨after, final, rfl⟩
  · obtain ⟨hlinks, hlast⟩ := List.append_inj' hsplit rfl
    obtain rfl : second = last := by simpa using hlast
    obtain ⟨start, others, rfl, rfl, hothers⟩ := List.map_eq_append_iff.mp hlinks
    obtain ⟨link, rest, rfl, rfl, rfl⟩ := List.map_eq_cons_iff.mp hothers
    refine ⟨start, link, rest, rfl, hboth.imp_right fun ⟨hlink, hsecond, hbetween⟩ ↦ ?_⟩
    exact ⟨hlink, hsecond, fun other hother ↦ hbetween _ (List.mem_map_of_mem hother)⟩
  · refine absurd ?_ hunchained
    rw [← List.cons_append, ← List.append_assoc] at hsplit
    obtain ⟨hlinks, -⟩ := List.append_inj' hsplit rfl
    exact ⟨before, first, between, last, after, by simpa using hlinks, hboth⟩

/-- A layered tree of operands with operators between them. -/
structure Expr.Arranges (tree first : Expr) (links : List Link) : Prop where
  sequence_eq : tree.sequence = (first, links.map Link.entry)
  isLayered : tree.IsLayered

/-- The links of groups, each of which starts with a link of its own. -/
def ungroup (groups : List (Link × List Link)) : List Link :=
  groups.flatMap fun group ↦ group.1 :: group.2

/-- A sequence is cut at its operators of one precedence. -/
theorem exists_groups (rank : Nat) (links : List Link) :
    ∃ (run : List Link) (groups : List (Link × List Link)),
      links = run ++ ungroup groups ∧
      (∀ link ∈ run, link.operator.precedence ≠ rank) ∧
      ∀ group ∈ groups, group.1.operator.precedence = rank ∧
        ∀ link ∈ group.2, link.operator.precedence ≠ rank := by
  induction links with
  | nil => exact ⟨[], [], rfl, by simp, by simp⟩
  | cons link links ih =>
    obtain ⟨run, groups, rfl, hrun, hgroups⟩ := ih
    by_cases hlink : link.operator.precedence = rank
    · exact ⟨[], (link, run) :: groups, by simp [ungroup], by simp,
        List.forall_mem_cons.mpr ⟨⟨hlink, hrun⟩, hgroups⟩⟩
    · exact ⟨link :: run, groups, rfl, List.forall_mem_cons.mpr ⟨hlink, hrun⟩, hgroups⟩

/-- The precedence of the operators of a level, if they are binary. -/
def Grammar.Precedence.rank : Precedence → Nat
  | logicOr | logicAnd => 0
  | equality => 1
  | comparison => 2
  | term => 3
  | factor => 4

theorem Grammar.Precedence.mem_operators_of_rank {precedence : Precedence}
    {operator : BinaryOperator} (hrank : operator.precedence = precedence.rank) :
    (operator.mark, .binary operator) ∈ precedence.operators := by
  cases operator <;> cases precedence <;> cases hrank <;> decide

/-- A unary expression is no binary one. -/
theorem Grammar.Expression.ne_binary {read : List TokenKind} {tree : Expr}
    (hexpression : Expression .unary read tree) (operator : BinaryOperator) (left right : Expr)
    (span : Span) : tree ≠ .binary operator left right span := by
  rintro rfl
  generalize hlevel : Level.unary = level at hexpression
  generalize htree : Expr.binary operator left right span = tree at hexpression
  cases hexpression with
  | operand hcall =>
    cases hcall with
    | @call _ callee lists hcallee =>
      rcases List.eq_nil_or_concat lists with rfl | ⟨lists, last, rfl⟩
      · subst htree
        cases hcallee
      · rw [List.concat_eq_append, List.foldl_append] at htree
        cases htree
  | negate | complement => cases htree
  | _ => cases hlevel

namespace Expr.Arranges

variable {tree first : Expr} {links : List Link}

/-- An operand alone. -/
theorem operand {read : List TokenKind} (hexpression : Expression .unary read tree) :
    tree.Arranges tree [] := by
  have hne := hexpression.ne_binary
  cases tree with
  | binary => exact (hne _ _ _ _ rfl).elim
  | _ => exact ⟨rfl, True.intro⟩

/-- An operator behind operators that bind at least as tightly and before some that bind more
tightly. -/
theorem binary {right : Expr} {link : Link} {run : List Link} (htree : tree.Arranges first links)
    (hright : right.Arranges link.operand run)
    (hlinks : ∀ other ∈ links, link.operator.precedence ≤ other.operator.precedence)
    (hrun : ∀ other ∈ run, link.operator.precedence < other.operator.precedence) :
    (Expr.binary link.operator tree right .origin).Arranges first (links ++ link :: run) := by
  refine ⟨?_, htree.isLayered, hright.isLayered, ?_, ?_⟩
  · simp only [sequence, htree.sequence_eq, hright.sequence_eq, List.map_append, List.map_cons]
    rfl
  · rw [htree.sequence_eq]
    exact List.forall_mem_map.mpr hlinks
  · rw [hright.sequence_eq]
    exact List.forall_mem_map.mpr hrun

end Expr.Arranges

/-- The grammar has a layered tree at a level for every sequence of operators that bind at least so
tightly, none of which is chained that cannot be. -/
def Grammar.Level.WritesLinks (level : Level) (rank : Nat) : Prop :=
  ∀ ⦃read : List TokenKind⦄ ⦃first : Expr⦄ ⦃links : List Link⦄, Expression .unary read first →
    (∀ link ∈ links, Expression .unary link.read link.operand) →
    (∀ link ∈ links, rank ≤ link.operator.precedence) → ¬Chained (Link.operators links) →
    ∃ tree, Expression level (read ++ links.flatMap Link.kinds) tree ∧ tree.Arranges first links

namespace Grammar.Level.WritesLinks

variable {precedence : Precedence} {rank : Nat}

theorem unary : WritesLinks .unary 5 := by
  intro read first links hfirst _ hranks _
  have hnil : links = [] := by
    refine List.eq_nil_iff_forall_not_mem.mpr fun link hlink ↦ ?_
    have hle := hranks link hlink
    generalize link.operator = operator at hle
    cases operator <;> exact absurd hle (by decide)
  subst hnil
  exact ⟨first, by simpa using hfirst, .operand hfirst⟩

/-- Groups behind a tree are further operations. -/
theorem exists_operations (hnext : precedence.operand.WritesLinks (precedence.rank + 1))
    {groups : List (Link × List Link)} {links : List Link} {tree first : Expr}
    (htree : tree.Arranges first links)
    (hlinks : ∀ link ∈ links, precedence.rank ≤ link.operator.precedence)
    (hgroups : ∀ group ∈ groups, group.1.operator.precedence = precedence.rank ∧
      (∀ link ∈ group.2, precedence.rank < link.operator.precedence) ∧
      (∀ link ∈ group.1 :: group.2, Expression .unary link.read link.operand) ∧
      ¬Chained (Link.operators group.2)) :
    ∃ others : List Operation, others.length = groups.length ∧
      others.flatMap Operation.kinds = (ungroup groups).flatMap Link.kinds ∧
      (∀ other ∈ others, (other.mark, other.operator) ∈ precedence.operators) ∧
      (∀ other ∈ others, Expression precedence.operand other.read other.operand) ∧
      (others.foldl Operation.after tree).Arranges first (links ++ ungroup groups) := by
  induction groups generalizing links tree with
  | nil => exact ⟨[], rfl, rfl, by simp, by simp, by simpa [ungroup] using htree⟩
  | cons group groups ih =>
    obtain ⟨link, run⟩ := group
    obtain ⟨⟨hrank, hrun, hexpressions, hchained⟩, hgroups⟩ := List.forall_mem_cons.mp hgroups
    obtain ⟨hlink, hrests⟩ := List.forall_mem_cons.mp hexpressions
    simp only at hrank hrun
    obtain ⟨right, hexpression, hright⟩ := hnext hlink hrests hrun hchained
    have hjoined := htree.binary hright (by rwa [hrank]) (by rwa [hrank])
    have hall : ∀ other ∈ links ++ link :: run,
        precedence.rank ≤ other.operator.precedence := by
      refine List.forall_mem_append.mpr ⟨hlinks, List.forall_mem_cons.mpr ⟨Nat.le_of_eq hrank.symm,
        fun other hother ↦ Nat.le_of_lt (hrun other hother)⟩⟩
    obtain ⟨others, hlength, hkinds, hmarks, hoperands, harranges⟩ := ih hjoined hall hgroups
    refine ⟨⟨link.operator.mark, .binary link.operator, link.read ++ run.flatMap Link.kinds,
      right⟩ :: others, ?_, ?_, ?_, ?_, ?_⟩
    · simp [hlength]
    · simp [hkinds, ungroup, Operation.kinds, Link.kinds]
    · exact List.forall_mem_cons.mpr ⟨Precedence.mem_operators_of_rank hrank, hmarks⟩
    · exact List.forall_mem_cons.mpr ⟨hexpression, hoperands⟩
    · simpa [ungroup, Operation.after, Operator.between] using harranges

/-- Two groups would chain operators that cannot be. -/
theorem length_groups_le {run : List Link} {groups : List (Link × List Link)}
    (hassociates : precedence.associates = false)
    (hranks : ∀ link ∈ run ++ ungroup groups, precedence.rank ≤ link.operator.precedence)
    (hgroups : ∀ group ∈ groups, group.1.operator.precedence = precedence.rank)
    (hchained : ¬Chained (Link.operators (run ++ ungroup groups))) : groups.length ≤ 1 := by
  rcases groups with _ | ⟨group, _ | ⟨second, groups⟩⟩
  · simp
  · simp
  · refine absurd ?_ hchained
    obtain ⟨hfirst, hgroups⟩ := List.forall_mem_cons.mp hgroups
    obtain ⟨hsecond, -⟩ := List.forall_mem_cons.mp hgroups
    refine ⟨Link.operators run, group.1.operator, Link.operators group.2, second.1.operator,
      Link.operators (second.2 ++ ungroup groups), by simp [ungroup, Link.operators], ?_⟩
    cases precedence with
    | equality => exact .inl ⟨hfirst, hsecond⟩
    | comparison =>
      refine .inr ⟨hfirst, hsecond, ?_⟩
      intro operator hoperator
      obtain ⟨link, hlink, rfl⟩ := List.mem_map.mp hoperator
      have hle := hranks link (by simp [ungroup, hlink])
      exact Nat.ne_of_gt hle
    | _ => cases hassociates

theorem operators (hnext : precedence.operand.WritesLinks (precedence.rank + 1)) :
    (Level.operators precedence).WritesLinks precedence.rank := by
  intro read first links hfirst hlinks hranks hchained
  obtain ⟨run, groups, rfl, hrun, hgroups⟩ := exists_groups precedence.rank links
  have htighter {link : Link} (hlink : link ∈ run ++ ungroup groups)
      (hne : link.operator.precedence ≠ precedence.rank) :
      precedence.rank < link.operator.precedence :=
    Nat.lt_of_le_of_ne (hranks link hlink) (Ne.symm hne)
  have hunchained {before part after : List Link}
      (hpart : run ++ ungroup groups = before ++ part ++ after) :
      ¬Chained (Link.operators part) := by
    rw [hpart] at hchained
    exact fun hbad ↦ hchained (.of_parts before part after hbad)
  obtain ⟨tree, htree, harranges⟩ := hnext hfirst
    (fun link hlink ↦ hlinks link (List.mem_append_left _ hlink))
    (fun link hlink ↦ htighter (List.mem_append_left _ hlink) (hrun link hlink))
    (hunchained (show run ++ ungroup groups = [] ++ run ++ ungroup groups from rfl))
  have hall : ∀ group ∈ groups, group.1.operator.precedence = precedence.rank ∧
      (∀ link ∈ group.2, precedence.rank < link.operator.precedence) ∧
      (∀ link ∈ group.1 :: group.2, Expression .unary link.read link.operand) ∧
      ¬Chained (Link.operators group.2) := by
    intro group hgroup
    have hmem (link : Link) (hlink : link ∈ group.1 :: group.2) : link ∈ run ++ ungroup groups :=
      List.mem_append_right _ (List.mem_flatMap.mpr ⟨group, hgroup, hlink⟩)
    obtain ⟨hrank, hothers⟩ := hgroups group hgroup
    refine ⟨hrank, fun link hlink ↦ htighter (hmem link (List.mem_cons_of_mem _ hlink))
      (hothers link hlink), fun link hlink ↦ hlinks link (hmem link hlink), ?_⟩
    obtain ⟨before, after, rfl⟩ := List.append_of_mem hgroup
    have hcut : run ++ ungroup (before ++ group :: after)
        = (run ++ ungroup before ++ [group.1]) ++ group.2 ++ ungroup after := by
      simp [ungroup]
    exact hunchained hcut
  have hranks' : ∀ link ∈ run, precedence.rank ≤ link.operator.precedence :=
    fun link hlink ↦ hranks link (List.mem_append_left _ hlink)
  obtain ⟨others, hlength, hkinds, hmarks, hoperands, hwhole⟩ :=
    exists_operations hnext harranges hranks' hall
  refine ⟨_, ?_, hwhole⟩
  rw [List.flatMap_append, ← List.append_assoc, ← hkinds]
  refine .operators htree hmarks hoperands fun hassociates ↦ ?_
  rw [hlength]
  exact length_groups_le hassociates hranks (fun group hgroup ↦ (hgroups group hgroup).1) hchained

theorem factor : WritesLinks (.operators .factor) 4 :=
  operators unary

theorem term : WritesLinks (.operators .term) 3 :=
  operators factor

theorem comparison : WritesLinks (.operators .comparison) 2 :=
  operators term

theorem equality : WritesLinks (.operators .equality) 1 :=
  operators comparison

end Grammar.Level.WritesLinks

end Lox
