import Lox.Proofs.Syntax.ExpressionCompleteness
import Lox.Proofs.Syntax.OperatorSequences

/-!
# Operators that cannot be chained

A sequence of binary operators in which none is chained that cannot be is read as its layered tree
(`Parse.Takes.sequence`). In any other sequence reading fails at the first operator that is chained,
and all before it has been passed (`Parse.FailsAt.chained`).

`Parse.FailsAt` is for failures what `Parse.Takes` is for what is read: it says which tokens are
passed before a parser fails at the next one, and why.
-/

set_option autoImplicit false
set_option relaxedAutoImplicit false

namespace Lox

open Grammar

namespace Parse

variable {α β : Type}

/-- Where certain tokens come next, and certain others behind them, the former are passed and
reading fails at the first of the others. -/
def FailsAt (depth : Nat) (parse : Parse α) (read rest : List TokenKind) (cause : SyntaxCause) :
    Prop :=
  ∀ first : Cursor, first.kinds = read ++ rest → first.depth = depth →
    ∃ last, parse.run first = .failed ⟨cause, last.place⟩ last ∧ first.Passes read last

namespace FailsAt

variable {depth : Nat} {parse : Parse α} {next : α → Parse β} {read more rest : List TokenKind}
  {good : α → Prop} {cause : SyntaxCause}

theorem failHere : FailsAt depth (failHere cause : Parse α) [] rest cause :=
  fun first _ _ ↦ ⟨first, rfl, .refl first⟩

/-- A chain of which the first step fails. -/
theorem bind (hparse : FailsAt depth parse read rest cause) :
    FailsAt depth (parse >>= next) read rest cause := by
  intro first hkinds hdepth
  obtain ⟨last, hrun, hpasses⟩ := hparse first hkinds hdepth
  exact ⟨last, by rw [Bounded.run_bind, hrun], hpasses⟩

/-- A chain that fails behind its first step. -/
theorem behind (hparse : Takes depth parse read (more ++ rest) good)
    (hnext : ∀ value, good value → FailsAt depth (next value) more rest cause) :
    FailsAt depth (parse >>= next) (read ++ more) rest cause := by
  intro first hkinds hdepth
  rw [List.append_assoc] at hkinds
  obtain ⟨value, middle, hfirst, hread, hgood⟩ := hparse first hkinds hdepth
  have hmiddle : middle.kinds = more ++ rest := by
    rw [hread.kinds_eq] at hkinds
    exact List.append_cancel_left hkinds
  obtain ⟨last, hsecond, hmore⟩ :=
    hnext value hgood middle hmiddle (hread.depth_eq.trans hdepth)
  refine ⟨last, ?_, hread.trans hmore⟩
  rw [Bounded.run_bind_of_done hfirst, hsecond]

/-- A chain of which the first step passes nothing. -/
theorem peek (hparse : Takes depth parse [] (read ++ rest) good)
    (hnext : ∀ value, good value → FailsAt depth (next value) read rest cause) :
    FailsAt depth (parse >>= next) read rest cause :=
  behind hparse hnext

/-- A chain of which the first step passes a token. -/
theorem token {kind : TokenKind} (hparse : Takes depth parse [kind] (read ++ rest) good)
    (hnext : ∀ value, good value → FailsAt depth (next value) read rest cause) :
    FailsAt depth (parse >>= next) (kind :: read) rest cause :=
  behind hparse hnext

/-- A chain of which the last step passes nothing. -/
theorem last (hparse : Takes depth parse read rest good)
    (hnext : ∀ value, good value → FailsAt depth (next value) [] rest cause) :
    FailsAt depth (parse >>= next) read rest cause := by
  have hbehind : FailsAt depth (parse >>= next) (read ++ []) rest cause := behind hparse hnext
  rwa [List.append_nil] at hbehind

section Single

variable {precedence : Precedence} {ofToken? : TokenKind → Option BinaryOperator}
  {operand : Parse Expr} {operator second : BinaryOperator}

/-- An operand is taken where an operator of its level comes next. -/
def OperandTaken (precedence : Precedence) (depth : Nat) (operand : Parse Expr)
    (read : List TokenKind) : Prop :=
  ∀ more, precedence.operand.EndsBefore more → Takes depth operand read more fun _ ↦ True

theorem endsBefore_mark (hrank : operator.precedence = precedence.rank) (more : List TokenKind) :
    precedence.operand.EndsBefore (operator.mark :: more) := by
  refine .cons _ ?_
  rw [Precedence.looseness_of_mem (Precedence.mem_operators_of_rank hrank)]
  exact precedence.looseness_operand_lt

/-- The operator that comes next is found. -/
theorem mark (hreadBy : precedence.ReadBy ofToken? Expr.joinBinary .binary)
    (hrank : operator.precedence = precedence.rank) (more : List TokenKind) :
    Takes depth (operator? ofToken?) [] (operator.mark :: more) fun found ↦
      found = some operator := by
  have hmark := Precedence.mem_operators_of_rank hrank
  refine (Takes.operation hreadBy hmark more).mono fun found hfound ↦ ?_
  obtain ⟨present, rfl, hwrite⟩ := hfound
  exact congrArg some (Operator.binary.inj hwrite)

/-- What comes first fails. -/
theorem singleFirst (hfirst : FailsAt depth operand read rest cause) :
    FailsAt depth (single ofToken? operand) read rest cause :=
  bind hfirst

/-- What comes behind the operator fails. -/
theorem singleRight (hreadBy : precedence.ReadBy ofToken? Expr.joinBinary .binary)
    (hfirst : OperandTaken precedence depth operand read)
    (hrank : operator.precedence = precedence.rank)
    (hright : FailsAt depth operand more rest cause) :
    FailsAt depth (single ofToken? operand) (read ++ operator.mark :: more) rest cause := by
  refine behind (hfirst _ (endsBefore_mark hrank _)) fun left _ ↦ ?_
  refine peek (mark hreadBy hrank _) fun found hfound ↦ ?_
  obtain rfl := hfound
  exact token (.advance _) fun _ _ ↦ bind hright

/-- A second operator comes. -/
theorem singleSecond (hreadBy : precedence.ReadBy ofToken? Expr.joinBinary .binary)
    (hfirst : OperandTaken precedence depth operand read)
    (hrank : operator.precedence = precedence.rank)
    (hright : OperandTaken precedence depth operand more)
    (hsecond : second.precedence = precedence.rank) (rest : List TokenKind) :
    FailsAt depth (single ofToken? operand) (read ++ operator.mark :: more)
      (second.mark :: rest) (.chainedOperator second) := by
  refine behind (hfirst _ (endsBefore_mark hrank _)) fun left _ ↦ ?_
  refine peek (mark hreadBy hrank _) fun found hfound ↦ ?_
  obtain rfl := hfound
  refine token (.advance _) fun _ _ ↦ last (hright _ (endsBefore_mark hsecond _)) fun right _ ↦ ?_
  refine peek (mark hreadBy hsecond _) fun found hfound ↦ ?_
  obtain rfl := hfound
  exact failHere

end Single

end FailsAt

/-! ### Sequences -/

section Sequences

variable {depth bound : Nat} {read rest : List TokenKind} {first : Expr} {links : List Link}

/-- A sequence of operators that bind tightly enough, none of which is chained that cannot be, is
read as a layered tree. -/
theorem Takes.sequence {level : Level} {rank : Nat} (hwrites : level.WritesLinks rank)
    (hfirst : Expression .unary read first)
    (hlinks : ∀ link ∈ links, Expression .unary link.read link.operand)
    (hranks : ∀ link ∈ links, rank ≤ link.operator.precedence)
    (hchained : ¬Chained (Link.operators links))
    (hlength : (read ++ links.flatMap Link.kinds).length ≤ bound + 1)
    (hrest : level.EndsBefore rest) :
    Takes depth (atLevel (Parse.expression bound) (bound + 1) level)
      (read ++ links.flatMap Link.kinds) rest
      fun value ↦ value.eraseSpans.Arranges first links := by
  obtain ⟨tree, htree, harranges⟩ := hwrites hfirst hlinks hranks hchained
  refine (htree.completes depth bound (bound + 1) rest hlength hlength hrest).mono ?_
  rintro value rfl
  exact harranges

theorem length_kinds_append (before : List Link) (link : Link) (after : List Link) :
    (read ++ (before ++ link :: after).flatMap Link.kinds).length
      = (read ++ before.flatMap Link.kinds).length
        + (link.read ++ after.flatMap Link.kinds).length + 1 := by
  simp [Link.kinds]
  omega

/-- A second operator of a level that takes one at most. -/
theorem FailsAt.secondOperator {precedence : Precedence}
    {ofToken? : TokenKind → Option BinaryOperator}
    (hreadBy : precedence.ReadBy ofToken? Expr.joinBinary .binary)
    (hwrites : precedence.operand.WritesLinks (precedence.rank + 1)) {before after : List Link}
    {link : Link} {second : BinaryOperator} (hfirst : Expression .unary read first)
    (hlinks : ∀ other ∈ before ++ link :: after, Expression .unary other.read other.operand)
    (hbefore : ∀ other ∈ before, precedence.rank < other.operator.precedence)
    (hafter : ∀ other ∈ after, precedence.rank < other.operator.precedence)
    (hchained : ¬Chained (Link.operators (before ++ link :: after)))
    (hlink : link.operator.precedence = precedence.rank)
    (hsecond : second.precedence = precedence.rank)
    (hlength : (read ++ (before ++ link :: after).flatMap Link.kinds).length ≤ bound + 1) :
    FailsAt depth (single ofToken? (atLevel (expression bound) (bound + 1) precedence.operand))
      (read ++ (before ++ link :: after).flatMap Link.kinds) (second.mark :: rest)
      (.chainedOperator second) := by
  have hkinds : read ++ (before ++ link :: after).flatMap Link.kinds
      = (read ++ before.flatMap Link.kinds) ++
        link.operator.mark :: (link.read ++ after.flatMap Link.kinds) := by
    simp [Link.kinds]
  rw [length_kinds_append] at hlength
  rw [hkinds]
  obtain ⟨hbefores, hlink', hafters⟩ : (∀ other ∈ before, _) ∧ _ ∧ ∀ other ∈ after, _ := by
    rwa [List.forall_mem_append, List.forall_mem_cons] at hlinks
  have hchainedBefore : ¬Chained (Link.operators before) :=
    fun hbad ↦ hchained (.of_parts [] before (link :: after) hbad)
  have hchainedAfter : ¬Chained (Link.operators after) := by
    intro hbad
    have hwhole := Chained.of_parts (before ++ [link]) after [] hbad
    simp only [List.append_assoc, List.singleton_append, List.append_nil] at hwhole
    exact hchained hwhole
  refine singleSecond hreadBy (fun more hmore ↦ ?_) hlink (fun more hmore ↦ ?_) hsecond rest
  · exact (Takes.sequence hwrites hfirst hbefores hbefore hchainedBefore (by omega) hmore).mono
      fun _ _ ↦ trivial
  · exact (Takes.sequence hwrites hlink' hafters hafter hchainedAfter (by omega) hmore).mono
      fun _ _ ↦ trivial

/-- The first operator that is chained and cannot be. Either there are two equalities, with one
comparison at most on either side of the first, or two comparisons, before any equality or behind
one. -/
theorem FailsAt.chained {second : BinaryOperator} (hfirst : Expression .unary read first)
    (hlinks : ∀ link ∈ links, Expression .unary link.read link.operand)
    (hunchained : ¬Chained (Link.operators links))
    (hchained : Chained (Link.operators links ++ [second]))
    (hlength : (read ++ links.flatMap Link.kinds).length ≤ bound + 1) :
    FailsAt depth (binary (expression bound) (bound + 1)) (read ++ links.flatMap Link.kinds)
      (second.mark :: rest) (.chainedOperator second) := by
  obtain ⟨before, link, after, rfl, ⟨hlink, hsecond⟩ | ⟨hlink, hsecond, hafter⟩⟩ :=
    exists_link_of_concat hunchained hchained
  · obtain ⟨hbefore, hafter⟩ := List.forall_mem_append.mp (one_lt_of_equality hunchained hlink)
    exact secondOperator Precedence.equality_readBy .comparison hfirst hlinks hbefore hafter
      hunchained hlink hsecond hlength
  · obtain ⟨run, groups, rfl, hrun, hgroups⟩ := exists_groups 1 before
    rcases groups with _ | ⟨⟨equality, part⟩, _ | ⟨other, groups⟩⟩
    · rw [ungroup, List.flatMap_nil, List.append_nil] at hlinks hunchained hlength ⊢
      have hwhole : ¬Chained (Link.operators ([] ++ run ++ link :: after)) := hunchained
      have htighter := two_lt_of_comparison hwhole hlink (List.forall_mem_append.mpr ⟨hrun, hafter⟩)
      obtain ⟨hbefore, hafter⟩ := List.forall_mem_append.mp htighter
      exact singleFirst (secondOperator Precedence.comparison_readBy .term hfirst hlinks hbefore
        hafter hunchained hlink hsecond hlength)
    · obtain ⟨⟨hequality, hpart⟩, -⟩ := List.forall_mem_cons.mp hgroups
      have hsplit : run ++ ungroup [(equality, part)] ++ link :: after
          = run ++ equality :: (part ++ link :: after) := by simp [ungroup]
      rw [hsplit] at hlinks hunchained hlength ⊢
      obtain ⟨hruns, hequalities, hothers⟩ :
          (∀ other ∈ run, _) ∧ _ ∧ ∀ other ∈ part ++ link :: after, _ := by
        rwa [List.forall_mem_append, List.forall_mem_cons] at hlinks
      have hlooser := one_lt_of_equality hunchained hequality
      have hwhole : ¬Chained (Link.operators (run ++ [equality] ++ part ++ link :: after)) := by
        simpa using hunchained
      have htighter := two_lt_of_comparison hwhole hlink
        (List.forall_mem_append.mpr ⟨hpart, hafter⟩)
      obtain ⟨hbefore, hafter⟩ := List.forall_mem_append.mp htighter
      have hrunUnchained : ¬Chained (Link.operators run) :=
        fun hbad ↦ hunchained (.of_parts [] run _ hbad)
      have hothersUnchained : ¬Chained (Link.operators (part ++ link :: after)) := by
        intro hbad
        have hmore := Chained.of_parts (run ++ [equality]) (part ++ link :: after) [] hbad
        exact hunchained (by simpa using hmore)
      rw [length_kinds_append] at hlength
      have hshorter :
          (equality.read ++ (part ++ link :: after).flatMap Link.kinds).length ≤ bound + 1 := by
        omega
      have hright : FailsAt depth _ _ (second.mark :: rest) _ :=
        secondOperator Precedence.comparison_readBy .term hequalities hothers hbefore hafter
          hothersUnchained hlink hsecond hshorter
      have hkinds : read ++ (run ++ equality :: (part ++ link :: after)).flatMap Link.kinds
          = (read ++ run.flatMap Link.kinds) ++ equality.operator.mark ::
            (equality.read ++ (part ++ link :: after).flatMap Link.kinds) := by
        simp [Link.kinds]
      rw [hkinds]
      refine singleRight Precedence.equality_readBy (fun more hmore ↦ ?_) hequality hright
      exact (Takes.sequence .comparison hfirst hruns
        (fun other hother ↦ hlooser other (List.mem_append_left _ hother)) hrunUnchained (by omega)
        hmore).mono fun _ _ ↦ trivial
    · obtain ⟨⟨hequality, -⟩, hgroups⟩ := List.forall_mem_cons.mp hgroups
      obtain ⟨⟨hother, -⟩, -⟩ := List.forall_mem_cons.mp hgroups
      have hwhole : ¬Chained (Link.operators (run ++ equality :: part ++ other.1 ::
          (other.2 ++ ungroup groups ++ link :: after))) := by
        simpa [ungroup] using hunchained
      exact ((not_both_of_not_chained hwhole).1 ⟨hequality, hother⟩).elim

end Sequences

end Parse

end Lox
