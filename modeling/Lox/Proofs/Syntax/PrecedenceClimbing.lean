import Lox.Proofs.Syntax.ChainedOperators
import Lox.Proofs.Syntax.Totality
import Mathlib.Data.List.Induction

/-!
# Precedence climbing

The levels of binary operators can be read by a single loop, `Parse.climb`. It is given the least
precedence of the operators that it may take, calls itself for what is on the right of an operator,
with a larger one, and goes on with the result as its left operand. Of the operators that cannot be
chained it keeps the precedence of the one taken last. The loop does at every cursor what the
parsers of the levels do (`Parse.Climbs.binary`).

Both read a sequence of operands with operators between them as its only layered tree, unless an
operator is chained that cannot be. Then they fail at the first one of these
(`Parse.binary_sequence`).
-/

set_option autoImplicit false
set_option relaxedAutoImplicit false

namespace Lox

open Grammar

namespace BinaryOperator

/-- The binary operator that a token writes. -/
def ofToken? : TokenKind → Option BinaryOperator
  | .symbol .equalEqual => some .equal
  | .symbol .bangEqual => some .notEqual
  | .symbol .greater => some .greater
  | .symbol .greaterEqual => some .greaterEqual
  | .symbol .less => some .less
  | .symbol .lessEqual => some .lessEqual
  | .symbol .plus => some .add
  | .symbol .minus => some .subtract
  | .symbol .star => some .multiply
  | .symbol .slash => some .divide
  | _ => none

/-- The operators of a level are those of one precedence. -/
def Grades (ofLevelToken? : TokenKind → Option BinaryOperator) (rank : Nat) : Prop :=
  ∀ kind, ofLevelToken? kind = (ofToken? kind).filter fun operator ↦ operator.precedence = rank

/-- The level of equality has all the operators of precedence 1, and no other ones. -/
theorem grades_equality : Grades ofEqualityToken? 1 := by
  intro kind
  cases kind with
  | symbol mark => cases mark <;> rfl
  | _ => rfl

/-- The level of comparison has those of precedence 2. -/
theorem grades_comparison : Grades ofComparisonToken? 2 := by
  intro kind
  cases kind with
  | symbol mark => cases mark <;> rfl
  | _ => rfl

/-- The level of sums has those of precedence 3. -/
theorem grades_term : Grades ofTermToken? 3 := by
  intro kind
  cases kind with
  | symbol mark => cases mark <;> rfl
  | _ => rfl

/-- The level of products has those of precedence 4. -/
theorem grades_factor : Grades ofFactorToken? 4 := by
  intro kind
  cases kind with
  | symbol mark => cases mark <;> rfl
  | _ => rfl

end BinaryOperator

namespace Parse

/-! ### The loop -/

/-- The precedence to keep behind an operator: its own if it cannot be chained, and else the one
kept before. -/
def kept (operator : BinaryOperator) (last : Option Nat) : Option Nat :=
  if operator.precedence ≤ 2 then some operator.precedence else last

/-- Operators that are at least as tight as a minimum and their right operands, behind a left
operand. -/
def climbFrom (operand : Parse Expr) : Nat → Nat → Option Nat → Expr → Parse Expr
  | 0, _, _, _ => .exhausted
  | bound + 1, minimum, last, left => do
    match ← operator? BinaryOperator.ofToken? with
    | none => pure left
    | some operator =>
      if operator.precedence < minimum then pure left
      else if operator.precedence ≤ 2 ∧ last = some operator.precedence then
        failHere (.chainedOperator operator)
      else
        advance
        let first ← operand
        let right ← climbFrom operand bound (operator.precedence + 1) none first
        climbFrom operand bound minimum (kept operator last) (.joinBinary operator left right)

/-- An operand, and operators with further operands that are at least as tight as a minimum. -/
def climb (operand : Parse Expr) (bound minimum : Nat) : Parse Expr := do
  let first ← operand
  climbFrom operand bound minimum none first

/-- No operator comes next that is as tight as a minimum. -/
def StopsBelow (minimum : Nat) (cursor : Cursor) : Prop :=
  ∀ operator, cursor.next?.bind BinaryOperator.ofToken? = some operator →
    operator.precedence < minimum

/-- What is read behind an operator that has been passed. -/
def climbBehind (operand : Parse Expr) (bound minimum : Nat) (last : Option Nat) (left : Expr)
    (operator : BinaryOperator) : Parse Expr := do
  let right ← climb operand bound (operator.precedence + 1)
  climbFrom operand bound minimum last (.joinBinary operator left right)

section Turns

variable {operand : Parse Expr} {bound minimum : Nat} {last : Option Nat} {left : Expr}
  {first : Cursor} {operator : BinaryOperator}

/-- At every cursor the loop has either to stop or to look at an operator that is tight enough. -/
theorem stopsBelow_or_exists (minimum : Nat) (first : Cursor) : StopsBelow minimum first ∨
    ∃ operator, first.next?.bind BinaryOperator.ofToken? = some operator ∧
      minimum ≤ operator.precedence := by
  by_cases hstops : StopsBelow minimum first
  · exact .inl hstops
  · simp only [StopsBelow, not_forall, Nat.not_lt] at hstops
    obtain ⟨operator, hnext, hle⟩ := hstops
    exact .inr ⟨operator, hnext, hle⟩

theorem run_operator?_bind {ω α : Type} {ofToken? : TokenKind → Option ω}
    {next : Option ω → Parse α} :
    (operator? ofToken? >>= next).run first = (next (first.next?.bind ofToken?)).run first := rfl

/-- If no operator comes next that is tight enough, the loop is done with what it has. -/
theorem run_climbFrom_of_stopsBelow (hstops : StopsBelow minimum first) :
    (climbFrom operand (bound + 1) minimum last left).run first = .done left first := by
  rw [climbFrom, run_operator?_bind]
  cases hnext : first.next?.bind BinaryOperator.ofToken? with
  | none => rfl
  | some operator =>
    simp only [if_pos (hstops operator hnext)]
    rfl

/-- An operator that cannot be chained makes the loop fail at its own place if one of the same
precedence was the last of this kind. -/
theorem run_climbFrom_of_chained
    (hnext : first.next?.bind BinaryOperator.ofToken? = some operator)
    (hle : minimum ≤ operator.precedence)
    (hchained : operator.precedence ≤ 2 ∧ last = some operator.precedence) :
    (climbFrom operand (bound + 1) minimum last left).run first
      = .failed ⟨.chainedOperator operator, first.place⟩ first := by
  rw [climbFrom, run_operator?_bind]
  simp only [hnext, if_neg (Nat.not_lt_of_le hle), if_pos hchained]
  rfl

/-- Any other operator is passed, and the loop goes on with its right operand. -/
theorem run_climbFrom_of_next
    (hnext : first.next?.bind BinaryOperator.ofToken? = some operator)
    (hle : minimum ≤ operator.precedence)
    (hchained : ¬(operator.precedence ≤ 2 ∧ last = some operator.precedence)) :
    (climbFrom operand (bound + 1) minimum last left).run first
      = (climbBehind operand bound minimum (kept operator last) left operator).run
        first.advance := by
  rw [climbFrom, run_operator?_bind, climbBehind, climb, bind_assoc]
  simp only [hnext, if_neg (Nat.not_lt_of_le hle), if_neg hchained]
  rfl

/-- The same for a loop that something else is behind, which is how the levels are read. -/
theorem run_climbFrom_bind_of_stopsBelow {next : Expr → Parse Expr}
    (hstops : StopsBelow minimum first) :
    (climbFrom operand (bound + 1) minimum last left >>= next).run first = (next left).run first :=
  Bounded.run_bind_of_done (run_climbFrom_of_stopsBelow hstops)

theorem run_climbFrom_bind_of_chained {next : Expr → Parse Expr}
    (hnext : first.next?.bind BinaryOperator.ofToken? = some operator)
    (hle : minimum ≤ operator.precedence)
    (hchained : operator.precedence ≤ 2 ∧ last = some operator.precedence) :
    (climbFrom operand (bound + 1) minimum last left >>= next).run first
      = .failed ⟨.chainedOperator operator, first.place⟩ first := by
  rw [Bounded.run_bind, run_climbFrom_of_chained hnext hle hchained]

theorem run_climbFrom_bind_of_next {next : Expr → Parse Expr}
    (hnext : first.next?.bind BinaryOperator.ofToken? = some operator)
    (hle : minimum ≤ operator.precedence)
    (hchained : ¬(operator.precedence ≤ 2 ∧ last = some operator.precedence)) :
    (climbFrom operand (bound + 1) minimum last left >>= next).run first
      = (climbBehind operand bound minimum (kept operator last) left operator >>= next).run
        first.advance := by
  rw [Bounded.run_bind, run_climbFrom_of_next hnext hle hchained, Bounded.run_bind]

end Turns

/-! ### Parsers that do the same -/

/-- From a cursor a parser passes tokens up to where no operator comes next that is as tight as a
minimum, or it fails. -/
def EndsBelow (minimum : Nat) (first : Cursor) (parse : Parse Expr) : Prop :=
  (∃ value last, parse.run first = .done value last ∧ last.rest <:+ first.rest ∧
    StopsBelow minimum last) ∨
  ∃ error last, parse.run first = .failed error last ∧ last.rest <:+ first.rest

/-- From a cursor two parsers do the same, and no operator comes next that is as tight as a minimum
when they are done. -/
structure SameBelow (minimum : Nat) (first : Cursor) (parse parse' : Parse Expr) : Prop where
  run_eq : parse.run first = parse'.run first
  ends : EndsBelow minimum first parse

namespace SameBelow

variable {minimum other : Nat} {first middle : Cursor} {parse parse' further further' : Parse Expr}
  {next next' : Expr → Parse Expr} {value : Expr} {error : SyntaxError}

/-- Doing the same is transitive, and only the first of the parsers has to be known to end well. -/
theorem trans {last : Parse Expr} (hparse : SameBelow minimum first parse parse')
    (hlast : SameBelow minimum first parse' last) : SameBelow minimum first parse last :=
  ⟨hparse.run_eq.trans hlast.run_eq, hparse.ends⟩

/-- It is symmetric as well, since parsers that do the same end at the same cursor. -/
theorem symm (hparse : SameBelow minimum first parse parse') :
    SameBelow minimum first parse' parse := by
  refine ⟨hparse.run_eq.symm, ?_⟩
  unfold EndsBelow
  rw [← hparse.run_eq]
  exact hparse.ends

/-- Parsers do the same if both of them yield a value where they stand, and no operator comes next
that is tight enough. -/
theorem done (hrun : parse.run first = .done value first)
    (hrun' : parse'.run first = .done value first) (hstops : StopsBelow minimum first) :
    SameBelow minimum first parse parse' :=
  ⟨hrun.trans hrun'.symm, .inl ⟨value, first, hrun, List.suffix_refl _, hstops⟩⟩

/-- They do the same if both of them fail where they stand. -/
theorem failed (hrun : parse.run first = .failed error first)
    (hrun' : parse'.run first = .failed error first) : SameBelow minimum first parse parse' :=
  ⟨hrun.trans hrun'.symm, .inr ⟨error, first, hrun, List.suffix_refl _⟩⟩

/-- Parsers that go on as others do from a later cursor. -/
theorem later (hrun : parse.run first = further.run middle)
    (hrun' : parse'.run first = further'.run middle) (hsuffix : middle.rest <:+ first.rest)
    (hfurther : SameBelow minimum middle further further') :
    SameBelow minimum first parse parse' := by
  refine ⟨hrun.trans (hfurther.run_eq.trans hrun'.symm), ?_⟩
  rcases hfurther.ends with ⟨value, last, hdone, hlast, hstops⟩ | ⟨error, last, hfailed, hlast⟩
  · exact .inl ⟨value, last, hrun.trans hdone, hlast.trans hsuffix, hstops⟩
  · exact .inr ⟨error, last, hrun.trans hfailed, hlast.trans hsuffix⟩

/-- Parsers that are done in the same way may go on with others that do the same from there. The
tokens that are left are an end of those from before, which keeps them within the limit. -/
theorem bind (hparse : SameBelow other first parse parse')
    (hnext : ∀ value middle, middle.rest <:+ first.rest → StopsBelow other middle →
      SameBelow minimum middle (next value) (next' value)) :
    SameBelow minimum first (parse >>= next) (parse' >>= next') := by
  have hrun' := hparse.run_eq
  rcases hparse.ends with ⟨value, middle, hrun, hsuffix, hstops⟩ | ⟨error, last, hrun, hsuffix⟩
  · rw [hrun] at hrun'
    exact later (Bounded.run_bind_of_done hrun) (Bounded.run_bind_of_done hrun'.symm) hsuffix
      (hnext value middle hsuffix hstops)
  · rw [hrun] at hrun'
    have hfailed : (parse >>= next).run first = .failed error last := by
      rw [Bounded.run_bind, hrun]
    have hfailed' : (parse' >>= next').run first = .failed error last := by
      rw [Bounded.run_bind, ← hrun']
    exact ⟨hfailed.trans hfailed'.symm, .inr ⟨error, last, hfailed, hsuffix⟩⟩

end SameBelow

section Climbing

variable {operand : Parse Expr} {limit : Nat} {first : Cursor}

/-- An operand ends well wherever fewer tokens are left than a limit says. -/
def OperandEnds (limit : Nat) (operand : Parse Expr) : Prop :=
  ∀ first : Cursor, first.rest.length < limit → SameBelow 5 first operand operand

/-- Every operator is looser than an operand. -/
theorem operandEnds_unary (bound : Nat) :
    OperandEnds (bound + 1) (unary (expression bound) (bound + 1)) := by
  intro first hlimit
  have hstops (last : Cursor) : StopsBelow 5 last := fun operator _ ↦ by cases operator <;> decide
  have hfits : Likeness.same.Fits (bound + 1) (bound + 1) first first := ⟨rfl, hlimit, hlimit⟩
  refine ⟨rfl, ?_⟩
  rcases Likeness.same_heldBySteps.unary (Likeness.same_heldBySteps.expression bound bound) hfits
    hfits with ⟨value, _, last, _, hrun, -, hfollow, -⟩ | ⟨error, _, last, _, hrun, -, hfollow, -⟩
  · exact .inl ⟨value, last, hrun, hfollow.suffix, hstops last⟩
  · exact .inr ⟨error, last, hrun, hfollow.suffix⟩

/-- Any bound beyond the number of tokens is enough. -/
theorem climbFrom_same (hoperand : OperandEnds limit operand) {bound bound' minimum : Nat}
    {last : Option Nat} {left : Expr} (hlimit : first.rest.length < limit)
    (hbound : first.rest.length < bound) (hbound' : first.rest.length < bound') :
    SameBelow minimum first (climbFrom operand bound minimum last left)
      (climbFrom operand bound' minimum last left) := by
  induction bound generalizing bound' minimum last left first with
  | zero => exact absurd hbound (Nat.not_lt_zero _)
  | succ bound ih =>
    obtain ⟨bound', rfl⟩ : ∃ smaller, bound' = smaller + 1 := ⟨bound' - 1, by omega⟩
    rcases stopsBelow_or_exists minimum first with hstops | ⟨operator, hnext, hle⟩
    · exact .done (run_climbFrom_of_stopsBelow hstops) (run_climbFrom_of_stopsBelow hstops) hstops
    · by_cases hchained : operator.precedence ≤ 2 ∧ last = some operator.precedence
      · exact .failed (run_climbFrom_of_chained hnext hle hchained)
          (run_climbFrom_of_chained hnext hle hchained)
      · obtain ⟨kind, hkind, -⟩ := Option.bind_eq_some_iff.mp hnext
        have hlength := Cursor.length_rest_advance hkind
        have hright : SameBelow (operator.precedence + 1) first.advance
            (climb operand bound (operator.precedence + 1))
            (climb operand bound' (operator.precedence + 1)) := by
          refine (hoperand _ (by omega)).bind fun value middle hsuffix _ ↦ ?_
          have hfewer := hsuffix.length_le
          exact ih (by omega) (by omega) (by omega)
        refine .later (run_climbFrom_of_next hnext hle hchained)
          (run_climbFrom_of_next hnext hle hchained) first.suffix_advance
          (hright.bind fun right middle hsuffix _ ↦ ?_)
        have hfewer := hsuffix.length_le
        exact ih (by omega) (by omega) (by omega)

/-- Any two bounds larger than the number of the tokens that are left do for the loop. -/
theorem climb_same (hoperand : OperandEnds limit operand) {bound bound' minimum : Nat}
    (hlimit : first.rest.length < limit) (hbound : first.rest.length < bound)
    (hbound' : first.rest.length < bound') :
    SameBelow minimum first (climb operand bound minimum) (climb operand bound' minimum) := by
  refine (hoperand _ hlimit).bind fun value middle hsuffix _ ↦ ?_
  have hfewer := hsuffix.length_le
  exact climbFrom_same hoperand (by omega) (by omega) (by omega)

/-- The same for what is read behind an operator. -/
theorem climbBehind_same (hoperand : OperandEnds limit operand) {bound bound' minimum : Nat}
    {last : Option Nat} {left : Expr} {operator : BinaryOperator}
    (hlimit : first.rest.length < limit) (hbound : first.rest.length < bound)
    (hbound' : first.rest.length < bound') :
    SameBelow minimum first (climbBehind operand bound minimum last left operator)
      (climbBehind operand bound' minimum last left operator) := by
  refine (climb_same hoperand hlimit hbound hbound').bind fun value middle hsuffix _ ↦ ?_
  have hfewer := hsuffix.length_le
  exact climbFrom_same hoperand (by omega) (by omega) (by omega)

/-- The operators down to a minimum are those that are tighter and then the others. What is kept is
of no use to the others, for it is none of their level. When the tighter operators are over, the
others begin. -/
theorem climbFrom_split (hoperand : OperandEnds limit operand) {bound inner outer minimum : Nat}
    {last : Option Nat} {left : Expr} (hlast : last ≠ some minimum)
    (hkept : last = none ∨ minimum ≤ 2) (hlimit : first.rest.length < limit)
    (hbound : first.rest.length < bound) (hinner : first.rest.length < inner)
    (houter : first.rest.length < outer) :
    SameBelow minimum first (climbFrom operand bound minimum last left)
      (climbFrom operand inner (minimum + 1) last left >>=
        climbFrom operand outer minimum none) := by
  induction bound generalizing inner outer last left first with
  | zero => exact absurd hbound (Nat.not_lt_zero _)
  | succ bound ih =>
    obtain ⟨inner, rfl⟩ : ∃ smaller, inner = smaller + 1 := ⟨inner - 1, by omega⟩
    rcases stopsBelow_or_exists (minimum + 1) first with htighter | ⟨operator, hnext, hle⟩
    · obtain ⟨outer, rfl⟩ : ∃ smaller, outer = smaller + 1 := ⟨outer - 1, by omega⟩
      refine .later rfl (run_climbFrom_bind_of_stopsBelow htighter) (List.suffix_refl _) ?_
      rcases stopsBelow_or_exists minimum first with hstops | ⟨operator, hnext, hle⟩
      · exact .done (run_climbFrom_of_stopsBelow hstops) (run_climbFrom_of_stopsBelow hstops) hstops
      · obtain rfl : operator.precedence = minimum :=
          Nat.le_antisymm (Nat.le_of_lt_succ (htighter operator hnext)) hle
        have hsame : kept operator last = kept operator none := by
          unfold kept
          split
          · rfl
          · exact hkept.resolve_right (by assumption)
        have hrun : (climbFrom operand (bound + 1) operator.precedence last left).run first
            = (climbBehind operand bound operator.precedence (kept operator none) left
              operator).run first.advance := by
          rw [← hsame]
          exact run_climbFrom_of_next hnext hle fun hchained ↦ hlast hchained.2
        obtain ⟨kind, hkind, -⟩ := Option.bind_eq_some_iff.mp hnext
        have hlength := Cursor.length_rest_advance hkind
        exact .later hrun (run_climbFrom_of_next hnext hle (by simp)) first.suffix_advance
          (climbBehind_same hoperand (by omega) (by omega) (by omega))
    · have hle' : minimum ≤ operator.precedence := Nat.le_of_succ_le hle
      by_cases hchained : operator.precedence ≤ 2 ∧ last = some operator.precedence
      · exact .failed (run_climbFrom_of_chained hnext hle' hchained)
          (run_climbFrom_bind_of_chained hnext hle hchained)
      · obtain ⟨kind, hkind, -⟩ := Option.bind_eq_some_iff.mp hnext
        have hlength := Cursor.length_rest_advance hkind
        refine .later (run_climbFrom_of_next hnext hle' hchained)
          (run_climbFrom_bind_of_next hnext hle hchained) first.suffix_advance ?_
        rw [climbBehind, climbBehind, bind_assoc]
        have hright : SameBelow (operator.precedence + 1) first.advance
            (climb operand bound (operator.precedence + 1))
            (climb operand inner (operator.precedence + 1)) :=
          climb_same hoperand (by omega) (by omega) (by omega)
        refine hright.bind fun right middle hsuffix _ ↦ ?_
        have hfewer := hsuffix.length_le
        refine ih ?_ ?_ (by omega) (by omega) (by omega) (by omega)
        · unfold kept
          split
          · simp only [ne_eq, Option.some.injEq]
            omega
          · exact hlast
        · unfold kept
          split
          · exact .inr (by omega)
          · exact hkept

/-! ### The levels -/

/-- A parser does what the loop does with a least precedence, wherever fewer tokens are left than a
limit says. -/
def Climbs (operand : Parse Expr) (limit rank : Nat) (parse : Parse Expr) : Prop :=
  ∀ bound (first : Cursor), first.rest.length < limit → first.rest.length < bound →
    SameBelow rank first parse (climb operand bound rank)

namespace Climbs

variable {rank : Nat} {parse : Parse Expr} {tail : Expr → Parse Expr}
  {ofToken? : TokenKind → Option BinaryOperator}

/-- What is behind the tighter operators does what the loop does with the others. -/
theorem of_tail (hoperand : OperandEnds limit operand)
    (hparse : Climbs operand limit (rank + 1) parse)
    (htail : ∀ bound left (middle : Cursor), middle.rest.length < limit →
      middle.rest.length < bound → StopsBelow (rank + 1) middle →
        SameBelow rank middle (tail left) (climbFrom operand bound rank none left)) :
    Climbs operand limit rank (parse >>= tail) := by
  intro bound first hlimit hbound
  have hsplit : SameBelow rank first (climb operand bound rank)
      (climb operand bound (rank + 1) >>= climbFrom operand bound rank none) := by
    unfold climb
    rw [bind_assoc]
    refine (hoperand first hlimit).bind fun left middle hsuffix _ ↦ ?_
    have hfewer := hsuffix.length_le
    exact climbFrom_split hoperand (by simp) (.inl rfl) (by omega) (by omega) (by omega) (by omega)
  refine .trans ((hparse bound first hlimit hbound).bind fun left middle hsuffix hstops ↦ ?_)
    hsplit.symm
  have hfewer := hsuffix.length_le
  exact htail bound left middle (by omega) (by omega) hstops

/-- Where no tighter operator comes next, none comes, or one of the level. -/
theorem operator?_cases (hgrades : BinaryOperator.Grades ofToken? rank) {first : Cursor}
    (htighter : StopsBelow (rank + 1) first) :
    (StopsBelow rank first ∧ first.next?.bind ofToken? = none) ∨
      ∃ operator, first.next?.bind BinaryOperator.ofToken? = some operator ∧
        operator.precedence = rank ∧ first.next?.bind ofToken? = some operator := by
  have hlevel : first.next?.bind ofToken? = (first.next?.bind BinaryOperator.ofToken?).filter
      fun operator ↦ operator.precedence = rank := by
    cases first.next? with
    | none => rfl
    | some kind => exact hgrades kind
  cases hnext : first.next?.bind BinaryOperator.ofToken? with
  | none =>
    rw [hnext] at hlevel
    exact .inl ⟨fun operator hoperator ↦ by simp [hnext] at hoperator, hlevel⟩
  | some operator =>
    rw [hnext] at hlevel
    by_cases hrank : operator.precedence = rank
    · exact .inr ⟨operator, rfl, hrank, by simpa [Option.filter, hrank] using hlevel⟩
    · refine .inl ⟨fun second hsecond ↦ ?_, by simpa [Option.filter, hrank] using hlevel⟩
      obtain rfl := Option.some.inj (hnext.symm.trans hsecond)
      exact Nat.lt_of_le_of_ne (Nat.le_of_lt_succ (htighter operator hnext)) hrank

/-- A level with any number of operators. -/
theorem chain (hoperand : OperandEnds limit operand)
    (hparse : Climbs operand limit (rank + 1) parse)
    (hgrades : BinaryOperator.Grades ofToken? rank) (hrank : 2 < rank) {length : Nat}
    (hlength : limit ≤ length) :
    Climbs operand limit rank (chain ofToken? Expr.joinBinary length parse) := by
  refine .of_tail hoperand hparse fun bound left middle hlimit hbound htighter ↦ ?_
  replace hlength := Nat.lt_of_lt_of_le hlimit hlength
  induction length generalizing bound left middle with
  | zero => exact absurd hlength (Nat.not_lt_zero _)
  | succ length ih =>
    obtain ⟨bound, rfl⟩ : ∃ smaller, bound = smaller + 1 := ⟨bound - 1, by omega⟩
    rcases operator?_cases hgrades htighter with ⟨hstops, hnone⟩ | ⟨operator, hnext, rfl, hfound⟩
    · refine .done ?_ (run_climbFrom_of_stopsBelow hstops) hstops
      rw [chainFrom, run_operator?_bind, hnone]
      rfl
    · obtain ⟨kind, hkind, -⟩ := Option.bind_eq_some_iff.mp hnext
      have hfewer := Cursor.length_rest_advance hkind
      have hrun : (chainFrom ofToken? Expr.joinBinary parse (length + 1) left).run middle
          = (parse >>= fun right ↦ chainFrom ofToken? Expr.joinBinary parse length
              (.joinBinary operator left right)).run middle.advance := by
        rw [chainFrom, run_operator?_bind, hfound]
        rfl
      refine .later hrun (run_climbFrom_of_next hnext (Nat.le_refl _) (by simp))
        middle.suffix_advance ?_
      have hkept : kept operator none = none := if_neg (Nat.not_le_of_lt hrank)
      rw [hkept]
      refine (hparse bound _ (by omega) (by omega)).bind fun right last hsuffix hstops ↦ ?_
      have hshorter := hsuffix.length_le
      exact ih bound _ last (by omega) (by omega) hstops (by omega)

/-- A level with one operator at most. -/
theorem single (hoperand : OperandEnds limit operand)
    (hparse : Climbs operand limit (rank + 1) parse)
    (hgrades : BinaryOperator.Grades ofToken? rank) (hrank : rank ≤ 2) :
    Climbs operand limit rank (single ofToken? parse) := by
  refine .of_tail hoperand hparse fun bound left middle hlimit hbound htighter ↦ ?_
  obtain ⟨bound, rfl⟩ : ∃ smaller, bound = smaller + 1 := ⟨bound - 1, by omega⟩
  rcases operator?_cases hgrades htighter with ⟨hstops, hnone⟩ | ⟨operator, hnext, rfl, hfound⟩
  · refine .done ?_ (run_climbFrom_of_stopsBelow hstops) hstops
    rw [run_operator?_bind, hnone]
    rfl
  · obtain ⟨kind, hkind, -⟩ := Option.bind_eq_some_iff.mp hnext
    have hfewer := Cursor.length_rest_advance hkind
    have hpassed : SameBelow operator.precedence middle.advance
        (parse >>= fun right ↦ operator? ofToken? >>= fun second ↦
          match second with
          | none => pure (.joinBinary operator left right)
          | some second => failHere (.chainedOperator second))
        (climbBehind operand bound operator.precedence (kept operator none) left operator) := by
      have hkept : kept operator none = some operator.precedence := if_pos hrank
      rw [hkept]
      refine (hparse bound _ (by omega) (by omega)).bind fun right last hsuffix hstops ↦ ?_
      have hshorter := hsuffix.length_le
      obtain ⟨bound, rfl⟩ : ∃ smaller, bound = smaller + 1 := ⟨bound - 1, by omega⟩
      rcases operator?_cases hgrades hstops with ⟨hstops, hnone⟩ | ⟨second, hsecond, heq, hmore⟩
      · refine .done ?_ (run_climbFrom_of_stopsBelow hstops) hstops
        rw [run_operator?_bind, hnone]
        rfl
      · have hchained : second.precedence ≤ 2 ∧
            some operator.precedence = some second.precedence := ⟨by omega, by rw [heq]⟩
        refine .failed ?_ (run_climbFrom_of_chained hsecond (Nat.le_of_eq heq.symm) hchained)
        rw [run_operator?_bind, hmore]
        rfl
    refine .later ?_ (run_climbFrom_of_next hnext (Nat.le_refl _) (by simp)) middle.suffix_advance
      hpassed
    rw [run_operator?_bind, hfound]
    rfl

/-- An operand alone. -/
theorem alone (hoperand : OperandEnds limit operand) : Climbs operand limit 5 operand := by
  intro bound first hlimit hbound
  obtain ⟨bound, rfl⟩ : ∃ smaller, bound = smaller + 1 := ⟨bound - 1, by omega⟩
  have hdone : SameBelow 5 first (operand >>= pure) (climb operand (bound + 1) 5) :=
    (hoperand first hlimit).bind fun left middle hsuffix hstops ↦
      .done rfl (run_climbFrom_of_stopsBelow hstops) hstops
  rwa [bind_pure] at hdone

/-- The parsers of the levels are the loop. No operator is looser than an equality, so nothing is
left behind it. -/
theorem binary (bound : Nat) :
    Climbs (Parse.unary (expression bound) (bound + 1)) (bound + 1) 0
      (Parse.binary (expression bound) (bound + 1)) := by
  have hoperand := operandEnds_unary bound
  have hfactor := chain hoperand (alone hoperand) BinaryOperator.grades_factor (by omega)
    (Nat.le_refl _)
  have hterm := chain hoperand hfactor BinaryOperator.grades_term (by omega) (Nat.le_refl _)
  have hcomparison := single hoperand hterm BinaryOperator.grades_comparison (Nat.le_refl _)
  have hequality := single hoperand hcomparison BinaryOperator.grades_equality (by omega)
  have hwhole : Climbs (Parse.unary (expression bound) (bound + 1)) (bound + 1) 0
      (Parse.binary (expression bound) (bound + 1) >>= pure) := by
    refine .of_tail hoperand hequality fun length left middle _ hlength hstops ↦ ?_
    obtain ⟨length, rfl⟩ : ∃ smaller, length = smaller + 1 := ⟨length - 1, by omega⟩
    have hnone : StopsBelow 0 middle := fun operator hoperator ↦
      absurd (hstops operator hoperator) (Nat.not_lt_of_le operator.one_le_precedence)
    exact .done rfl (run_climbFrom_of_stopsBelow hnone) hnone
  rwa [bind_pure] at hwhole

end Climbs

end Climbing

/-! ### Sequences -/

/-- Nothing comes next that goes on with a sequence: no operator, and neither of the tokens that go
on with an operand. -/
def EndsSequence (rest : List TokenKind) : Prop :=
  ∀ kind ∈ rest.head?, BinaryOperator.ofToken? kind = none ∧ kind ≠ .symbol .leftParenthesis ∧
    kind ≠ .symbol .dot

/-- Where a sequence ends, the grammar may end an expression of the level of equality. -/
theorem EndsSequence.endsBefore {rest : List TokenKind} (hrest : EndsSequence rest) :
    (Level.operators .equality).EndsBefore rest := by
  intro kind hkind
  obtain ⟨hoperator, hcall, hproperty⟩ := hrest kind hkind
  cases kind with
  | symbol mark => cases mark <;> first | contradiction | decide
  | keyword word => cases word <;> decide
  | _ => exact (by decide : 5 < 9)

/-- A list of operators in which one is chained that cannot be has a first such operator. -/
theorem exists_first_chained {links : List Link} (hchained : Chained (Link.operators links)) :
    ∃ before culprit after, links = before ++ culprit :: after ∧
      ¬Chained (Link.operators before) ∧ Chained (Link.operators before ++ [culprit.operator]) := by
  induction links using List.reverseRecOn with
  | nil =>
    obtain ⟨before, first, between, second, after, hsplit, -⟩ := hchained
    simp [Link.operators] at hsplit
  | append_singleton links link ih =>
    by_cases hbefore : Chained (Link.operators links)
    · obtain ⟨before, culprit, after, rfl, hculprit⟩ := ih hbefore
      exact ⟨before, culprit, after ++ [link], by simp, hculprit⟩
    · exact ⟨links, link, [], rfl, hbefore, by simpa [Link.operators] using hchained⟩

/-- Operands with binary operators between them, where nothing comes behind them that would go on
with the last one. The loop for all operators does what the parsers of the levels do. If there is
one equality at most, and between two comparisons always an equality, all is read, as the only tree
that has the operands and operators in this order, looser operators above tighter ones and of equal
ones the last above the others. Otherwise reading fails at the first operator up to which this does
not hold, with a message that names the operator. -/
theorem binary_sequence {bound : Nat} {first : Cursor} {read rest : List TokenKind}
    {operand : Expr} {links : List Link} (hoperand : Expression .unary read operand)
    (hlinks : ∀ link ∈ links, Expression .unary link.read link.operand)
    (hrest : EndsSequence rest) (hkinds : first.kinds = read ++ links.flatMap Link.kinds ++ rest)
    (hbound : first.rest.length ≤ bound) :
    (climb (unary (expression bound) (bound + 1)) (bound + 1) 0).run first
        = (binary (expression bound) (bound + 1)).run first ∧
    (¬Chained (Link.operators links) → ∃ value last,
      (binary (expression bound) (bound + 1)).run first = .done value last ∧
      first.Passes (read ++ links.flatMap Link.kinds) last ∧
      value.eraseSpans.Arranges operand links ∧
      ∀ tree : Expr, tree.eraseSpans.Arranges operand links →
        tree.eraseSpans = value.eraseSpans) ∧
    (Chained (Link.operators links) → ∃ before culprit after passed token others last,
      links = before ++ culprit :: after ∧ ¬Chained (Link.operators before) ∧
      Chained (Link.operators before ++ [culprit.operator]) ∧
      first.rest = passed ++ token :: others ∧
      passed.map Token.kind = read ++ before.flatMap Link.kinds ∧
      token.kind = culprit.operator.mark ∧
      (binary (expression bound) (bound + 1)).run first
        = .failed ⟨.chainedOperator culprit.operator, token.span⟩ last ∧
      (SyntaxCause.chainedOperator culprit.operator).message
        = "`" ++ culprit.operator.text ++ "` cannot be chained") := by
  have hlength : (read ++ links.flatMap Link.kinds).length ≤ bound + 1 := by
    have hall := congrArg List.length hkinds
    rw [Cursor.kinds, List.length_map, List.length_append] at hall
    omega
  have hclimbs := Climbs.binary bound (bound + 1) first (Nat.lt_succ_of_le hbound)
    (Nat.lt_succ_of_le hbound)
  refine ⟨hclimbs.run_eq.symm, fun hunchained ↦ ?_, fun hchained ↦ ?_⟩
  · have hranks : ∀ link ∈ links, 1 ≤ link.operator.precedence :=
      fun link _ ↦ link.operator.one_le_precedence
    obtain ⟨value, last, hrun, hpasses, harranges⟩ :=
      Takes.sequence Level.WritesLinks.equality hoperand hlinks hranks hunchained hlength
        hrest.endsBefore first hkinds rfl
    refine ⟨value, last, hrun, hpasses, harranges, fun tree htree ↦ ?_⟩
    exact Expr.eq_of_sequence_eq htree.isLayered harranges.isLayered
      (htree.sequence_eq.trans harranges.sequence_eq.symm)
  · obtain ⟨before, culprit, after, rfl, hbefore, hculprit⟩ := exists_first_chained hchained
    obtain ⟨hbefores, -⟩ := List.forall_mem_append.mp hlinks
    have hsplit : first.kinds = (read ++ before.flatMap Link.kinds) ++
        culprit.operator.mark :: (culprit.read ++ after.flatMap Link.kinds ++ rest) := by
      rw [hkinds]
      simp [Link.kinds]
    have hshorter : (read ++ before.flatMap Link.kinds).length ≤ bound + 1 := by
      rw [length_kinds_append] at hlength
      omega
    obtain ⟨last, hrun, hpasses⟩ :=
      FailsAt.chained hoperand hbefores hbefore hculprit hshorter first hsplit rfl
    have hsuffix : last.rest <:+ first.rest := by
      rcases hclimbs.ends with ⟨value, last', hdone, -⟩ | ⟨error, last', hfailed, hsuffix⟩
      · cases hrun.symm.trans hdone
      · cases hrun.symm.trans hfailed
        exact hsuffix
    obtain ⟨passed, hpassed⟩ := hsuffix
    have hnext : last.kinds
        = culprit.operator.mark :: (culprit.read ++ after.flatMap Link.kinds ++ rest) :=
      List.append_cancel_left (hpasses.kinds_eq.symm.trans hsplit)
    obtain ⟨token, others, hothers, hkind, -⟩ := List.map_eq_cons_iff.mp hnext
    rw [hothers] at hpassed
    refine ⟨before, culprit, after, passed, token, others, last, rfl, hbefore, hculprit,
      hpassed.symm, ?_, hkind, ?_, rfl⟩
    · have hread := hpasses.kinds_eq
      rw [Cursor.kinds, Cursor.kinds, ← hpassed, hothers, List.map_append] at hread
      exact List.append_cancel_right hread
    · rw [hrun, Cursor.place, hothers]

/-- The tokens of `a == b < c == d;`. -/
def twoEqualities : List Token :=
  [⟨.identifier "a", ⟨0, 1⟩⟩, ⟨.symbol .equalEqual, ⟨2, 4⟩⟩, ⟨.identifier "b", ⟨5, 6⟩⟩,
    ⟨.symbol .less, ⟨7, 8⟩⟩, ⟨.identifier "c", ⟨9, 10⟩⟩, ⟨.symbol .equalEqual, ⟨11, 13⟩⟩,
    ⟨.identifier "d", ⟨14, 15⟩⟩, ⟨.symbol .semicolon, ⟨15, 16⟩⟩, ⟨.endOfInput, ⟨16, 16⟩⟩]

/-- The second equality is chained, although a comparison stands between the two. Neither of the
operators before it is. -/
theorem binary_sequence_two_equalities :
    ∃ last, (binary (expression 9) 10).run (.start twoEqualities)
      = .failed ⟨.chainedOperator .equal, ⟨11, 13⟩⟩ last := by
  have hname (name : String) : Expression .unary [.identifier name] (.name ⟨name, .origin⟩) :=
    .operand (show Expression .call ([.identifier name] ++ [].flatMap argumentKinds)
      ([].foldl callWith _) from .call (.name name) (by simp) (by simp))
  have hlinks : ∀ link ∈ [(⟨.equal, [.identifier "b"], .name ⟨"b", .origin⟩⟩ : Link),
      ⟨.less, [.identifier "c"], .name ⟨"c", .origin⟩⟩,
      ⟨.equal, [.identifier "d"], .name ⟨"d", .origin⟩⟩],
      Expression .unary link.read link.operand := by
    simp [hname]
  have hrest : EndsSequence [.symbol .semicolon, .endOfInput] := by
    rintro kind ⟨⟩
    decide
  obtain ⟨-, -, hfails⟩ := @binary_sequence 9 (.start twoEqualities) [.identifier "a"]
    [.symbol .semicolon, .endOfInput] _ _ (hname "a") hlinks hrest rfl (by decide)
  obtain ⟨before, culprit, after, passed, token, others, last, hsplit, -, hculprit, htokens,
    hpassed, -, hrun, -⟩ := hfails (by decide)
  rcases before with _ | ⟨equality, _ | ⟨comparison, _ | ⟨other, before⟩⟩⟩
  · cases hsplit
    exact absurd hculprit (by decide)
  · cases hsplit
    exact absurd hculprit (by decide)
  · cases hsplit
    have hlength : passed.length = 5 := by
      simpa [Link.kinds] using congrArg List.length hpassed
    have hfifth : (passed ++ token :: others)[5]? = some token := by
      rw [← hlength]
      simp
    rw [← htokens] at hfifth
    cases hfifth
    exact ⟨last, hrun⟩
  · simp at hsplit

end Parse

end Lox
