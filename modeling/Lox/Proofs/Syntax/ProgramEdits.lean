import Lox.Proofs.Syntax.NearestElse
import Mathlib.Logic.Relation

/-!
# Edits that keep a program a program

Statements stand in slots: in lists of statements, at the top level, in blocks and in the bodies of
functions, and as the bodies of conditionals and loops. `Slot.Holds` says which tokens may stand in
one, and `Around` which tokens stand around a slot that lies within another one, however deep.

`Edit` changes a program in a slot. Statements of a list are wrapped in the body of a new function,
which may be done anywhere, because what may stand outside of functions may stand inside as well
(`Statement.intoFunction`); a `return` is put into a list in the body of a function; and the body of
a conditional or of a loop is put in braces, which makes it a list. The tokens that come about are a
program again (`Edit.holds`).
-/

set_option autoImplicit false
set_option relaxedAutoImplicit false

namespace Lox

namespace Grammar

/-- An expression without binary operators is one on every level. -/
theorem Expression.ofUnary {read : List TokenKind} {tree : Expr}
    (hunary : Expression .unary read tree) : Expression .assignment read tree := by
  have hlevel (precedence : Precedence) (hoperand : Expression precedence.operand read tree) :
      Expression (.operators precedence) read tree := by
    simpa using @Expression.operators precedence read tree [] hoperand (by simp) (by simp) (by simp)
  have hsum := hlevel .term (hlevel .factor hunary)
  have hequality := hlevel .equality (hlevel .comparison hsum)
  exact .value (hlevel .logicOr (hlevel .logicAnd hequality))

/-- A primary expression takes part in calls and operators as it stands. -/
theorem Expression.unaryOfPrimary {read : List TokenKind} {tree : Expr}
    (hprimary : Expression .primary read tree) : Expression .unary read tree := by
  have hcall : Expression .call read tree := by
    simpa using @Expression.call read tree [] hprimary (by simp) (by simp)
  exact .operand hcall

/-- A primary expression is an expression without operators on every level. -/
theorem Expression.ofPrimary {read : List TokenKind} {tree : Expr}
    (hprimary : Expression .primary read tree) : Expression .assignment read tree :=
  hprimary.unaryOfPrimary.ofUnary

/-- A statement that may stand outside of functions may stand inside. -/
theorem Statement.intoFunction {nearest inFunction closed : Bool} {place : StatementPlace}
    {read : List TokenKind} {tree : Stmt}
    (hstatement : Statement nearest place inFunction closed read tree) :
    Statement nearest place true closed read tree := by
  induction hstatement with
  | expression hvalue => exact .expression hvalue
  | print hvalue => exact .print hvalue
  | «return» hvalue => exact .return hvalue
  | block _ ih => exact .block ih
  | conditional htest _ ih => exact .conditional htest ih
  | conditionalElse htest _ _ ihbody ihother => exact .conditionalElse htest ihbody ihother
  | whileLoop htest _ ih => exact .whileLoop htest ih
  | forLoop hstart htest hstep _ ih => exact .forLoop hstart htest hstep ih
  | declare hdeclaration => exact .declare hdeclaration
  | function name hparameters hitems => exact .function name hparameters hitems

/-- The body of a conditional or of a loop may stand in a list. -/
theorem Statement.intoList {nearest inFunction closed : Bool} {read : List TokenKind} {tree : Stmt}
    (hstatement : Statement nearest .asBody inFunction closed read tree) :
    Statement nearest .inList inFunction closed read tree := by
  cases hstatement with
  | expression hvalue => exact .expression hvalue
  | print hvalue => exact .print hvalue
  | «return» hvalue => exact .return hvalue
  | block hitems => exact .block hitems
  | conditional htest hbody => exact .conditional htest hbody
  | conditionalElse htest hbody hother => exact .conditionalElse htest hbody hother
  | whileLoop htest hbody => exact .whileLoop htest hbody
  | forLoop hstart htest hstep hbody => exact .forLoop hstart htest hstep hbody

/-- Where statements stand: in a list of statements, or one of them as the body of a conditional or
of a loop. The flag says whether this is in the body of a function. -/
inductive Slot where
  | list (inFunction : Bool)
  | body (inFunction : Bool)

namespace Slot

/-- Whether a slot is in the body of a function. -/
def inFunction : Slot → Bool
  | list inFunction => inFunction
  | body inFunction => inFunction

/-- What kind of place a slot is. -/
def place : Slot → StatementPlace
  | list _ => .inList
  | body _ => .asBody

/-- The tokens that may stand in a slot: those of any number of statements in a list, and those of
one statement in a body. -/
inductive Holds : Slot → List TokenKind → Prop
  | statements {inFunction : Bool} {items : List (Piece Stmt)} :
    (∀ item ∈ items, Statement false .inList inFunction false item.read item.tree) →
    Holds (.list inFunction) (items.flatMap Piece.read)
  | statement {inFunction : Bool} {read : List TokenKind} {tree : Stmt} :
    Statement false .asBody inFunction false read tree → Holds (.body inFunction) read

theorem Holds.single {slot : Slot} {read : List TokenKind} {tree : Stmt}
    (hstatement : Statement false slot.place slot.inFunction false read tree) :
    slot.Holds read := by
  cases slot with
  | list inFunction =>
    have hitems : Holds (.list inFunction) ([⟨read, tree⟩].flatMap Piece.read) := by
      refine .statements fun item hmem ↦ ?_
      obtain rfl := List.mem_singleton.mp hmem
      exact hstatement
    simpa using hitems
  | body inFunction => exact .statement hstatement

theorem Holds.append {inFunction : Bool} {first second : List TokenKind}
    (hfirst : (list inFunction).Holds first) (hsecond : (list inFunction).Holds second) :
    (list inFunction).Holds (first ++ second) := by
  cases hfirst with
  | statements hfirst =>
    cases hsecond with
    | statements hsecond =>
      rw [← List.flatMap_append]
      refine .statements fun item hmem ↦ ?_
      exact (List.mem_append.mp hmem).elim (hfirst item) (hsecond item)

theorem Holds.intoFunction {inFunction : Bool} {read : List TokenKind}
    (hread : (list inFunction).Holds read) : (list true).Holds read := by
  cases hread with
  | statements hitems => exact .statements fun item hmem ↦ (hitems item hmem).intoFunction

/-- The top level is a list outside of functions. -/
theorem holds_of_program {nearest : Bool} {read : List TokenKind} {statements : List Stmt}
    (hprogram : Program nearest read statements) : (list false).Holds read := by
  obtain ⟨trees, items, hitems, rfl, -⟩ := hprogram.exists_nearest
  exact .statements fun item hmem ↦ (hitems item hmem).ofNearest

theorem Holds.exists_program {read : List TokenKind} (hread : (list false).Holds read) :
    ∃ statements, Program true read statements := by
  cases hread with
  | statements hitems =>
    have hprogram : Program false _ _ := ⟨_, hitems, rfl, rfl⟩
    exact hprogram.exists_nearest

end Slot

/-! ### What stands around a slot -/

/-- The tokens of statements in braces. -/
def braced (read : List TokenKind) : List TokenKind :=
  .symbol .leftBrace :: read ++ [.symbol .rightBrace]

/-- The tokens of the declaration of a function, up to its body. -/
def functionHead (name : String) (parameters : List String) : List TokenKind :=
  .keyword .fun :: .identifier name ::
    parenthesized (parameters.map fun parameter ↦ [.identifier parameter])

/-- The tokens of a keyword and a condition. -/
def conditionHead (keyword : Keyword) (test : List TokenKind) : List TokenKind :=
  .keyword keyword :: .symbol .leftParenthesis :: test ++ [.symbol .rightParenthesis]

/-- The tokens of the head of a loop with an initializer, a condition and an increment. -/
def forHead (start test step : List TokenKind) : List TokenKind :=
  .keyword .for :: .symbol .leftParenthesis :: start ++ test ++ .symbol .semicolon :: step
    ++ [.symbol .rightParenthesis]

/-- The tokens before and behind a slot that lies within another one. -/
inductive Around : Slot → Slot → List TokenKind → List TokenKind → Prop
  | here (slot : Slot) : Around slot slot [] []
  | within {outer middle inner : Slot} {before after before' after' : List TokenKind} :
    Around outer middle before after → Around middle inner before' after' →
    Around outer inner (before ++ before') (after' ++ after)
  | among {inFunction : Bool} {before after : List TokenKind} :
    (Slot.list inFunction).Holds before → (Slot.list inFunction).Holds after →
    Around (.list inFunction) (.list inFunction) before after
  | block (slot : Slot) :
    Around slot (.list slot.inFunction) [.symbol .leftBrace] [.symbol .rightBrace]
  | function (inFunction : Bool) (name : String) {parameters : List String} :
    parameters.length ≤ maximumArguments →
    Around (.list inFunction) (.list true) (functionHead name parameters ++ [.symbol .leftBrace])
      [.symbol .rightBrace]
  | thenBranch (slot : Slot) {test : List TokenKind} {condition : Expr} :
    Expression .assignment test condition →
    Around slot (.body slot.inFunction) (conditionHead .if test) []
  | thenBranchElse (slot : Slot) {test other : List TokenKind} {condition : Expr} :
    Expression .assignment test condition → (Slot.body slot.inFunction).Holds other →
    Around slot (.body slot.inFunction) (conditionHead .if test) (.keyword .else :: other)
  | elseBranch (slot : Slot) {test body : List TokenKind} {condition : Expr} :
    Expression .assignment test condition → (Slot.body slot.inFunction).Holds body →
    Around slot (.body slot.inFunction) (conditionHead .if test ++ body ++ [.keyword .else]) []
  | whileBody (slot : Slot) {test : List TokenKind} {condition : Expr} :
    Expression .assignment test condition →
    Around slot (.body slot.inFunction) (conditionHead .while test) []
  | forBody (slot : Slot) {start test step : List TokenKind} {initializer : Option Stmt}
    {condition increment : Option Expr} : Initializer start initializer →
    OptionalExpression test condition → OptionalExpression step increment →
    Around slot (.body slot.inFunction) (forHead start test step) []

/-- What may stand in a slot may stand in every slot around it, together with what is around it. -/
theorem Around.holds {outer inner : Slot} {before after read : List TokenKind}
    (haround : Around outer inner before after) (hread : inner.Holds read) :
    outer.Holds (before ++ read ++ after) := by
  induction haround generalizing read with
  | here => simpa using hread
  | within _ _ ihouter ihinner => simpa using ihouter (ihinner hread)
  | among hbefore hafter => exact (hbefore.append hread).append hafter
  | block slot =>
    cases hread with
    | statements hitems => exact .single (.block hitems)
  | function inFunction name hparameters =>
    cases hread with
    | statements hitems =>
      have htree : (Slot.list inFunction).Holds _ := .single (.function name hparameters hitems)
      simpa [functionHead] using htree
  | thenBranch slot htest =>
    cases hread with
    | statement hbody =>
      have htree : slot.Holds _ := .single (.conditional htest hbody)
      simpa [conditionHead] using htree
  | thenBranchElse slot htest hother =>
    cases hread with
    | statement hbody =>
      cases hother with
      | statement hother =>
        have htree : slot.Holds _ := .single (.conditionalElse htest hbody hother)
        simpa [conditionHead] using htree
  | elseBranch slot htest hbody =>
    cases hread with
    | statement hother =>
      cases hbody with
      | statement hbody =>
        have htree : slot.Holds _ := .single (.conditionalElse htest hbody hother)
        simpa [conditionHead] using htree
  | whileBody slot htest =>
    cases hread with
    | statement hbody =>
      have htree : slot.Holds _ := .single (.whileLoop htest hbody)
      simpa [conditionHead] using htree
  | forBody slot hstart htest hstep =>
    cases hread with
    | statement hbody =>
      have htree : slot.Holds _ := .single (.forLoop hstart htest hstep hbody)
      simpa [forHead] using htree

/-! ### Edits -/

/-- An edit of a program. Statements that stand one after the other are wrapped in the body of a
function, a `return` is put into a list of statements in the body of a function, or the body of a
conditional or of a loop is put in braces. -/
inductive Edit : List TokenKind → List TokenKind → Prop
  | wrap {inFunction : Bool} {before after read : List TokenKind} (name : String)
    {parameters : List String} : Around (.list false) (.list inFunction) before after →
    (Slot.list inFunction).Holds read → parameters.length ≤ maximumArguments →
    Edit (before ++ read ++ after)
      (before ++ (functionHead name parameters ++ braced read) ++ after)
  | addReturn {before after value : List TokenKind} {tree : Option Expr} :
    Around (.list false) (.list true) before after → OptionalExpression value tree →
    Edit (before ++ after)
      (before ++ (.keyword .return :: value ++ [.symbol .semicolon]) ++ after)
  | brace {inFunction : Bool} {before after read : List TokenKind} :
    Around (.list false) (.body inFunction) before after → (Slot.body inFunction).Holds read →
    Edit (before ++ read ++ after) (before ++ braced read ++ after)

theorem Edit.holds {read edited : List TokenKind} (hedit : Edit read edited) :
    (Slot.list false).Holds edited := by
  cases hedit with
  | @wrap inFunction _ _ _ name _ haround hread hparameters =>
    refine haround.holds ?_
    have hwrapped := (Around.function inFunction name hparameters).holds hread.intoFunction
    simpa [braced] using hwrapped
  | addReturn haround hvalue => exact haround.holds (.single (.return hvalue))
  | brace haround hread =>
    cases hread with
    | statement hbody =>
      refine haround.holds ?_
      have hlist : Slot.Holds (.list _) _ := .single hbody.intoList
      exact (Around.block _).holds hlist

/-- However a program is edited, and however often, it stays a program. -/
theorem Program.exists_edited {nearest : Bool} {read edited : List TokenKind}
    {statements : List Stmt} (hprogram : Program nearest read statements)
    (hedits : Relation.ReflTransGen Edit read edited) :
    ∃ trees, Program true edited trees := by
  have hread : (Slot.list false).Holds edited := by
    cases hedits with
    | refl => exact Slot.holds_of_program hprogram
    | tail _ hedit => exact hedit.holds
  exact hread.exists_program

end Grammar

end Lox
