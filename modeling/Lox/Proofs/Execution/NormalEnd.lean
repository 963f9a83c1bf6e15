import Lox.Evaluation
import Lox.Proofs.Computation.Preservation
import Lox.Proofs.Syntax.OpenReturns

/-!
# Statements that end normally

A statement without a `return` outside the bodies of functions ends normally whenever it ends
without an error, whatever functions it calls; and so do statements one after the other.
-/

set_option autoImplicit false
set_option relaxedAutoImplicit false

namespace Lox

variable {host : Host} {bound : Nat}

theorem yields_normal_execute_succ
    (ihone : ∀ tree : Stmt, tree.hasReturn = false → (execute host bound tree).Yields (· = .normal))
    (ihall : ∀ trees, Stmt.anyHasReturn trees = false →
      (executeAll host bound trees).Yields (· = .normal)) (tree : Stmt)
    (htree : tree.hasReturn = false) : (execute host (bound + 1) tree).Yields (· = .normal) := by
  cases tree with
  | expression => exact .bind_right fun _ ↦ .pure rfl
  | print => exact .bind_right fun _ ↦ .bind_right fun _ ↦ .pure rfl
  | declare target initializer =>
    cases initializer with
    | none => exact .bind_right fun _ ↦ .pure rfl
    | some initializer => exact .bind_right fun _ ↦ .bind_right fun _ ↦ .pure rfl
  | block body =>
    simp only [execute]
    exact .bind_right fun _ ↦ .bind_right fun _ ↦ (ihall body htree).within
  | conditional condition thenBranch elseBranch =>
    obtain ⟨hthen, helse⟩ := Bool.or_eq_false_iff.mp htree
    simp only [execute]
    refine .bind_right fun value ↦ ?_
    split
    · exact ihone thenBranch hthen
    · cases elseBranch with
      | none => exact .pure rfl
      | some branch => exact ihone branch helse
  | loop condition body =>
    simp only [execute]
    refine .bind_right fun value ↦ ?_
    split
    · refine .bind (ihone body htree) ?_
      rintro flow rfl
      exact ihone (.loop condition body) htree
    · exact .pure rfl
  | function => exact .bind_right fun _ ↦ .bind_right fun _ ↦ .bind_right fun _ ↦ .pure rfl
  | «return» => cases htree

theorem yields_normal_executeAll_succ
    (ihone : ∀ tree : Stmt, tree.hasReturn = false → (execute host bound tree).Yields (· = .normal))
    (ihall : ∀ trees, Stmt.anyHasReturn trees = false →
      (executeAll host bound trees).Yields (· = .normal)) (trees : List Stmt)
    (htrees : Stmt.anyHasReturn trees = false) :
    (executeAll host (bound + 1) trees).Yields (· = .normal) := by
  cases trees with
  | nil => exact .pure rfl
  | cons first others =>
    obtain ⟨hfirst, hothers⟩ := Bool.or_eq_false_iff.mp htrees
    simp only [executeAll]
    refine .bind (ihone first hfirst) ?_
    rintro flow rfl
    exact ihall others hothers

/-- The induction is on the bound, which also counts the turns of loops. -/
theorem yields_normal (bound : Nat) :
    (∀ tree : Stmt, tree.hasReturn = false → (execute host bound tree).Yields (· = .normal)) ∧
      ∀ trees, Stmt.anyHasReturn trees = false →
        (executeAll host bound trees).Yields (· = .normal) := by
  induction bound with
  | zero => exact ⟨fun _ _ ↦ .exhausted, fun _ _ ↦ .exhausted⟩
  | succ bound ih =>
    obtain ⟨ihone, ihall⟩ := ih
    exact ⟨yields_normal_execute_succ ihone ihall, yields_normal_executeAll_succ ihone ihall⟩

end Lox
