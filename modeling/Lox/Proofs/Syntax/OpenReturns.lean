import Lox.Proofs.Syntax.SourcePrograms

/-!
# Where a `return` can stand

`Stmt.hasReturn` looks for a `return` in a statement, but not in the bodies of the functions that
are declared in it. In a program that has been read there is none
(`anyHasReturn_eq_false_of_ofSource`).
-/

set_option autoImplicit false
set_option relaxedAutoImplicit false

namespace Lox

mutual

/-- Whether there is a `return` in a statement, outside the bodies of functions. -/
def Stmt.hasReturn : Stmt → Bool
  | .expression _ => false
  | .print _ => false
  | .declare _ _ => false
  | .block body => Stmt.anyHasReturn body
  | .conditional _ thenBranch elseBranch =>
    thenBranch.hasReturn || Stmt.branchHasReturn elseBranch
  | .loop _ body => body.hasReturn
  | .function _ _ _ _ => false
  | .return _ _ => true

/-- Whether there is a `return` in one of several statements, outside the bodies of functions. -/
def Stmt.anyHasReturn : List Stmt → Bool
  | [] => false
  | first :: others => first.hasReturn || Stmt.anyHasReturn others

/-- Whether there is a `return` in a statement that may be missing, outside the bodies of
functions. -/
def Stmt.branchHasReturn : Option Stmt → Bool
  | none => false
  | some branch => branch.hasReturn

end

theorem Stmt.anyHasReturn_eq_any (statements : List Stmt) :
    anyHasReturn statements = statements.any hasReturn := by
  induction statements with
  | nil => rfl
  | cons first others ih => rw [anyHasReturn, ih, List.any_cons]

mutual

theorem Stmt.hasReturn_eraseSpans (statement : Stmt) :
    statement.eraseSpans.hasReturn = statement.hasReturn := by
  cases statement with
  | block body => exact anyHasReturn_eraseSpansAll body
  | conditional condition thenBranch elseBranch =>
    rw [eraseSpans_conditional, hasReturn, hasReturn, hasReturn_eraseSpans thenBranch,
      branchHasReturn_eraseSpansOption elseBranch]
  | loop condition body => exact hasReturn_eraseSpans body
  | _ => rfl

theorem Stmt.anyHasReturn_eraseSpansAll (statements : List Stmt) :
    anyHasReturn (eraseSpansAll statements) = anyHasReturn statements := by
  cases statements with
  | nil => rfl
  | cons first others =>
    rw [eraseSpansAll_cons, anyHasReturn, anyHasReturn, hasReturn_eraseSpans first,
      anyHasReturn_eraseSpansAll others]

theorem Stmt.branchHasReturn_eraseSpansOption (branch : Option Stmt) :
    branchHasReturn (eraseSpansOption branch) = branchHasReturn branch := by
  cases branch with
  | none => rfl
  | some statement => exact hasReturn_eraseSpans statement

end

namespace Grammar

variable {nearest closed : Bool} {place : StatementPlace} {read : List TokenKind}

theorem VariableDeclaration.hasReturn_eq_false {tree : Stmt}
    (hdeclaration : VariableDeclaration read tree) : tree.hasReturn = false := by
  cases hdeclaration <;> rfl

theorem hasReturn_forTree {initializer : Option Stmt} {condition increment : Option Expr}
    {body : Stmt} (hinitializer : Initializer read initializer) :
    (forTree initializer condition increment body).hasReturn = body.hasReturn := by
  have hturn : (increment.elim body fun step ↦ .block [body, .expression step]).hasReturn
      = body.hasReturn := by
    cases increment <;> simp [Stmt.hasReturn, Stmt.anyHasReturn]
  cases hinitializer with
  | missing => exact hturn
  | declaration hdeclaration =>
    simp [forTree, Stmt.hasReturn, Stmt.anyHasReturn, hdeclaration.hasReturn_eq_false, hturn]
  | expression => simp [forTree, Stmt.hasReturn, Stmt.anyHasReturn, hturn]

/-- Outside of functions the grammar has no `return`. -/
theorem Statement.hasReturn_eq_false {inFunction : Bool} {tree : Stmt}
    (hstatement : Statement nearest place inFunction closed read tree)
    (hinFunction : inFunction = false) : tree.hasReturn = false := by
  induction hstatement with
  | expression => rfl
  | print => rfl
  | «return» => cases hinFunction
  | block _ ih =>
    rw [Stmt.hasReturn, Stmt.anyHasReturn_eq_any, List.any_map, List.any_eq_false]
    intro item hmem
    simpa using ih item hmem hinFunction
  | conditional _ _ ih => simp [Stmt.hasReturn, Stmt.branchHasReturn, ih hinFunction]
  | conditionalElse _ _ _ ihthen ihelse =>
    simp [Stmt.hasReturn, Stmt.branchHasReturn, ihthen hinFunction, ihelse hinFunction]
  | whileLoop _ _ ih => exact ih hinFunction
  | forLoop hstart _ _ _ ih => exact (hasReturn_forTree hstart).trans (ih hinFunction)
  | declare hdeclaration => exact hdeclaration.hasReturn_eq_false
  | function => rfl

theorem Program.anyHasReturn_eq_false {statements : List Stmt}
    (hprogram : Program nearest read statements) : Stmt.anyHasReturn statements = false := by
  obtain ⟨items, hitems, -, rfl⟩ := hprogram
  rw [Stmt.anyHasReturn_eq_any, List.any_map, List.any_eq_false]
  intro item hmem
  simpa using (hitems item hmem).hasReturn_eq_false rfl

end Grammar

/-- A program that has been read has no `return` outside the bodies of its functions. -/
theorem anyHasReturn_eq_false_of_ofSource {source : String} {program : Program}
    (hprogram : Program.ofSource source = .ok program) : Stmt.anyHasReturn program = false := by
  obtain ⟨_, _, -, htrees⟩ := exists_program_of_ofSource hprogram
  rw [← Stmt.anyHasReturn_eraseSpansAll]
  exact htrees.anyHasReturn_eq_false

end Lox
