import Lox.Proofs.Syntax.Grammar

/-!
# The nearest conditional

Without the rule that an `else` belongs to the nearest conditional that can take it, the grammar has
more trees for some programs, but no more programs: `Program.exists_nearest` finds a tree that keeps
the rule for the tokens of any tree.

What this rests on is that a statement that keeps the rule is either closed or can take an `else`
and what follows it (`Statement.closed_or_takesElse`).
-/

set_option autoImplicit false
set_option relaxedAutoImplicit false

namespace Lox

namespace Grammar

variable {nearest inFunction closed : Bool} {place : StatementPlace} {read : List TokenKind}
  {tree : Stmt}

/-- Every statement may stand where it does not have to be closed. -/
theorem Statement.weaken (hstatement : Statement nearest place inFunction closed read tree) :
    Statement nearest place inFunction false read tree := by
  generalize hclosed : closed = wanted at hstatement
  induction hstatement with
  | expression hvalue => exact .expression hvalue
  | print hvalue => exact .print hvalue
  | «return» hvalue => exact .return hvalue
  | block hitems => exact .block hitems
  | conditional htest hbody => exact .conditional htest hbody
  | conditionalElse htest hbody _ _ ih => exact .conditionalElse htest hbody (ih hclosed)
  | whileLoop htest _ ih => exact .whileLoop htest (ih hclosed)
  | forLoop hstart htest hstep _ ih => exact .forLoop hstart htest hstep (ih hclosed)
  | declare hdeclaration => exact .declare hdeclaration
  | function name hparameters hitems => exact .function name hparameters hitems

/-- A statement to which an `else` and another statement can be added behind it. -/
def TakesElse (place : StatementPlace) (inFunction : Bool) (read other : List TokenKind) : Prop :=
  ∃ tree, Statement true place inFunction false (read ++ .keyword .else :: other) tree

theorem TakesElse.of_eq {whole other : List TokenKind}
    (hwhole : Statement true place inFunction false whole tree)
    (hread : whole = read ++ .keyword .else :: other) : TakesElse place inFunction read other :=
  ⟨tree, hread ▸ hwhole⟩

theorem Statement.closed_or_takesElse
    (hstatement : Statement true place inFunction closed read tree) {other : List TokenKind}
    {elseBranch : Stmt} (helse : Statement true .asBody inFunction false other elseBranch) :
    Statement true place inFunction true read tree ∨ TakesElse place inFunction read other := by
  induction hstatement with
  | expression hvalue => exact .inl (.expression hvalue)
  | print hvalue => exact .inl (.print hvalue)
  | «return» hvalue => exact .inl (.return hvalue)
  | block hitems => exact .inl (.block hitems)
  | conditional htest hbody ih =>
    rcases ih helse with hclosed | ⟨branch, hbranch⟩
    · exact .inr (.of_eq (.conditionalElse htest hclosed helse) (by simp))
    · exact .inr (.of_eq (.conditional htest hbranch) (by simp))
  | conditionalElse htest hbody _ _ ih =>
    rcases ih helse with hclosed | ⟨branch, hbranch⟩
    · exact .inl (.conditionalElse htest hbody hclosed)
    · exact .inr (.of_eq (.conditionalElse htest hbody hbranch) (by simp))
  | whileLoop htest _ ih =>
    rcases ih helse with hclosed | ⟨branch, hbranch⟩
    · exact .inl (.whileLoop htest hclosed)
    · exact .inr (.of_eq (.whileLoop htest hbranch) (by simp))
  | forLoop hstart htest hstep _ ih =>
    rcases ih helse with hclosed | ⟨branch, hbranch⟩
    · exact .inl (.forLoop hstart htest hstep hclosed)
    · exact .inr (.of_eq (.forLoop hstart htest hstep hbranch) (by simp))
  | declare hdeclaration => exact .inl (.declare hdeclaration)
  | function name hparameters hitems => exact .inl (.function name hparameters hitems)

/-- Trees of certain statements, found for each of them, are trees of the statements together. -/
theorem exists_pieces {derives : List TokenKind → Stmt → Prop} {items : List (Piece Stmt)}
    (hitems : ∀ item ∈ items, ∃ tree, derives item.read tree) :
    ∃ others : List (Piece Stmt), (∀ other ∈ others, derives other.read other.tree) ∧
      others.flatMap Piece.read = items.flatMap Piece.read := by
  induction items with
  | nil => exact ⟨[], by simp, rfl⟩
  | cons first items ih =>
    obtain ⟨tree, htree⟩ := hitems first List.mem_cons_self
    obtain ⟨others, hothers, hread⟩ := ih fun item hmem ↦ hitems item (List.mem_cons_of_mem _ hmem)
    refine ⟨⟨first.read, tree⟩ :: others, ?_, by simp [hread]⟩
    rintro other (_ | ⟨_, hmem⟩)
    · exact htree
    · exact hothers other hmem

/-- The tokens of a statement are those of one in which every `else` belongs to the nearest
conditional that can take it. -/
theorem Statement.exists_nearest
    (hstatement : Statement nearest place inFunction closed read tree) :
    ∃ tree, Statement true place inFunction false read tree := by
  induction hstatement with
  | expression hvalue => exact ⟨_, .expression hvalue⟩
  | print hvalue => exact ⟨_, .print hvalue⟩
  | «return» hvalue => exact ⟨_, .return hvalue⟩
  | block _ ih =>
    obtain ⟨others, hothers, hread⟩ := exists_pieces ih
    rw [← hread]
    exact ⟨_, .block hothers⟩
  | conditional htest _ ih =>
    obtain ⟨_, hbody⟩ := ih
    exact ⟨_, .conditional htest hbody⟩
  | @conditionalElse place _ _ _ _ _ _ _ _ htest _ _ ihbody ihother =>
    obtain ⟨_, hbody⟩ := ihbody
    obtain ⟨_, hother⟩ := ihother
    rcases hbody.closed_or_takesElse hother with hclosed | ⟨_, hbranch⟩
    · exact ⟨_, .conditionalElse htest hclosed hother⟩
    · have hwhole : Statement true place _ _ _ _ := .conditional htest hbranch
      simp only [List.append_assoc, List.cons_append] at hwhole ⊢
      exact ⟨_, hwhole⟩
  | whileLoop htest _ ih =>
    obtain ⟨_, hbody⟩ := ih
    exact ⟨_, .whileLoop htest hbody⟩
  | forLoop hstart htest hstep _ ih =>
    obtain ⟨_, hbody⟩ := ih
    exact ⟨_, .forLoop hstart htest hstep hbody⟩
  | declare hdeclaration => exact ⟨_, .declare hdeclaration⟩
  | function name hparameters _ ih =>
    obtain ⟨others, hothers, hread⟩ := exists_pieces ih
    rw [← hread]
    exact ⟨_, .function name hparameters hothers⟩

theorem Program.exists_nearest {statements : List Stmt}
    (hprogram : Program nearest read statements) :
    ∃ others, Program true read others := by
  obtain ⟨items, hitems, rfl, -⟩ := hprogram
  obtain ⟨others, hothers, hread⟩ := exists_pieces fun item hmem ↦
    (hitems item hmem).exists_nearest
  exact ⟨_, others, hothers, hread.symm, rfl⟩

/-- Without the rule there are no fewer trees. -/
theorem Statement.ofNearest (hstatement : Statement true place inFunction closed read tree) :
    Statement false place inFunction closed read tree := by
  induction hstatement with
  | expression hvalue => exact .expression hvalue
  | print hvalue => exact .print hvalue
  | «return» hvalue => exact .return hvalue
  | block _ ih => exact .block ih
  | conditional htest _ ih => exact .conditional htest ih
  | conditionalElse htest _ _ ihbody ihother => exact .conditionalElse htest ihbody.weaken ihother
  | whileLoop htest _ ih => exact .whileLoop htest ih
  | forLoop hstart htest hstep _ ih => exact .forLoop hstart htest hstep ih
  | declare hdeclaration => exact .declare hdeclaration
  | function name hparameters _ ih => exact .function name hparameters ih

theorem Program.ofNearest {statements : List Stmt} (hprogram : Program true read statements) :
    Program false read statements := by
  obtain ⟨items, hitems, hread, hstatements⟩ := hprogram
  exact ⟨items, fun item hmem ↦ (hitems item hmem).ofNearest, hread, hstatements⟩

end Grammar

end Lox
