import Lox.Proofs.Syntax.Parting

/-!
# The last statement of a block

Where a semicolon stands before a closing brace in a program, it ends the last statement of a block.
Before it stands that statement without its semicolon, and before that the start of the program up
to a place in a list of statements (`Grammar.Program.leavesUnfinished`). Two readings of what comes
behind this start agree from the beginning of the program if they do in the list
(`Grammar.LeavesUnfinished`).

Neither such a statement nor a program has a single brace without its counterpart
(`Grammar.Statement.balanced`), and what stands before a semicolon does not end with a slash
(`Grammar.Unfinished.allowsComment`).
-/

set_option autoImplicit false
set_option relaxedAutoImplicit false

namespace Lox

namespace Grammar

/-- The last of these tokens is no slash, so that a comment may stand right behind it. -/
def AllowsComment (read : List TokenKind) : Prop := read.getLast? ≠ some (.symbol .slash)

namespace AllowsComment

variable {read more : List TokenKind} {kind : TokenKind}

theorem nil : AllowsComment [] := by simp [AllowsComment]

/-- Both parts of a text have to allow a comment behind them, as the second may be empty. -/
theorem append (hread : AllowsComment read) (hmore : AllowsComment more) :
    AllowsComment (read ++ more) := by
  rw [AllowsComment, List.getLast?_append]
  intro hlast
  rcases Option.or_eq_some_iff.mp hlast with hlast | ⟨-, hlast⟩
  · exact hmore hlast
  · exact hread hlast

theorem flatMap {α : Type} {items : List α} {read : α → List TokenKind}
    (hitems : ∀ item ∈ items, AllowsComment (read item)) :
    AllowsComment (items.flatMap read) := by
  induction items with
  | nil => exact nil
  | cons item items ih =>
    obtain ⟨hitem, hitems⟩ := List.forall_mem_cons.mp hitems
    exact hitem.append (ih hitems)

/-- What is put before tokens does not change how they end. -/
theorem behind (hread : AllowsComment read) (hne : read ≠ []) : AllowsComment (kind :: read) := by
  obtain ⟨first, rest, rfl⟩ := List.exists_cons_of_ne_nil hne
  rwa [AllowsComment, List.getLast?_cons_cons]

/-- What stands before a token that is no slash does not matter. -/
theorem within (front : List TokenKind) (hkind : kind ≠ .symbol .slash)
    (hread : AllowsComment read) : AllowsComment (front ++ kind :: read) := by
  rw [AllowsComment, List.getLast?_append_of_ne_nil _ (List.cons_ne_nil _ _)]
  cases read with
  | nil =>
    rintro ⟨⟩
    exact hkind rfl
  | cons first rest => exact hread.behind (List.cons_ne_nil _ _)

end AllowsComment

/-- No expression ends with a slash: at its end is a name, a literal or a parenthesis. -/
theorem Expression.allowsComment {level : Level} {read : List TokenKind} {tree : Expr}
    (hexpression : Expression level read tree) : AllowsComment read := by
  induction hexpression with
  | assign _ hvalue ih => exact (ih.behind hvalue.begins.ne_nil).behind (by simp)
  | value _ ih => exact ih
  | operators _ _ hothers _ ih ihothers =>
    exact ih.append (.flatMap fun other hother ↦
      (ihothers other hother).behind (hothers other hother).begins.ne_nil)
  | negate hoperand ih => exact ih.behind hoperand.begins.ne_nil
  | complement hoperand ih => exact ih.behind hoperand.begins.ne_nil
  | operand _ ih => exact ih
  | call _ _ _ ih =>
    refine ih.append (.flatMap fun arguments _ ↦ ?_)
    rw [AllowsComment, argumentKinds, parenthesized, List.getLast?_concat]
    simp
  | grouping =>
    rw [AllowsComment, List.getLast?_concat]
    simp
  | _ => simp [AllowsComment]

/-- What ends with a semicolon does not end with a slash before it. -/
theorem Unfinished.allowsComment {place : StatementPlace} {inFunction : Bool}
    {read : List TokenKind} (hunfinished : Unfinished place inFunction read) :
    AllowsComment read := by
  induction hunfinished with
  | expression hvalue => exact hvalue.allowsComment
  | print hvalue => exact hvalue.allowsComment.behind hvalue.begins.ne_nil
  | «return» hvalue =>
    cases hvalue with
    | missing => exact AllowsComment.nil.within [] (by simp)
    | present hpresent => exact hpresent.allowsComment.behind hpresent.begins.ne_nil
  | conditional _ _ ih => exact ih.within _ (by simp)
  | conditionalElse _ _ _ ih => exact ih.within _ (by simp)
  | whileLoop _ _ ih => exact ih.within _ (by simp)
  | forLoop _ _ _ _ ih => exact ih.within _ (by simp)
  | @declare _ read _ hdeclaration =>
    generalize hwhole : read ++ [.symbol .semicolon] = whole at hdeclaration
    cases hdeclaration with
    | bare name =>
      obtain ⟨rfl, -⟩ := List.append_inj' (hwhole.trans (List.append_cons [] _ _)) rfl
      simp [AllowsComment]
    | initialized name hvalue =>
      obtain ⟨rfl, -⟩ := List.append_inj' hwhole rfl
      exact hvalue.allowsComment.within [_, _] (by simp)

/-! ### Braces -/

/-- Whether a token opens or closes a block. -/
def isBrace : TokenKind → Bool
  | .symbol .leftBrace | .symbol .rightBrace => true
  | _ => false

/-- As many opening as closing braces. -/
def Balanced (read : List TokenKind) : Prop :=
  read.count (.symbol .leftBrace) = read.count (.symbol .rightBrace)

/-- Where there are no braces, there are as many of each kind. -/
theorem Plain.balanced {read : List TokenKind} (hplain : Plain read) : Balanced read := by
  rw [Balanced, List.count_eq_zero.mpr (hplain.notMem rfl),
    List.count_eq_zero.mpr (hplain.notMem rfl)]

namespace Balanced

variable {first second : List TokenKind}

theorem nil : Balanced [] := rfl

theorem append (hfirst : Balanced first) (hsecond : Balanced second) :
    Balanced (first ++ second) := by
  rw [Balanced, List.count_append, List.count_append, hfirst, hsecond]

theorem flatMap {α : Type} {items : List α} {read : α → List TokenKind}
    (hitems : ∀ item ∈ items, Balanced (read item)) : Balanced (items.flatMap read) := by
  induction items with
  | nil => exact nil
  | cons item items ih =>
    obtain ⟨hitem, hitems⟩ := List.forall_mem_cons.mp hitems
    exact hitem.append (ih hitems)

theorem cons {kind : TokenKind} (hkind : isBrace kind = false) (hfirst : Balanced first) :
    Balanced (kind :: first) := by
  have hopening : kind ≠ .symbol .leftBrace := by rintro rfl; cases hkind
  have hclosing : kind ≠ .symbol .rightBrace := by rintro rfl; cases hkind
  rwa [Balanced, List.count_cons_of_ne hopening, List.count_cons_of_ne hclosing]

/-- A pair of braces around balanced tokens leaves them balanced. -/
theorem inBraces (hfirst : Balanced first) :
    Balanced (.symbol .leftBrace :: first ++ [.symbol .rightBrace]) := by
  unfold Balanced at hfirst ⊢
  simp [hfirst]

end Balanced

/-- Every statement has as many opening as closing braces. They come from blocks and from bodies of
functions only, which add one of each. -/
theorem Statement.balanced {nearest inFunction closed : Bool} {place : StatementPlace}
    {read : List TokenKind} {tree : Stmt}
    (hstatement : Statement nearest place inFunction closed read tree) : Balanced read := by
  have hsemicolon : Balanced [.symbol .semicolon] := Balanced.nil.cons rfl
  induction hstatement with
  | expression hvalue => exact hvalue.plain.balanced.append hsemicolon
  | print hvalue => exact (hvalue.plain.balanced.cons rfl).append hsemicolon
  | «return» hvalue => exact (hvalue.plain.balanced.cons rfl).append hsemicolon
  | block _ ih => exact (Balanced.flatMap ih).inBraces
  | conditional htest _ ih =>
    exact ((htest.plain.balanced.cons rfl).cons rfl).append (ih.cons rfl)
  | conditionalElse htest _ _ ihbody ihother =>
    exact (((htest.plain.balanced.cons rfl).cons rfl).append (ihbody.cons rfl)).append
      (ihother.cons rfl)
  | whileLoop htest _ ih =>
    exact ((htest.plain.balanced.cons rfl).cons rfl).append (ih.cons rfl)
  | @forLoop _ _ _ start test _ _ _ _ _ _ hstart htest hstep _ ih =>
    obtain ⟨body, rfl, hbody⟩ := hstart.exists_plain
    have hheader : Balanced (.keyword .for :: .symbol .leftParenthesis ::
        (body ++ [.symbol .semicolon]) ++ test) :=
      (((hbody.balanced.append hsemicolon).cons rfl).cons rfl).append htest.plain.balanced
    exact (hheader.append (hstep.plain.balanced.cons rfl)).append (ih.cons rfl)
  | declare hdeclaration =>
    obtain ⟨body, rfl, hbody⟩ := hdeclaration.exists_plain
    exact (hbody.balanced.append hsemicolon).cons rfl
  | @function _ _ parameters items name _ _ ih =>
    have hheader : Balanced (.keyword .fun :: .identifier name ::
        parenthesized (parameters.map fun parameter ↦ [.identifier parameter])) :=
      ((plain_parameters parameters).balanced.cons rfl).cons rfl
    have hwhole := hheader.append (Balanced.flatMap ih).inBraces
    rwa [List.cons_append, ← List.append_assoc] at hwhole

/-- The same for a program, statement by statement. -/
theorem Program.balanced {nearest : Bool} {read : List TokenKind} {statements : List Stmt}
    (hprogram : Program nearest read statements) : Balanced read := by
  obtain ⟨items, hitems, rfl, -⟩ := hprogram
  exact .flatMap fun item hmem ↦ (hitems item hmem).balanced

/-- Where two tokens stand behind one another, in one of two parts or where these meet. -/
theorem pair_of_append_eq {front back before after : List TokenKind} {first second : TokenKind}
    (hwhole : front ++ back = before ++ first :: second :: after) :
    (∃ more, front = before ++ first :: second :: more) ∨
      (front = before ++ [first] ∧ back.head? = some second) ∨
      ∃ start, before = front ++ start ∧ back = start ++ first :: second :: after := by
  rcases List.append_eq_append_iff.mp hwhole with ⟨start, rfl, rfl⟩ | ⟨more, rfl, hmore⟩
  · exact .inr (.inr ⟨start, rfl, rfl⟩)
  · cases more with
    | nil => exact .inr (.inr ⟨[], by simp, hmore.symm⟩)
    | cons kind more =>
      obtain ⟨rfl, hrest⟩ := List.cons.inj hmore
      cases more with
      | nil => exact .inr (.inl ⟨rfl, congrArg List.head? hrest.symm⟩)
      | cons kind more =>
        obtain ⟨rfl, -⟩ := List.cons.inj hrest
        exact .inl ⟨more, rfl⟩

/-- A semicolon before a brace does not stand where there are no braces, nor where another token
follows. -/
theorem exists_behind (front : List TokenKind) {part before after : List TokenKind}
    {mark : TokenKind}
    (hfront : .symbol .rightBrace ∉ front) (hmark : mark ≠ .symbol .semicolon)
    (hmark' : mark ≠ .symbol .rightBrace)
    (hwhole : front ++ mark :: part
      = before ++ .symbol .semicolon :: .symbol .rightBrace :: after) :
    ∃ start, before = front ++ mark :: start ∧
      part = start ++ .symbol .semicolon :: .symbol .rightBrace :: after := by
  rcases pair_of_append_eq hwhole with ⟨more, rfl⟩ | ⟨-, hhead⟩ | ⟨start, rfl, hpart⟩
  · simp at hfront
  · exact absurd (Option.some.inj hhead) hmark'
  · cases start with
    | nil => exact absurd (List.cons.inj hpart).1 hmark
    | cons kind start =>
      obtain ⟨rfl, rfl⟩ := List.cons.inj hpart
      exact ⟨start, rfl, rfl⟩

/-! ### Statements that lack their semicolon -/

/-- Readings that part in a statement agree. -/
structure PartsInStatement (place : StatementPlace) (inFunction : Bool) (parting : Parting)
    (read : List TokenKind) : Prop where
  begins : Begins startsStatement read
  recovers : parting.Recovers place inFunction read

/-- Readings that part in a list of statements agree. -/
structure PartsInList (inBlock inFunction : Bool) (parting : Parting) (read : List TokenKind) :
    Prop where
  begins : parting.Begins read
  recovers : parting.ListRecovers inBlock inFunction read

/-- Tokens that end with a statement of a block that lacks its semicolon. Readings that part before
this statement agree from the start if they do from there. -/
def LeavesUnfinished (parts : Parting → List TokenKind → Prop) (before : List TokenKind) : Prop :=
  ∃ head unfinished inFunction tree, before = head ++ unfinished ∧
    Statement true .inList inFunction false (unfinished ++ [.symbol .semicolon]) tree ∧
      ∀ parting : Parting, PartsInList true inFunction parting [] → parts parting head

namespace LeavesUnfinished

variable {parts parts' : Parting → List TokenKind → Prop} {before : List TokenKind}

/-- More may stand before. -/
theorem behind (front : List TokenKind) (hbefore : LeavesUnfinished parts before)
    (hparts : ∀ parting head, parts parting head → parts' parting (front ++ head)) :
    LeavesUnfinished parts' (front ++ before) := by
  obtain ⟨head, unfinished, inFunction, tree, rfl, hstatement, hhead⟩ := hbefore
  exact ⟨front ++ head, unfinished, inFunction, tree, by rw [List.append_assoc], hstatement,
    fun parting hparting ↦ hparts parting head (hhead parting hparting)⟩

/-- Readings may have passed more tokens before they come to where they part. -/
theorem behindMark (front : List TokenKind) (mark : TokenKind)
    (hbefore : LeavesUnfinished parts before)
    (hparts : ∀ parting head, parts parting head → parts' parting (front ++ mark :: head)) :
    LeavesUnfinished parts' (front ++ mark :: before) := by
  rw [List.append_cons]
  refine hbefore.behind _ fun parting head hhead ↦ ?_
  rw [← List.append_cons]
  exact hparts parting head hhead

/-- In a list of statements, and at the end of one in a block. No statement starts with a brace that
closes, so where one follows it ends the block. -/
theorem inList {inBlock inFunction : Bool} {items : List (Piece Stmt)}
    {back after : List TokenKind}
    (hitems : ∀ item ∈ items, Statement true .inList inFunction false item.read item.tree)
    (hinside : ∀ item ∈ items, ∀ before after,
      item.read = before ++ .symbol .semicolon :: .symbol .rightBrace :: after →
        LeavesUnfinished (PartsInStatement .inList inFunction) before)
    (hback : back = [] ∨ inBlock = true ∧ back = [.symbol .rightBrace])
    (hpair : items.flatMap Piece.read ++ back
      = before ++ .symbol .semicolon :: .symbol .rightBrace :: after) :
    LeavesUnfinished (PartsInList inBlock inFunction) before := by
  induction items generalizing before with
  | nil =>
    have hlength := congrArg List.length hpair
    rcases hback with rfl | ⟨-, rfl⟩ <;> simp at hlength
    omega
  | cons item items ih =>
    obtain ⟨hitem, hitems⟩ := List.forall_mem_cons.mp hitems
    obtain ⟨hitemInside, hinside⟩ := List.forall_mem_cons.mp hinside
    rw [List.flatMap_cons, List.append_assoc] at hpair
    rcases pair_of_append_eq hpair with ⟨more, hread⟩ | ⟨hread, hhead⟩ | ⟨start, rfl, hrest⟩
    · refine (hitemInside before more hread).behind [] fun parting head hhead ↦ ?_
      have hbegins : parting.Begins (head ++ []) := .behind hhead.begins []
      rw [List.append_nil] at hbegins
      exact ⟨hbegins, .ofRecovers hhead.begins hhead.recovers⟩
    · obtain rfl : inBlock = true := by
        cases items with
        | nil =>
          rcases hback with rfl | ⟨hinBlock, -⟩
          · cases hhead
          · exact hinBlock
        | cons next items =>
          rw [List.flatMap_cons, List.append_assoc] at hhead
          exact absurd hhead ((hitems next List.mem_cons_self).begins.head?_ne rfl _)
      rw [hread] at hitem
      exact ⟨[], before, inFunction, item.tree, rfl, hitem, fun parting hparting ↦ hparting⟩
    · refine (ih hitems hinside hrest).behind item.read fun parting head hhead ↦ ⟨?_, ?_⟩
      · exact .behind hitem.begins head
      · exact .cons hitem hhead.begins hhead.recovers

end LeavesUnfinished

/-- A semicolon before a brace does not stand where there are no braces. -/
theorem rightBrace_mem {read before after : List TokenKind}
    (hpair : read = before ++ .symbol .semicolon :: .symbol .rightBrace :: after) :
    .symbol .rightBrace ∈ read := by
  simp [hpair]

open Parting in
/-- In a statement. -/
theorem Statement.leavesUnfinished {place : StatementPlace} {inFunction closed : Bool}
    {read before after : List TokenKind} {tree : Stmt}
    (hstatement : Statement true place inFunction closed read tree)
    (hpair : read = before ++ .symbol .semicolon :: .symbol .rightBrace :: after) :
    LeavesUnfinished (PartsInStatement place inFunction) before := by
  have hbrace : isForeign (.symbol .rightBrace) = true := rfl
  induction hstatement generalizing before after with
  | expression hvalue =>
    exact absurd (rightBrace_mem hpair) (by simpa using hvalue.plain.notMem hbrace)
  | print hvalue =>
    exact absurd (rightBrace_mem hpair) (by simpa using hvalue.plain.notMem hbrace)
  | «return» hvalue =>
    exact absurd (rightBrace_mem hpair) (by simpa using hvalue.plain.notMem hbrace)
  | declare hdeclaration =>
    obtain ⟨body, rfl, hbody⟩ := hdeclaration.exists_plain
    exact absurd (rightBrace_mem hpair) (by simpa using hbody.notMem hbrace)
  | block hitems ih =>
    obtain ⟨start, rfl, hrest⟩ := exists_behind [] (by simp) (by simp) (by simp) hpair
    refine (LeavesUnfinished.inList hitems (fun item hmem _ _ hread ↦ ih item hmem hread)
      (.inr ⟨rfl, rfl⟩) hrest).behindMark [] _ fun parting head hhead ↦ ?_
    exact ⟨⟨_, _, rfl, rfl⟩, .block hhead.recovers⟩
  | @conditional _ _ test _ _ _ htest _ ih =>
    obtain ⟨start, rfl, hrest⟩ := exists_behind (.keyword .if :: .symbol .leftParenthesis :: test)
      (by simpa using htest.plain.notMem hbrace) (by simp) (by simp) hpair
    exact (ih hrest).behindMark _ _ fun parting head hhead ↦
      ⟨⟨_, _, rfl, rfl⟩, .conditional htest hhead.recovers⟩
  | @conditionalElse _ _ _ test body other _ _ _ htest hbody _ ihbody ihother =>
    rcases pair_of_append_eq hpair with ⟨more, hfirst⟩ | ⟨-, hhead⟩ | ⟨start, rfl, hrest⟩
    · obtain ⟨start, rfl, hrest⟩ := exists_behind (.keyword .if :: .symbol .leftParenthesis :: test)
        (by simpa using htest.plain.notMem hbrace) (by simp) (by simp) hfirst
      exact (ihbody hrest).behindMark _ _ fun parting head hhead ↦
        ⟨⟨_, _, rfl, rfl⟩, .conditional htest hhead.recovers⟩
    · cases hhead
    · obtain ⟨start, rfl, hread⟩ := exists_behind [] (by simp) (by simp) (by simp) hrest
      exact (ihother hread).behindMark _ _ fun parting head hhead ↦
        ⟨⟨_, _, rfl, rfl⟩, .conditionalElse htest hbody hhead.recovers⟩
  | @whileLoop _ _ _ test _ _ _ htest _ ih =>
    obtain ⟨start, rfl, hrest⟩ := exists_behind
      (.keyword .while :: .symbol .leftParenthesis :: test)
      (by simpa using htest.plain.notMem hbrace) (by simp) (by simp) hpair
    exact (ih hrest).behindMark _ _ fun parting head hhead ↦
      ⟨⟨_, _, rfl, rfl⟩, .whileLoop htest hhead.recovers⟩
  | forLoop hstart htest hstep _ ih =>
    obtain ⟨body, rfl, hbody⟩ := hstart.exists_plain
    obtain ⟨start, rfl, hrest⟩ := exists_behind _
      (by simpa using ⟨hbody.notMem hbrace, htest.plain.notMem hbrace, hstep.plain.notMem hbrace⟩)
      (by simp) (by simp) hpair
    exact (ih hrest).behindMark _ _ fun parting head hhead ↦
      ⟨⟨_, _, rfl, rfl⟩, .forLoop hstart htest hstep hhead.recovers⟩
  | @function _ _ parameters _ name hlength hitems ih =>
    rw [List.append_assoc] at hpair
    obtain ⟨start, rfl, hrest⟩ := exists_behind (.keyword .fun :: .identifier name ::
        parenthesized (parameters.map fun parameter ↦ [.identifier parameter]))
      (by simpa using (plain_parameters parameters).notMem hbrace) (by simp) (by simp) hpair
    refine (LeavesUnfinished.inList hitems (fun item hmem _ _ hread ↦ ih item hmem hread)
      (.inr ⟨rfl, rfl⟩) hrest).behindMark _ _ fun parting head hhead ↦ ?_
    exact ⟨⟨_, _, rfl, rfl⟩, .function name hlength hhead.recovers⟩

/-- In a program. -/
theorem Program.leavesUnfinished {read before after : List TokenKind} {statements : List Stmt}
    (hprogram : Program true read statements)
    (hpair : read = before ++ .symbol .semicolon :: .symbol .rightBrace :: after) :
    LeavesUnfinished (PartsInList false false) before := by
  obtain ⟨items, hitems, rfl, -⟩ := hprogram
  rw [← List.append_nil (items.flatMap Piece.read)] at hpair
  exact .inList hitems (fun item hmem _ _ hread ↦ (hitems item hmem).leavesUnfinished hread)
    (.inl rfl) hpair

end Grammar

end Lox
