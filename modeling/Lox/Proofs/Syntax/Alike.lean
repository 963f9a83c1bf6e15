import Lox.Proofs.Syntax.SpanErasure
import Mathlib.Data.List.Forall2

/-!
# Trees that say the same

Two trees are alike if they differ only in what does not count: always in the places that they were
read from, and as far as a `Leeway` allows in parentheses around expressions and in statements
behind a `return`. Trees that become equal without their places are alike without any leeway
(`Expr.alike_of_eraseSpans_eq`, `Stmt.alikeAll_of_eraseSpansAll_eq`).
-/

set_option autoImplicit false
set_option relaxedAutoImplicit false

namespace Lox

/-- The differences between trees that do not count, besides places. -/
structure Leeway where
  /-- One tree may have parentheses around an expression where the other has none. -/
  parentheses : Bool
  /-- The trees may have different statements behind a `return`. -/
  unreached : Bool

/-- Only places do not count. -/
def Leeway.none : Leeway := ⟨false, false⟩

variable {leeway : Leeway}

/-- Two expressions that say the same. -/
inductive Expr.Alike (leeway : Leeway) : Expr → Expr → Prop
  | literal {span span' : Span} (value : Literal) :
    Alike leeway (.literal value span) (.literal value span')
  | grouping {inner inner' : Expr} {span span' : Span} : Alike leeway inner inner' →
    Alike leeway (.grouping inner span) (.grouping inner' span')
  | unary {operand operand' : Expr} {span span' : Span} (operator : UnaryOperator) :
    Alike leeway operand operand' →
    Alike leeway (.unary operator operand span) (.unary operator operand' span')
  | binary {left left' right right' : Expr} {span span' : Span} (operator : BinaryOperator) :
    Alike leeway left left' → Alike leeway right right' →
    Alike leeway (.binary operator left right span) (.binary operator left' right' span')
  | logical {left left' right right' : Expr} {span span' : Span} (operator : LogicalOperator) :
    Alike leeway left left' → Alike leeway right right' →
    Alike leeway (.logical operator left right span) (.logical operator left' right' span')
  | name {span span' : Span} (name : String) :
    Alike leeway (.name ⟨name, span⟩) (.name ⟨name, span'⟩)
  | assign {value value' : Expr} {place place' span span' : Span} (name : String) :
    Alike leeway value value' →
    Alike leeway (.assign ⟨name, place⟩ value span) (.assign ⟨name, place'⟩ value' span')
  | call {callee callee' : Expr} {arguments arguments' : List Expr} {span span' : Span} :
    Alike leeway callee callee' → List.Forall₂ (Alike leeway) arguments arguments' →
    Alike leeway (.call callee arguments span) (.call callee' arguments' span')
  | opened {inner other : Expr} {span : Span} : leeway.parentheses = true →
    Alike leeway inner other → Alike leeway (.grouping inner span) other
  | closed {inner other : Expr} {span : Span} : leeway.parentheses = true →
    Alike leeway other inner → Alike leeway other (.grouping inner span)

mutual

/-- Two statements that say the same. -/
inductive Stmt.Alike (leeway : Leeway) : Stmt → Stmt → Prop
  | expression {value value' : Expr} : Expr.Alike leeway value value' →
    Stmt.Alike leeway (.expression value) (.expression value')
  | print {value value' : Expr} : Expr.Alike leeway value value' →
    Stmt.Alike leeway (.print value) (.print value')
  | declare {initializer initializer' : Option Expr} {span span' : Span} (name : String) :
    Option.Rel (Expr.Alike leeway) initializer initializer' →
    Stmt.Alike leeway (.declare ⟨name, span⟩ initializer) (.declare ⟨name, span'⟩ initializer')
  | block {body body' : List Stmt} : Stmt.AlikeAll leeway body body' →
    Stmt.Alike leeway (.block body) (.block body')
  | conditional {condition condition' : Expr} {thenBranch thenBranch' : Stmt}
    {elseBranch elseBranch' : Option Stmt} : Expr.Alike leeway condition condition' →
    Stmt.Alike leeway thenBranch thenBranch' →
    Option.Rel (Stmt.Alike leeway) elseBranch elseBranch' →
    Stmt.Alike leeway (.conditional condition thenBranch elseBranch)
      (.conditional condition' thenBranch' elseBranch')
  | loop {condition condition' : Expr} {body body' : Stmt} :
    Expr.Alike leeway condition condition' → Stmt.Alike leeway body body' →
    Stmt.Alike leeway (.loop condition body) (.loop condition' body')
  | function {identifier identifier' : Identifier} {parameters parameters' : List Identifier}
    {body body' : List Stmt} {span span' : Span} : identifier.name = identifier'.name →
    parameters.map Identifier.name = parameters'.map Identifier.name →
    Stmt.AlikeAll leeway body body' →
    Stmt.Alike leeway (.function identifier parameters body span)
      (.function identifier' parameters' body' span')
  | return {value value' : Option Expr} {span span' : Span} :
    Option.Rel (Expr.Alike leeway) value value' →
    Stmt.Alike leeway (.return value span) (.return value' span')

/-- Two lists of statements that say the same, one after the other. -/
inductive Stmt.AlikeAll (leeway : Leeway) : List Stmt → List Stmt → Prop
  | nil : Stmt.AlikeAll leeway [] []
  | cons {statement statement' : Stmt} {others others' : List Stmt} :
    Stmt.Alike leeway statement statement' → Stmt.AlikeAll leeway others others' →
    Stmt.AlikeAll leeway (statement :: others) (statement' :: others')
  | unreached {value value' : Option Expr} {span span' : Span} {others others' : List Stmt} :
    leeway.unreached = true → Option.Rel (Expr.Alike leeway) value value' →
    Stmt.AlikeAll leeway (.return value span :: others) (.return value' span' :: others')

end

/-- Two declarations of functions that say the same. -/
structure FunctionDeclaration.Alike (leeway : Leeway)
    (declaration declaration' : FunctionDeclaration) : Prop where
  name : declaration.identifier.name = declaration'.identifier.name
  parameters :
    declaration.parameters.map Identifier.name = declaration'.parameters.map Identifier.name
  body : Stmt.AlikeAll leeway declaration.body declaration'.body

mutual

/-- An expression says what it says, with any leeway or none. -/
theorem Expr.Alike.refl (tree : Expr) : Alike leeway tree tree := by
  cases tree with
  | literal value => exact .literal value
  | grouping inner => exact .grouping (.refl inner)
  | unary operator operand => exact .unary operator (.refl operand)
  | binary operator left right => exact .binary operator (.refl left) (.refl right)
  | logical operator left right => exact .logical operator (.refl left) (.refl right)
  | name identifier => exact .name identifier.name
  | assign target value => exact .assign target.name (.refl value)
  | call callee arguments => exact .call (.refl callee) (Expr.forall₂_alike_refl arguments)

theorem Expr.forall₂_alike_refl (trees : List Expr) :
    List.Forall₂ (Alike leeway) trees trees := by
  cases trees with
  | nil => exact .nil
  | cons tree others => exact .cons (.refl tree) (forall₂_alike_refl others)

end

theorem Expr.rel_alike_refl (tree : Option Expr) : Option.Rel (Alike leeway) tree tree := by
  cases tree with
  | none => exact .none
  | some tree => exact .some (.refl tree)

mutual

/-- So does a statement, and the statements in it. -/
theorem Stmt.Alike.refl (tree : Stmt) : Stmt.Alike leeway tree tree := by
  cases tree with
  | expression value => exact .expression (.refl value)
  | print value => exact .print (.refl value)
  | declare target initializer => exact .declare target.name (Expr.rel_alike_refl initializer)
  | block body => exact .block (.refl body)
  | conditional condition thenBranch elseBranch =>
    exact .conditional (.refl condition) (.refl thenBranch) (Stmt.rel_alike_refl elseBranch)
  | loop condition body => exact .loop (.refl condition) (.refl body)
  | function identifier parameters body => exact .function rfl rfl (.refl body)
  | «return» value => exact .return (Expr.rel_alike_refl value)

theorem Stmt.AlikeAll.refl (trees : List Stmt) : Stmt.AlikeAll leeway trees trees := by
  cases trees with
  | nil => exact .nil
  | cons tree others => exact .cons (.refl tree) (.refl others)

theorem Stmt.rel_alike_refl (tree : Option Stmt) : Option.Rel (Stmt.Alike leeway) tree tree := by
  cases tree with
  | none => exact .none
  | some tree => exact .some (.refl tree)

end

/-! ### Either way -/

mutual

/-- Which of two expressions has the parentheses that the other lacks does not matter. -/
theorem Expr.Alike.symm {tree tree' : Expr} : Alike leeway tree tree' → Alike leeway tree' tree
  | .literal value => .literal value
  | .grouping hinner => .grouping hinner.symm
  | .unary operator hoperand => .unary operator hoperand.symm
  | .binary operator hleft hright => .binary operator hleft.symm hright.symm
  | .logical operator hleft hright => .logical operator hleft.symm hright.symm
  | .name text => .name text
  | .assign text hvalue => .assign text hvalue.symm
  | .call hcallee harguments => .call hcallee.symm (Expr.forall₂_alike_symm harguments)
  | .opened hleeway hinner => .closed hleeway hinner.symm
  | .closed hleeway hinner => .opened hleeway hinner.symm

theorem Expr.forall₂_alike_symm {trees trees' : List Expr} :
    List.Forall₂ (Alike leeway) trees trees' → List.Forall₂ (Alike leeway) trees' trees
  | .nil => .nil
  | .cons htree hothers => .cons htree.symm (forall₂_alike_symm hothers)

end

theorem Expr.rel_alike_symm {tree tree' : Option Expr}
    (halike : Option.Rel (Alike leeway) tree tree') : Option.Rel (Alike leeway) tree' tree := by
  cases halike with
  | some halike => exact .some halike.symm
  | none => exact .none

mutual

/-- Nor does it matter for statements, or which of them has more behind a `return`. -/
theorem Stmt.Alike.symm {tree tree' : Stmt} :
    Stmt.Alike leeway tree tree' → Stmt.Alike leeway tree' tree
  | .expression hvalue => .expression hvalue.symm
  | .print hvalue => .print hvalue.symm
  | .declare text hinitializer => .declare text (Expr.rel_alike_symm hinitializer)
  | .block hbody => .block hbody.symm
  | .conditional hcondition hthen helse =>
    .conditional hcondition.symm hthen.symm (Stmt.rel_alike_symm helse)
  | .loop hcondition hbody => .loop hcondition.symm hbody.symm
  | .function hname hparameters hbody => .function hname.symm hparameters.symm hbody.symm
  | .return hvalue => .return (Expr.rel_alike_symm hvalue)

theorem Stmt.AlikeAll.symm {trees trees' : List Stmt} :
    Stmt.AlikeAll leeway trees trees' → Stmt.AlikeAll leeway trees' trees
  | .nil => .nil
  | .cons htree hothers => .cons htree.symm hothers.symm
  | .unreached hleeway hvalue => .unreached hleeway (Expr.rel_alike_symm hvalue)

theorem Stmt.rel_alike_symm {tree tree' : Option Stmt} :
    Option.Rel (Stmt.Alike leeway) tree tree' → Option.Rel (Stmt.Alike leeway) tree' tree
  | .some htree => .some htree.symm
  | .none => .none

end

/-- The same holds for the declarations that functions are made from. -/
theorem FunctionDeclaration.Alike.symm {declaration declaration' : FunctionDeclaration}
    (halike : Alike leeway declaration declaration') : Alike leeway declaration' declaration :=
  ⟨halike.name.symm, halike.parameters.symm, halike.body.symm⟩

/-! ### Erased places -/

mutual

/-- What an expression is alike to is known but for its places. -/
theorem Expr.Alike.of_eraseSpans_eq {tree tree' other : Expr} (halike : Alike leeway tree tree')
    (herase : tree'.eraseSpans = other.eraseSpans) : Alike leeway tree other := by
  cases halike with
  | literal value =>
    cases other <;> injection herase
    rename_i hvalue _
    exact hvalue ▸ .literal value
  | grouping hinner =>
    cases other <;> injection herase
    rename_i herase _
    exact .grouping (hinner.of_eraseSpans_eq herase)
  | unary operator hoperand =>
    cases other <;> injection herase
    rename_i hoperator herase _
    exact hoperator ▸ .unary operator (hoperand.of_eraseSpans_eq herase)
  | binary operator hleft hright =>
    cases other <;> injection herase
    rename_i hoperator heraseLeft heraseRight _
    exact hoperator ▸ .binary operator (hleft.of_eraseSpans_eq heraseLeft)
      (hright.of_eraseSpans_eq heraseRight)
  | logical operator hleft hright =>
    cases other <;> injection herase
    rename_i hoperator heraseLeft heraseRight _
    exact hoperator ▸ .logical operator (hleft.of_eraseSpans_eq heraseLeft)
      (hright.of_eraseSpans_eq heraseRight)
  | name text =>
    cases other <;> injection herase
    rename_i identifier hidentifier
    obtain ⟨text', span⟩ := identifier
    obtain rfl : text = text' := congrArg Identifier.name hidentifier
    exact .name text
  | assign text hvalue =>
    cases other <;> injection herase
    rename_i target _ _ htarget herase _
    obtain ⟨text', place⟩ := target
    obtain rfl : text = text' := congrArg Identifier.name htarget
    exact .assign text (hvalue.of_eraseSpans_eq herase)
  | call hcallee harguments =>
    cases other <;> injection herase
    rename_i heraseCallee heraseArguments _
    exact .call (hcallee.of_eraseSpans_eq heraseCallee)
      (Expr.forall₂_alike_of_eraseSpansAll_eq harguments heraseArguments)
  | opened hleeway hinner => exact .opened hleeway (hinner.of_eraseSpans_eq herase)
  | closed hleeway hinner =>
    cases other <;> injection herase
    rename_i herase _
    exact .closed hleeway (hinner.of_eraseSpans_eq herase)

/-- Arguments may be replaced by others that differ from them in places only. -/
theorem Expr.forall₂_alike_of_eraseSpansAll_eq {trees trees' others : List Expr}
    (halike : List.Forall₂ (Alike leeway) trees trees')
    (herase : eraseSpansAll trees' = eraseSpansAll others) :
    List.Forall₂ (Alike leeway) trees others := by
  cases halike with
  | nil =>
    cases others <;> injection herase
    exact .nil
  | cons htree hmore =>
    cases others <;> injection herase
    rename_i heraseTree heraseMore
    exact .cons (htree.of_eraseSpans_eq heraseTree)
      (forall₂_alike_of_eraseSpansAll_eq hmore heraseMore)

end

/-- The same for an expression that may be missing. -/
theorem Expr.rel_alike_of_map_eraseSpans_eq {tree tree' other : Option Expr}
    (halike : Option.Rel (Alike leeway) tree tree')
    (herase : tree'.map eraseSpans = other.map eraseSpans) :
    Option.Rel (Alike leeway) tree other := by
  cases halike with
  | some halike =>
    cases other <;> injection herase
    rename_i herase
    exact .some (halike.of_eraseSpans_eq herase)
  | none =>
    cases other <;> injection herase
    exact .none

mutual

/-- What a statement is alike to is known but for its places. -/
theorem Stmt.Alike.of_eraseSpans_eq {tree tree' other : Stmt}
    (halike : Stmt.Alike leeway tree tree') (herase : tree'.eraseSpans = other.eraseSpans) :
    Stmt.Alike leeway tree other := by
  cases halike with
  | expression hvalue =>
    cases other <;> injection herase
    rename_i herase
    exact .expression (hvalue.of_eraseSpans_eq herase)
  | print hvalue =>
    cases other <;> injection herase
    rename_i herase
    exact .print (hvalue.of_eraseSpans_eq herase)
  | declare text hinitializer =>
    cases other <;> injection herase
    rename_i target _ htarget herase
    obtain ⟨text', span⟩ := target
    obtain rfl : text = text' := congrArg Identifier.name htarget
    exact .declare text (Expr.rel_alike_of_map_eraseSpans_eq hinitializer herase)
  | block hbody =>
    cases other <;> injection herase
    rename_i herase
    exact .block (hbody.of_eraseSpansAll_eq herase)
  | conditional hcondition hthen helse =>
    cases other <;> injection herase
    rename_i heraseCondition heraseThen heraseElse
    exact .conditional (hcondition.of_eraseSpans_eq heraseCondition)
      (hthen.of_eraseSpans_eq heraseThen) (Stmt.rel_alike_of_eraseSpansOption_eq helse heraseElse)
  | loop hcondition hbody =>
    cases other <;> injection herase
    rename_i heraseCondition heraseBody
    exact .loop (hcondition.of_eraseSpans_eq heraseCondition) (hbody.of_eraseSpans_eq heraseBody)
  | function hname hparameters hbody =>
    cases other <;> injection herase
    rename_i hidentifier herased heraseBody _
    have hsame := congrArg Identifier.name hidentifier
    have hnames := congrArg (List.map Identifier.name) herased
    simp only [List.map_map] at hnames
    exact .function (hname.trans hsame) (hparameters.trans hnames)
      (hbody.of_eraseSpansAll_eq heraseBody)
  | «return» hvalue =>
    cases other <;> injection herase
    rename_i herase _
    exact .return (Expr.rel_alike_of_map_eraseSpans_eq hvalue herase)

/-- A list of statements may be replaced by one that differs from it in places only, and behind a
`return` as well. -/
theorem Stmt.AlikeAll.of_eraseSpansAll_eq {trees trees' others : List Stmt}
    (halike : Stmt.AlikeAll leeway trees trees')
    (herase : eraseSpansAll trees' = eraseSpansAll others) :
    Stmt.AlikeAll leeway trees others := by
  cases halike with
  | nil =>
    cases others <;> injection herase
    exact .nil
  | cons htree hmore =>
    cases others <;> injection herase
    rename_i heraseTree heraseMore
    exact .cons (htree.of_eraseSpans_eq heraseTree) (hmore.of_eraseSpansAll_eq heraseMore)
  | unreached hleeway hvalue =>
    cases others with
    | nil => injection herase
    | cons other others =>
      injection herase with herase
      cases other <;> injection herase
      rename_i herase _
      exact .unreached hleeway (Expr.rel_alike_of_map_eraseSpans_eq hvalue herase)

/-- The same for a statement that may be missing. -/
theorem Stmt.rel_alike_of_eraseSpansOption_eq {tree tree' other : Option Stmt}
    (halike : Option.Rel (Stmt.Alike leeway) tree tree')
    (herase : eraseSpansOption tree' = eraseSpansOption other) :
    Option.Rel (Stmt.Alike leeway) tree other := by
  cases halike with
  | some halike =>
    cases other <;> injection herase
    rename_i herase
    exact .some (halike.of_eraseSpans_eq herase)
  | none =>
    cases other <;> injection herase
    exact .none

end

/-- Expressions that become equal without their places are alike. -/
theorem Expr.alike_of_eraseSpans_eq (tree tree' : Expr)
    (herase : tree.eraseSpans = tree'.eraseSpans) : Alike leeway tree tree' :=
  (Alike.refl tree).of_eraseSpans_eq herase

/-- Statements that become equal without their places are alike. -/
theorem Stmt.alike_of_eraseSpans_eq (tree tree' : Stmt)
    (herase : tree.eraseSpans = tree'.eraseSpans) : Alike leeway tree tree' :=
  (Alike.refl tree).of_eraseSpans_eq herase

/-- Lists of statements that become equal without their places are alike. -/
theorem Stmt.alikeAll_of_eraseSpansAll_eq (trees trees' : List Stmt)
    (herase : eraseSpansAll trees = eraseSpansAll trees') : AlikeAll leeway trees trees' :=
  (AlikeAll.refl trees).of_eraseSpansAll_eq herase

end Lox
