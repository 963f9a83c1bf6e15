import Lox.Statement

/-!
# Syntax trees with other places

`Expr.mapSpans` and `Stmt.mapSpans` change every place in a tree by the same function and leave the
rest of the tree as it is. Taking the places out of a tree and moving them all by one distance are
of this kind. Two changes one after the other are one change (`Expr.mapSpans_mapSpans`,
`Stmt.mapSpans_mapSpans`), and a loop that is written with its clauses may be changed in its clauses
(`Stmt.mapSpans_ofFor`).
-/

set_option autoImplicit false
set_option relaxedAutoImplicit false

namespace Lox

/-- The same name at a changed place. -/
def Identifier.mapSpan (change : Span → Span) (identifier : Identifier) : Identifier :=
  ⟨identifier.name, change identifier.span⟩

mutual

/-- The same expression with every place changed. -/
def Expr.mapSpans (change : Span → Span) : Expr → Expr
  | .literal value span => .literal value (change span)
  | .grouping inner span => .grouping (inner.mapSpans change) (change span)
  | .unary operator operand span => .unary operator (operand.mapSpans change) (change span)
  | .binary operator left right span =>
    .binary operator (left.mapSpans change) (right.mapSpans change) (change span)
  | .logical operator left right span =>
    .logical operator (left.mapSpans change) (right.mapSpans change) (change span)
  | .name identifier => .name (identifier.mapSpan change)
  | .assign target value span =>
    .assign (target.mapSpan change) (value.mapSpans change) (change span)
  | .call callee arguments span =>
    .call (callee.mapSpans change) (Expr.mapSpansAll change arguments) (change span)

/-- The same expressions with every place changed. -/
def Expr.mapSpansAll (change : Span → Span) : List Expr → List Expr
  | [] => []
  | first :: others => first.mapSpans change :: Expr.mapSpansAll change others

end

mutual

/-- The same statement with every place changed. -/
def Stmt.mapSpans (change : Span → Span) : Stmt → Stmt
  | .expression value => .expression (value.mapSpans change)
  | .print value => .print (value.mapSpans change)
  | .declare target initializer =>
    .declare (target.mapSpan change) (initializer.map (Expr.mapSpans change))
  | .block body => .block (Stmt.mapSpansAll change body)
  | .conditional condition thenBranch elseBranch =>
    .conditional (condition.mapSpans change) (thenBranch.mapSpans change)
      (Stmt.mapSpansOption change elseBranch)
  | .loop condition body => .loop (condition.mapSpans change) (body.mapSpans change)
  | .function identifier parameters body span =>
    .function (identifier.mapSpan change) (parameters.map (Identifier.mapSpan change))
      (Stmt.mapSpansAll change body) (change span)
  | .return value span => .return (value.map (Expr.mapSpans change)) (change span)

/-- The same statements with every place changed. -/
def Stmt.mapSpansAll (change : Span → Span) : List Stmt → List Stmt
  | [] => []
  | first :: others => first.mapSpans change :: Stmt.mapSpansAll change others

/-- The same statement, if there is one, with every place changed. -/
def Stmt.mapSpansOption (change : Span → Span) : Option Stmt → Option Stmt
  | none => none
  | some statement => some (statement.mapSpans change)

end

variable (outer inner change : Span → Span)

/-- The helper for lists of expressions is `List.map`; it stands beside the map of one expression so
that both are defined by recursion on the tree. -/
theorem Expr.mapSpansAll_eq_map (trees : List Expr) :
    mapSpansAll change trees = trees.map (mapSpans change) := by
  induction trees with
  | nil => rfl
  | cons first others ih => rw [mapSpansAll, ih, List.map_cons]

/-- The helper for lists of statements is `List.map`, as it is for expressions. -/
theorem Stmt.mapSpansAll_eq_map (trees : List Stmt) :
    mapSpansAll change trees = trees.map (mapSpans change) := by
  induction trees with
  | nil => rfl
  | cons first others ih => rw [mapSpansAll, ih, List.map_cons]

/-- A changed tree stands at the changed place of the tree: the place of a name is the one that its
identifier carries, and every other expression carries its own. -/
theorem Expr.span_mapSpans (tree : Expr) : (tree.mapSpans change).span = change tree.span := by
  cases tree <;> rfl

mutual

/-- Two changes of an expression one after the other are the change by their composition. -/
theorem Expr.mapSpans_mapSpans (tree : Expr) :
    (tree.mapSpans inner).mapSpans outer = tree.mapSpans (outer ∘ inner) := by
  cases tree with
  | literal => rfl
  | grouping body => simp only [mapSpans, body.mapSpans_mapSpans, Function.comp_apply]
  | unary _ operand => simp only [mapSpans, operand.mapSpans_mapSpans, Function.comp_apply]
  | binary _ left right =>
    simp only [mapSpans, left.mapSpans_mapSpans, right.mapSpans_mapSpans, Function.comp_apply]
  | logical _ left right =>
    simp only [mapSpans, left.mapSpans_mapSpans, right.mapSpans_mapSpans, Function.comp_apply]
  | name => rfl
  | assign _ value =>
    simp only [mapSpans, value.mapSpans_mapSpans, Identifier.mapSpan, Function.comp_apply]
  | call callee arguments =>
    simp only [mapSpans, callee.mapSpans_mapSpans, mapSpansAll_mapSpansAll, Function.comp_apply]

/-- The same for a list of expressions. -/
theorem Expr.mapSpansAll_mapSpansAll (trees : List Expr) :
    mapSpansAll outer (mapSpansAll inner trees) = mapSpansAll (outer ∘ inner) trees := by
  cases trees with
  | nil => rfl
  | cons first others =>
    simp only [mapSpansAll, first.mapSpans_mapSpans, mapSpansAll_mapSpansAll]

end

/-- The same for an expression that may be missing. -/
theorem Expr.map_mapSpans_mapSpans (tree : Option Expr) :
    (tree.map (mapSpans inner)).map (mapSpans outer) = tree.map (mapSpans (outer ∘ inner)) := by
  rw [Option.map_map]
  exact congrArg (Option.map · tree) (funext (mapSpans_mapSpans outer inner))

mutual

/-- Two changes of a statement one after the other are the change by their composition. -/
theorem Stmt.mapSpans_mapSpans (tree : Stmt) :
    (tree.mapSpans inner).mapSpans outer = tree.mapSpans (outer ∘ inner) := by
  cases tree with
  | expression value => rw [mapSpans, mapSpans, mapSpans, value.mapSpans_mapSpans]
  | print value => rw [mapSpans, mapSpans, mapSpans, value.mapSpans_mapSpans]
  | declare target initializer =>
    simp only [mapSpans, Expr.map_mapSpans_mapSpans, Identifier.mapSpan, Function.comp_apply]
  | block body => rw [mapSpans, mapSpans, mapSpans, mapSpansAll_mapSpansAll]
  | conditional condition thenBranch elseBranch =>
    rw [mapSpans, mapSpans, mapSpans, condition.mapSpans_mapSpans, thenBranch.mapSpans_mapSpans,
      mapSpansOption_mapSpansOption]
  | loop condition body =>
    rw [mapSpans, mapSpans, mapSpans, condition.mapSpans_mapSpans, body.mapSpans_mapSpans]
  | function identifier parameters body =>
    rw [mapSpans, mapSpans, mapSpans, mapSpansAll_mapSpansAll, List.map_map]
    rfl
  | «return» value =>
    simp only [mapSpans, Expr.map_mapSpans_mapSpans, Function.comp_apply]

/-- The same for a list of statements. -/
theorem Stmt.mapSpansAll_mapSpansAll (trees : List Stmt) :
    mapSpansAll outer (mapSpansAll inner trees) = mapSpansAll (outer ∘ inner) trees := by
  cases trees with
  | nil => rfl
  | cons first others =>
    simp only [mapSpansAll, first.mapSpans_mapSpans, mapSpansAll_mapSpansAll]

/-- The same for a statement that may be missing. -/
theorem Stmt.mapSpansOption_mapSpansOption (tree : Option Stmt) :
    mapSpansOption outer (mapSpansOption inner tree) = mapSpansOption (outer ∘ inner) tree := by
  cases tree with
  | none => rfl
  | some tree => simp only [mapSpansOption, tree.mapSpans_mapSpans]

end

/-- The changed loop is the loop of the changed clauses. The blocks and the second loop that it is
written with carry no places of their own; the condition that stands for a missing one stands at the
keyword. -/
theorem Stmt.mapSpans_ofFor (keyword : Span) (initializer : Option Stmt)
    (condition increment : Option Expr) (body : Stmt) :
    (ofFor keyword initializer condition increment body).mapSpans change
      = ofFor (change keyword) (initializer.map (mapSpans change))
        (condition.map (Expr.mapSpans change)) (increment.map (Expr.mapSpans change))
        (body.mapSpans change) := by
  cases initializer <;> cases condition <;> cases increment <;> rfl

end Lox
