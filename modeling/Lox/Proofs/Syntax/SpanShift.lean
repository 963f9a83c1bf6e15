import Lox.Proofs.Syntax.SpanErasure

/-!
# Syntax trees at another place

`Expr.shift` and `Stmt.shift` move every place in a tree by the same distance, as if so many more
bytes stood before the text that it was read from. Apart from places the tree stays the same
(`Expr.eraseSpans_shift`, `Stmt.eraseSpans_shift`), because a place that has been moved before it is
taken out has left nothing.
-/

set_option autoImplicit false
set_option relaxedAutoImplicit false

namespace Lox

/-- The same bytes of a text that has so many more before it. -/
def Span.shift (distance : Nat) (span : Span) : Span :=
  ⟨span.start + distance, span.stop + distance⟩

/-- The span around two moved ones is the moved span around them, so that a tree may be moved by
moving its parts. -/
theorem Span.union_shift (distance : Nat) (first second : Span) :
    (first.shift distance).union (second.shift distance) = (first.union second).shift distance := by
  simp only [union, shift, Nat.add_min_add_right, Nat.add_max_add_right]

/-- The same name, so much further on. -/
def Identifier.shift (distance : Nat) (identifier : Identifier) : Identifier :=
  identifier.mapSpan (Span.shift distance)

theorem Identifier.span_shift (distance : Nat) (identifier : Identifier) :
    (identifier.shift distance).span = identifier.span.shift distance := rfl

namespace Expr

/-- The same expression, so much further on. -/
def shift (distance : Nat) (tree : Expr) : Expr := tree.mapSpans (Span.shift distance)

/-- The same expressions, so much further on. -/
def shiftAll (distance : Nat) (trees : List Expr) : List Expr :=
  mapSpansAll (Span.shift distance) trees

variable (distance : Nat)

theorem shiftAll_eq_map (expressions : List Expr) :
    shiftAll distance expressions = expressions.map (shift distance) :=
  mapSpansAll_eq_map _ expressions

theorem span_shift (tree : Expr) : (tree.shift distance).span = tree.span.shift distance :=
  span_mapSpans _ tree

/-- Moving an expression changes nothing but places. -/
theorem eraseSpans_shift (tree : Expr) : (tree.shift distance).eraseSpans = tree.eraseSpans :=
  mapSpans_mapSpans _ _ tree

end Expr

namespace Stmt

/-- The same statement, so much further on. -/
def shift (distance : Nat) (tree : Stmt) : Stmt := tree.mapSpans (Span.shift distance)

/-- The same statements, so much further on. -/
def shiftAll (distance : Nat) (trees : List Stmt) : List Stmt :=
  mapSpansAll (Span.shift distance) trees

variable (distance : Nat)

theorem shift_block (body : List Stmt) :
    (block body).shift distance = block (shiftAll distance body) := rfl

theorem shift_function (identifier : Identifier) (parameters : List Identifier)
    (body : List Stmt) (span : Span) :
    (function identifier parameters body span).shift distance
      = function (identifier.shift distance) (parameters.map (Identifier.shift distance))
        (shiftAll distance body) (span.shift distance) := rfl

theorem shiftAll_eq_map (statements : List Stmt) :
    shiftAll distance statements = statements.map (shift distance) :=
  mapSpansAll_eq_map _ statements

/-- Moving a statement changes nothing but places. -/
theorem eraseSpans_shift (tree : Stmt) : (tree.shift distance).eraseSpans = tree.eraseSpans :=
  mapSpans_mapSpans _ _ tree

theorem eraseSpansAll_shiftAll (trees : List Stmt) :
    eraseSpansAll (shiftAll distance trees) = eraseSpansAll trees :=
  mapSpansAll_mapSpansAll _ _ trees

/-- A moved loop comes from its moved parts. -/
theorem shift_ofFor (keyword : Span) (initializer : Option Stmt)
    (condition increment : Option Expr) (body : Stmt) :
    (ofFor keyword initializer condition increment body).shift distance
      = ofFor (keyword.shift distance) (initializer.map (shift distance))
        (condition.map (Expr.shift distance)) (increment.map (Expr.shift distance))
        (body.shift distance) :=
  mapSpans_ofFor _ keyword initializer condition increment body

end Stmt

end Lox
