import Lox.Proofs.Syntax.SpanMap

/-!
# Syntax trees without places

`Expr.eraseSpans` and `Stmt.eraseSpans` put every part of a tree at the start of the text. Two trees
that become equal say the same, wherever they have been read. The equations for the single
constructors hold by definition and are there to be simplified with.
-/

set_option autoImplicit false
set_option relaxedAutoImplicit false

namespace Lox

/-- The same name, without its place. -/
def Identifier.eraseSpan (identifier : Identifier) : Identifier :=
  identifier.mapSpan fun _ ↦ .origin

theorem Identifier.eraseSpan_eq (identifier : Identifier) :
    identifier.eraseSpan = ⟨identifier.name, .origin⟩ := rfl

namespace Expr

/-- The same expression, without places. -/
def eraseSpans (tree : Expr) : Expr := tree.mapSpans fun _ ↦ .origin

/-- The same expressions, without places. -/
def eraseSpansAll (trees : List Expr) : List Expr := mapSpansAll (fun _ ↦ .origin) trees

theorem eraseSpansAll_eq_map (expressions : List Expr) :
    eraseSpansAll expressions = expressions.map eraseSpans :=
  mapSpansAll_eq_map _ expressions

variable (value inner left right callee : Expr) (arguments : List Expr) (span : Span)

@[simp] theorem eraseSpans_literal (value : Literal) :
    (literal value span).eraseSpans = literal value .origin := rfl

@[simp] theorem eraseSpans_grouping :
    (grouping inner span).eraseSpans = grouping inner.eraseSpans .origin := rfl

@[simp] theorem eraseSpans_unary (operator : UnaryOperator) :
    (unary operator value span).eraseSpans = unary operator value.eraseSpans .origin := rfl

@[simp] theorem eraseSpans_binary (operator : BinaryOperator) :
    (binary operator left right span).eraseSpans
      = binary operator left.eraseSpans right.eraseSpans .origin := rfl

@[simp] theorem eraseSpans_logical (operator : LogicalOperator) :
    (logical operator left right span).eraseSpans
      = logical operator left.eraseSpans right.eraseSpans .origin := rfl

@[simp] theorem eraseSpans_name (identifier : Identifier) :
    (name identifier).eraseSpans = name identifier.eraseSpan := rfl

@[simp] theorem eraseSpans_assign (target : Identifier) :
    (assign target value span).eraseSpans
      = assign target.eraseSpan value.eraseSpans .origin := rfl

@[simp] theorem eraseSpans_call :
    (call callee arguments span).eraseSpans
      = call callee.eraseSpans (eraseSpansAll arguments) .origin := rfl

@[simp] theorem eraseSpansAll_nil : eraseSpansAll [] = [] := rfl

@[simp] theorem eraseSpansAll_cons :
    eraseSpansAll (value :: arguments) = value.eraseSpans :: eraseSpansAll arguments := rfl

end Expr

namespace Stmt

/-- The same statement, without places. -/
def eraseSpans (tree : Stmt) : Stmt := tree.mapSpans fun _ ↦ .origin

/-- The same statements, without places. -/
def eraseSpansAll (trees : List Stmt) : List Stmt := mapSpansAll (fun _ ↦ .origin) trees

/-- The same statement, if there is one, without places. -/
def eraseSpansOption (tree : Option Stmt) : Option Stmt := mapSpansOption (fun _ ↦ .origin) tree

theorem eraseSpansAll_eq_map (statements : List Stmt) :
    eraseSpansAll statements = statements.map eraseSpans :=
  mapSpansAll_eq_map _ statements

variable (value : Expr) (optional : Option Expr) (target : Identifier) (tree : Stmt)
  (body : List Stmt) (span : Span)

@[simp] theorem eraseSpans_expression :
    (expression value).eraseSpans = expression value.eraseSpans := rfl

@[simp] theorem eraseSpans_print : (print value).eraseSpans = print value.eraseSpans := rfl

@[simp] theorem eraseSpans_declare :
    (declare target optional).eraseSpans
      = declare target.eraseSpan (optional.map Expr.eraseSpans) := rfl

@[simp] theorem eraseSpans_block : (block body).eraseSpans = block (eraseSpansAll body) := rfl

@[simp] theorem eraseSpans_conditional (elseBranch : Option Stmt) :
    (conditional value tree elseBranch).eraseSpans
      = conditional value.eraseSpans tree.eraseSpans (eraseSpansOption elseBranch) := rfl

@[simp] theorem eraseSpans_loop :
    (loop value tree).eraseSpans = loop value.eraseSpans tree.eraseSpans := rfl

@[simp] theorem eraseSpans_function (parameters : List Identifier) :
    (function target parameters body span).eraseSpans
      = function target.eraseSpan (parameters.map Identifier.eraseSpan) (eraseSpansAll body)
        .origin := rfl

@[simp] theorem eraseSpans_return :
    («return» optional span).eraseSpans = «return» (optional.map Expr.eraseSpans) .origin := rfl

@[simp] theorem eraseSpansAll_nil : eraseSpansAll [] = [] := rfl

@[simp] theorem eraseSpansAll_cons :
    eraseSpansAll (tree :: body) = tree.eraseSpans :: eraseSpansAll body := rfl

@[simp] theorem eraseSpansOption_none : eraseSpansOption none = none := rfl

@[simp] theorem eraseSpansOption_some :
    eraseSpansOption (some tree) = some tree.eraseSpans := rfl

/-- A loop without places comes from the parts of it without places. -/
theorem eraseSpans_ofFor (keyword : Span) (initializer : Option Stmt)
    (condition increment : Option Expr) (body : Stmt) :
    (ofFor keyword initializer condition increment body).eraseSpans
      = ofFor .origin (initializer.map eraseSpans) (condition.map Expr.eraseSpans)
        (increment.map Expr.eraseSpans) body.eraseSpans :=
  mapSpans_ofFor _ keyword initializer condition increment body

end Stmt

end Lox
