import Lox.Proofs.Syntax.Alike
import Lox.Proofs.Syntax.Writing

/-!
# The nodes of a syntax tree

`Expr.nodes` and `Stmt.nodes` list the expressions in a tree, whole and parts, and `Stmt.functions`
the function declarations in it. `Expr.Wraps` and `Stmt.Wraps` relate a tree to the same tree with
one of these expressions in parentheses: that says the same if parentheses do not count
(`Stmt.Wraps.alike`), and in an expression the node fits in its parentheses where it was
(`Expr.Wraps.fits`).
-/

set_option autoImplicit false
set_option relaxedAutoImplicit false

namespace Lox

mutual

/-- The expressions in an expression, with that expression itself. -/
def Expr.nodes : Expr → List Expr
  | .literal value span => [.literal value span]
  | .grouping inner span => .grouping inner span :: inner.nodes
  | .unary operator operand span => .unary operator operand span :: operand.nodes
  | .binary operator left right span =>
    .binary operator left right span :: (left.nodes ++ right.nodes)
  | .logical operator left right span =>
    .logical operator left right span :: (left.nodes ++ right.nodes)
  | .name identifier => [.name identifier]
  | .assign target value span => .assign target value span :: value.nodes
  | .call callee arguments span =>
    .call callee arguments span :: (callee.nodes ++ Expr.nodesAll arguments)

/-- The expressions in several expressions. -/
def Expr.nodesAll : List Expr → List Expr
  | [] => []
  | first :: others => first.nodes ++ Expr.nodesAll others

end

theorem Expr.nodesAll_eq_flatMap (expressions : List Expr) :
    nodesAll expressions = expressions.flatMap nodes := by
  induction expressions with
  | nil => rfl
  | cons first others ih => rw [nodesAll, ih, List.flatMap_cons]

/-- The expressions in an expression that may be missing. -/
def Expr.nodesOption (expression : Option Expr) : List Expr := expression.toList.flatMap nodes

mutual

/-- The expressions in a statement. -/
def Stmt.nodes : Stmt → List Expr
  | .expression value => value.nodes
  | .print value => value.nodes
  | .declare _ initializer => Expr.nodesOption initializer
  | .block body => Stmt.nodesAll body
  | .conditional condition thenBranch elseBranch =>
    condition.nodes ++ thenBranch.nodes ++ Stmt.nodesOption elseBranch
  | .loop condition body => condition.nodes ++ body.nodes
  | .function _ _ body _ => Stmt.nodesAll body
  | .return value _ => Expr.nodesOption value

/-- The expressions in several statements. -/
def Stmt.nodesAll : List Stmt → List Expr
  | [] => []
  | first :: others => first.nodes ++ Stmt.nodesAll others

/-- The expressions in a statement that may be missing. -/
def Stmt.nodesOption : Option Stmt → List Expr
  | none => []
  | some statement => statement.nodes

end

theorem Stmt.nodesAll_eq_flatMap (statements : List Stmt) :
    nodesAll statements = statements.flatMap nodes := by
  induction statements with
  | nil => rfl
  | cons first others ih => rw [nodesAll, ih, List.flatMap_cons]

mutual

/-- The function declarations in a statement. -/
def Stmt.functions : Stmt → List Stmt
  | .function identifier parameters body span =>
    .function identifier parameters body span :: Stmt.functionsAll body
  | .block body => Stmt.functionsAll body
  | .conditional _ thenBranch elseBranch => thenBranch.functions ++ Stmt.functionsOption elseBranch
  | .loop _ body => body.functions
  | _ => []

/-- The function declarations in several statements. -/
def Stmt.functionsAll : List Stmt → List Stmt
  | [] => []
  | first :: others => first.functions ++ Stmt.functionsAll others

/-- The function declarations in a statement that may be missing. -/
def Stmt.functionsOption : Option Stmt → List Stmt
  | none => []
  | some statement => statement.functions

end

theorem Stmt.functionsAll_eq_flatMap (statements : List Stmt) :
    functionsAll statements = statements.flatMap functions := by
  induction statements with
  | nil => rfl
  | cons first others ih => rw [functionsAll, ih, List.flatMap_cons]

/-- The expressions in a loop are those in its parts, and the condition that is put where there is
none. -/
theorem Stmt.mem_nodes_ofFor {keyword : Span} {initializer : Option Stmt}
    {condition increment : Option Expr} {body : Stmt} {node : Expr} :
    node ∈ (ofFor keyword initializer condition increment body).nodes ↔
      node ∈ nodesOption initializer ∨
        node ∈ (condition.getD (.literal (.boolean true) keyword)).nodes ∨
        node ∈ Expr.nodesOption increment ∨ node ∈ body.nodes := by
  cases initializer <;> cases increment <;>
    simp [ofFor, nodes, nodesAll, nodesOption, Expr.nodesOption, or_comm]

theorem Stmt.mem_functions_ofFor {keyword : Span} {initializer : Option Stmt}
    {condition increment : Option Expr} {body declaration : Stmt} :
    declaration ∈ (ofFor keyword initializer condition increment body).functions ↔
      declaration ∈ functionsOption initializer ∨ declaration ∈ body.functions := by
  cases initializer <;> cases increment <;>
    simp [ofFor, functions, functionsAll, functionsOption]

/-! ### One more pair of parentheses -/

/-- The second expression is the first one with a certain part of it in parentheses. -/
inductive Expr.Wraps (node : Expr) : Expr → Expr → Prop
  | here (span : Span) : Wraps node node (.grouping node span)
  | grouping {inner edited : Expr} {span : Span} : Wraps node inner edited →
    Wraps node (.grouping inner span) (.grouping edited span)
  | unary {operator : UnaryOperator} {operand edited : Expr} {span : Span} :
    Wraps node operand edited →
    Wraps node (.unary operator operand span) (.unary operator edited span)
  | binaryLeft {operator : BinaryOperator} {left right edited : Expr} {span : Span} :
    Wraps node left edited →
    Wraps node (.binary operator left right span) (.binary operator edited right span)
  | binaryRight {operator : BinaryOperator} {left right edited : Expr} {span : Span} :
    Wraps node right edited →
    Wraps node (.binary operator left right span) (.binary operator left edited span)
  | logicalLeft {operator : LogicalOperator} {left right edited : Expr} {span : Span} :
    Wraps node left edited →
    Wraps node (.logical operator left right span) (.logical operator edited right span)
  | logicalRight {operator : LogicalOperator} {left right edited : Expr} {span : Span} :
    Wraps node right edited →
    Wraps node (.logical operator left right span) (.logical operator left edited span)
  | assign {target : Identifier} {value edited : Expr} {span : Span} : Wraps node value edited →
    Wraps node (.assign target value span) (.assign target edited span)
  | callee {callee edited : Expr} {arguments : List Expr} {span : Span} :
    Wraps node callee edited →
    Wraps node (.call callee arguments span) (.call edited arguments span)
  | argument {callee argument edited : Expr} {span : Span} (before after : List Expr) :
    Wraps node argument edited →
    Wraps node (.call callee (before ++ argument :: after) span)
      (.call callee (before ++ edited :: after) span)

/-- The second statement is the first one with a certain expression in it in parentheses. -/
inductive Stmt.Wraps (node : Expr) : Stmt → Stmt → Prop
  | expression {value edited : Expr} : Expr.Wraps node value edited →
    Wraps node (.expression value) (.expression edited)
  | print {value edited : Expr} : Expr.Wraps node value edited →
    Wraps node (.print value) (.print edited)
  | declare {target : Identifier} {value edited : Expr} : Expr.Wraps node value edited →
    Wraps node (.declare target (some value)) (.declare target (some edited))
  | block {statement edited : Stmt} (before after : List Stmt) : Wraps node statement edited →
    Wraps node (.block (before ++ statement :: after)) (.block (before ++ edited :: after))
  | condition {condition edited : Expr} {thenBranch : Stmt} {elseBranch : Option Stmt} :
    Expr.Wraps node condition edited →
    Wraps node (.conditional condition thenBranch elseBranch)
      (.conditional edited thenBranch elseBranch)
  | thenBranch {condition : Expr} {thenBranch edited : Stmt} {elseBranch : Option Stmt} :
    Wraps node thenBranch edited →
    Wraps node (.conditional condition thenBranch elseBranch)
      (.conditional condition edited elseBranch)
  | elseBranch {condition : Expr} {thenBranch elseBranch edited : Stmt} :
    Wraps node elseBranch edited →
    Wraps node (.conditional condition thenBranch (some elseBranch))
      (.conditional condition thenBranch (some edited))
  | loopCondition {condition edited : Expr} {body : Stmt} : Expr.Wraps node condition edited →
    Wraps node (.loop condition body) (.loop edited body)
  | loopBody {condition : Expr} {body edited : Stmt} : Wraps node body edited →
    Wraps node (.loop condition body) (.loop condition edited)
  | function {identifier : Identifier} {parameters : List Identifier} {statement edited : Stmt}
    {span : Span} (before after : List Stmt) : Wraps node statement edited →
    Wraps node (.function identifier parameters (before ++ statement :: after) span)
      (.function identifier parameters (before ++ edited :: after) span)
  | return {value edited : Expr} {span : Span} : Expr.Wraps node value edited →
    Wraps node (.return (some value) span) (.return (some edited) span)

/-- The second program is the first one with a certain expression in it in parentheses. -/
def Program.Wraps (node : Expr) (program edited : List Stmt) : Prop :=
  ∃ before statement wrapped after, program = before ++ statement :: after ∧
    edited = before ++ wrapped :: after ∧ Stmt.Wraps node statement wrapped

/-- A node fits in its parentheses where it was, and between parentheses every node does. -/
theorem Expr.Wraps.fits {node tree edited : Expr} (hwraps : Wraps node tree edited)
    {level : Grammar.Level} (hfits : tree.Fits level) :
    edited.Fits level ∧ node.Fits .assignment := by
  induction hwraps generalizing level with
  | here span => exact ⟨.grouping hfits.alone, hfits.alone⟩
  | grouping _ ih =>
    cases hfits with
    | grouping hinner =>
      obtain ⟨hedited, hnode⟩ := ih hinner
      exact ⟨.grouping hedited, hnode⟩
  | unary _ ih =>
    cases hfits with
    | unary hrank hoperand =>
      obtain ⟨hedited, hnode⟩ := ih hoperand
      exact ⟨.unary hrank hedited, hnode⟩
  | binaryLeft _ ih =>
    cases hfits with
    | binary hrank hleft hright =>
      obtain ⟨hedited, hnode⟩ := ih hleft
      exact ⟨.binary hrank hedited hright, hnode⟩
  | binaryRight _ ih =>
    cases hfits with
    | binary hrank hleft hright =>
      obtain ⟨hedited, hnode⟩ := ih hright
      exact ⟨.binary hrank hleft hedited, hnode⟩
  | logicalLeft _ ih =>
    cases hfits with
    | logical hrank hleft hright =>
      obtain ⟨hedited, hnode⟩ := ih hleft
      exact ⟨.logical hrank hedited hright, hnode⟩
  | logicalRight _ ih =>
    cases hfits with
    | logical hrank hleft hright =>
      obtain ⟨hedited, hnode⟩ := ih hright
      exact ⟨.logical hrank hleft hedited, hnode⟩
  | assign _ ih =>
    cases hfits with
    | assign hvalue =>
      obtain ⟨hedited, hnode⟩ := ih hvalue
      exact ⟨.assign hedited, hnode⟩
  | callee _ ih =>
    cases hfits with
    | call hrank hcallee hlength harguments =>
      obtain ⟨hedited, hnode⟩ := ih hcallee
      exact ⟨.call hrank hedited hlength harguments, hnode⟩
  | @argument _ argument edited _ before after _ ih =>
    cases hfits with
    | call hrank hcallee hlength harguments =>
      obtain ⟨hedited, hnode⟩ := ih (harguments argument (by simp))
      refine ⟨.call hrank hcallee (by simpa using hlength) fun other hmem ↦ ?_, hnode⟩
      rcases List.mem_append.mp hmem with hmem | hmem
      · exact harguments other (List.mem_append_left _ hmem)
      · rcases List.mem_cons.mp hmem with rfl | hmem
        · exact hedited
        · exact harguments other (by simp [hmem])

namespace Stmt.Wraps

variable {node : Expr} {keyword : Span} {initializer : Option Stmt}
  {condition increment : Option Expr} {body : Stmt}

theorem ofFor_initializer {first edited : Stmt} (hwraps : Wraps node first edited) :
    Wraps node (ofFor keyword (some first) condition increment body)
      (ofFor keyword (some edited) condition increment body) :=
  .block [] _ hwraps

theorem ofFor_condition {test edited : Expr} (hwraps : Expr.Wraps node test edited) :
    Wraps node (ofFor keyword initializer (some test) increment body)
      (ofFor keyword initializer (some edited) increment body) := by
  cases initializer with
  | none => exact .loopCondition hwraps
  | some first => exact .block [first] [] (.loopCondition hwraps)

theorem ofFor_increment {step edited : Expr} (hwraps : Expr.Wraps node step edited) :
    Wraps node (ofFor keyword initializer condition (some step) body)
      (ofFor keyword initializer condition (some edited) body) := by
  have hturn : Wraps node (.block [body, .expression step]) (.block [body, .expression edited]) :=
    .block [body] [] (.expression hwraps)
  cases initializer with
  | none => exact .loopBody hturn
  | some first => exact .block [first] [] (.loopBody hturn)

theorem ofFor_body {edited : Stmt} (hwraps : Wraps node body edited) :
    Wraps node (ofFor keyword initializer condition increment body)
      (ofFor keyword initializer condition increment edited) := by
  have hloop : Wraps node (ofFor keyword none condition increment body)
      (ofFor keyword none condition increment edited) := by
    cases increment with
    | none => exact .loopBody hwraps
    | some step => exact .loopBody (.block [] [.expression step] hwraps)
  cases initializer with
  | none => exact hloop
  | some first => exact .block [first] [] hloop

end Stmt.Wraps

/-! ### Alike, but for the parentheses -/

variable {leeway : Leeway}

theorem Expr.Wraps.alike (hparentheses : leeway.parentheses = true) {node tree edited : Expr}
    (hwraps : Wraps node tree edited) : Alike leeway tree edited := by
  induction hwraps with
  | here span => exact .closed hparentheses (.refl node)
  | grouping _ ih => exact .grouping ih
  | unary _ ih => exact .unary _ ih
  | binaryLeft _ ih => exact .binary _ ih (.refl _)
  | binaryRight _ ih => exact .binary _ (.refl _) ih
  | logicalLeft _ ih => exact .logical _ ih (.refl _)
  | logicalRight _ ih => exact .logical _ (.refl _) ih
  | assign _ ih => exact .assign _ ih
  | callee _ ih => exact .call ih (forall₂_alike_refl _)
  | argument before after _ ih =>
    exact .call (.refl _) (List.rel_append (forall₂_alike_refl _)
      (.cons ih (forall₂_alike_refl _)))

/-- A statement of a list may be exchanged for one that says the same. -/
theorem Stmt.AlikeAll.exchange {statement edited : Stmt} (halike : Alike leeway statement edited)
    (before after : List Stmt) :
    AlikeAll leeway (before ++ statement :: after) (before ++ edited :: after) := by
  induction before with
  | nil => exact .cons halike (.refl after)
  | cons first before ih => exact .cons (.refl first) ih

theorem Stmt.Wraps.alike (hparentheses : leeway.parentheses = true) {node : Expr}
    {statement edited : Stmt} (hwraps : Wraps node statement edited) :
    Alike leeway statement edited := by
  induction hwraps with
  | expression hvalue => exact .expression (hvalue.alike hparentheses)
  | print hvalue => exact .print (hvalue.alike hparentheses)
  | declare hvalue => exact .declare _ (.some (hvalue.alike hparentheses))
  | block before after _ ih => exact .block (.exchange ih before after)
  | condition hcondition =>
    exact .conditional (hcondition.alike hparentheses) (.refl _) (rel_alike_refl _)
  | thenBranch _ ih => exact .conditional (.refl _) ih (rel_alike_refl _)
  | elseBranch _ ih => exact .conditional (.refl _) (.refl _) (.some ih)
  | loopCondition hcondition => exact .loop (hcondition.alike hparentheses) (.refl _)
  | loopBody _ ih => exact .loop (.refl _) ih
  | function before after _ ih => exact .function rfl rfl (.exchange ih before after)
  | «return» hvalue => exact .return (.some (hvalue.alike hparentheses))

theorem Program.Wraps.alike (hparentheses : leeway.parentheses = true) {node : Expr}
    {program edited : List Stmt} (hwraps : Wraps node program edited) :
    Stmt.AlikeAll leeway program edited := by
  obtain ⟨before, statement, wrapped, after, rfl, rfl, hwraps⟩ := hwraps
  exact .exchange (hwraps.alike hparentheses) before after

end Lox
