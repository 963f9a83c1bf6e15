import Lox.Proofs.Syntax.Standing
import Lox.Proofs.Syntax.StatementSoundness

/-!
# Where statements stand

`Stmt.WrittenBy` is the grammar of statements with places: it relates the tokens of a statement,
and not only their kinds, to its tree with all the places in it. Every `else` belongs to the nearest
conditional that can take it, as in the trees that are read.

Without the places this is the grammar of statements (`Stmt.WrittenBy.statement`). A node in a
statement stands on tokens of its own, apart from the condition that is put where a loop has none,
and with parentheses around these tokens the statement is written with the node in parentheses
(`Stmt.WrittenBy.occurs`).
-/

set_option autoImplicit false
set_option relaxedAutoImplicit false

namespace Lox

open Grammar

/-- The tokens that write an expression on its own, and its tree. -/
structure Expr.WrittenBy (tokens : List Token) (tree : Expr) : Prop where
  stands : tree.StandsOn tokens
  fits : tree.Fits .assignment

/-- The tokens of an expression that may be missing, and its tree. -/
inductive Expr.OptionWrittenBy : List Token → Option Expr → Prop
  | missing : OptionWrittenBy [] none
  | present {tokens : List Token} {tree : Expr} : tree.WrittenBy tokens →
    OptionWrittenBy tokens (some tree)

/-- The tokens of a variable declaration behind its keyword, and its tree. -/
inductive Stmt.VariableWrittenBy : List Token → Stmt → Prop
  | bare (target : Identifier) (close : Span) :
    VariableWrittenBy [target.token, ⟨.symbol .semicolon, close⟩] (.declare target none)
  | initialized {tokens : List Token} {value : Expr} (target : Identifier) (mark close : Span) :
    value.WrittenBy tokens →
    VariableWrittenBy (target.token :: ⟨.symbol .equal, mark⟩ :: (tokens ++
        [⟨.symbol .semicolon, close⟩]))
      (.declare target (some value))

/-- The tokens of the initializer of a loop with its semicolon, and its tree. -/
inductive Stmt.InitializerWrittenBy : List Token → Option Stmt → Prop
  | missing (close : Span) : InitializerWrittenBy [⟨.symbol .semicolon, close⟩] none
  | declaration {tokens : List Token} {tree : Stmt} (keyword : Span) :
    VariableWrittenBy tokens tree →
    InitializerWrittenBy (⟨.keyword .var, keyword⟩ :: tokens) (some tree)
  | expression {tokens : List Token} {value : Expr} (close : Span) : value.WrittenBy tokens →
    InitializerWrittenBy (tokens ++ [⟨.symbol .semicolon, close⟩]) (some (.expression value))

/-! ### Statements -/

/-- The tokens that write a statement at a place, and its tree. As in the grammar the first flag
says whether the statement stands in the body of a function, and the second one asks that it does
not end in a conditional without an `else`. -/
inductive Stmt.WrittenBy : StatementPlace → Bool → Bool → List Token → Stmt → Prop
  | expression {place : StatementPlace} {inFunction closed : Bool} {tokens : List Token}
    {value : Expr} (close : Span) : value.WrittenBy tokens →
    WrittenBy place inFunction closed (tokens ++ [⟨.symbol .semicolon, close⟩]) (.expression value)
  | print {place : StatementPlace} {inFunction closed : Bool} {tokens : List Token}
    {value : Expr} (keyword close : Span) : value.WrittenBy tokens →
    WrittenBy place inFunction closed
      (⟨.keyword .print, keyword⟩ :: (tokens ++ [⟨.symbol .semicolon, close⟩])) (.print value)
  | return {place : StatementPlace} {closed : Bool} {tokens : List Token} {value : Option Expr}
    (keyword close : Span) : Expr.OptionWrittenBy tokens value →
    WrittenBy place true closed
      (⟨.keyword .return, keyword⟩ :: (tokens ++ [⟨.symbol .semicolon, close⟩]))
      (.return value ⟨keyword.start, close.stop⟩)
  | block {place : StatementPlace} {inFunction closed : Bool} {items : List (Stretch Stmt)}
    (opening closing : Span) :
    (∀ item ∈ items, WrittenBy .inList inFunction false item.tokens item.tree) →
    WrittenBy place inFunction closed
      (⟨.symbol .leftBrace, opening⟩ ::
        (items.flatMap Stretch.tokens ++ [⟨.symbol .rightBrace, closing⟩]))
      (.block (items.map Stretch.tree))
  | conditional {place : StatementPlace} {inFunction : Bool} {test body : List Token}
    {condition : Expr} {thenBranch : Stmt} (keyword opening closing : Span) :
    condition.WrittenBy test → WrittenBy .asBody inFunction false body thenBranch →
    WrittenBy place inFunction false
      (⟨.keyword .if, keyword⟩ :: ⟨.symbol .leftParenthesis, opening⟩ :: (test ++
        ⟨.symbol .rightParenthesis, closing⟩ :: body))
      (.conditional condition thenBranch none)
  | conditionalElse {place : StatementPlace} {inFunction closed : Bool}
    {test body other : List Token} {condition : Expr} {thenBranch elseBranch : Stmt}
    (keyword opening closing mark : Span) :
    condition.WrittenBy test → WrittenBy .asBody inFunction true body thenBranch →
    WrittenBy .asBody inFunction closed other elseBranch →
    WrittenBy place inFunction closed
      (⟨.keyword .if, keyword⟩ :: ⟨.symbol .leftParenthesis, opening⟩ :: (test ++
        ⟨.symbol .rightParenthesis, closing⟩ :: (body ++ ⟨.keyword .else, mark⟩ :: other)))
      (.conditional condition thenBranch (some elseBranch))
  | whileLoop {place : StatementPlace} {inFunction closed : Bool} {test body : List Token}
    {condition : Expr} {turn : Stmt} (keyword opening closing : Span) :
    condition.WrittenBy test → WrittenBy .asBody inFunction closed body turn →
    WrittenBy place inFunction closed
      (⟨.keyword .while, keyword⟩ :: ⟨.symbol .leftParenthesis, opening⟩ :: (test ++
        ⟨.symbol .rightParenthesis, closing⟩ :: body))
      (.loop condition turn)
  | forLoop {place : StatementPlace} {inFunction closed : Bool}
    {start test step body : List Token} {initializer : Option Stmt}
    {condition increment : Option Expr} {turn : Stmt} (keyword opening mark closing : Span) :
    InitializerWrittenBy start initializer → Expr.OptionWrittenBy test condition →
    Expr.OptionWrittenBy step increment → WrittenBy .asBody inFunction closed body turn →
    WrittenBy place inFunction closed
      (⟨.keyword .for, keyword⟩ :: ⟨.symbol .leftParenthesis, opening⟩ :: (start ++ (test ++
        ⟨.symbol .semicolon, mark⟩ :: (step ++ ⟨.symbol .rightParenthesis, closing⟩ :: body))))
      (.ofFor keyword initializer condition increment turn)
  | declare {inFunction closed : Bool} {tokens : List Token} {tree : Stmt} (keyword : Span) :
    VariableWrittenBy tokens tree →
    WrittenBy .inList inFunction closed (⟨.keyword .var, keyword⟩ :: tokens) tree
  | function {inFunction closed : Bool} {parameters : List Identifier} {list : List Token}
    {items : List (Stretch Stmt)} (name : Identifier)
    (keyword opening closing start stop : Span) : parameters.length ≤ maximumArguments →
    Separated (parameters.map fun parameter ↦ [parameter.token]) list →
    (∀ item ∈ items, WrittenBy .inList true false item.tokens item.tree) →
    WrittenBy .inList inFunction closed
      (⟨.keyword .fun, keyword⟩ :: name.token :: ⟨.symbol .leftParenthesis, opening⟩ :: (list ++
        ⟨.symbol .rightParenthesis, closing⟩ :: ⟨.symbol .leftBrace, start⟩ ::
          (items.flatMap Stretch.tokens ++ [⟨.symbol .rightBrace, stop⟩])))
      (.function name parameters (items.map Stretch.tree) ⟨keyword.start, stop.stop⟩)

/-- The tokens that write a program, and its statements. -/
def Program.WrittenBy (tokens : List Token) (statements : List Stmt) : Prop :=
  ∃ items : List (Stretch Stmt),
    (∀ item ∈ items, Stmt.WrittenBy .inList false false item.tokens item.tree) ∧
    tokens = items.flatMap Stretch.tokens ∧ statements = items.map Stretch.tree

/-- The kinds of the tokens of a stretch, and its tree without places. -/
def Stretch.piece (stretch : Stretch Stmt) : Piece Stmt :=
  ⟨stretch.tokens.map Token.kind, stretch.tree.eraseSpans⟩

theorem Stretch.flatMap_piece (items : List (Stretch Stmt)) :
    (items.flatMap Stretch.tokens).map Token.kind = (items.map piece).flatMap Piece.read := by
  rw [List.map_flatMap, List.flatMap_map]
  rfl

theorem Stretch.map_piece (items : List (Stretch Stmt)) :
    Stmt.eraseSpansAll (items.map Stretch.tree) = (items.map piece).map Piece.tree := by
  rw [Stmt.eraseSpansAll_eq_map, List.map_map, List.map_map]
  rfl

/-- Without its places, what is written is an expression of the grammar. -/
theorem Expr.WrittenBy.expression {tokens : List Token} {tree : Expr}
    (hwritten : tree.WrittenBy tokens) :
    Expression .assignment (tokens.map Token.kind) tree.eraseSpans := by
  rw [hwritten.stands.kinds_eq]
  exact expression_of_fits hwritten.fits

/-- The same if it may be missing. -/
theorem Expr.OptionWrittenBy.expression {tokens : List Token} {tree : Option Expr}
    (hwritten : OptionWrittenBy tokens tree) :
    OptionalExpression (tokens.map Token.kind) (tree.map eraseSpans) := by
  cases hwritten with
  | missing => exact .missing
  | present hpresent => exact .present hpresent.expression

namespace Stmt

/-- Without its places, a variable declaration is one of the grammar. -/
theorem VariableWrittenBy.declaration {tokens : List Token} {tree : Stmt}
    (hwritten : VariableWrittenBy tokens tree) :
    VariableDeclaration (tokens.map Token.kind) tree.eraseSpans := by
  cases hwritten with
  | bare target close => exact .bare target.name
  | initialized target mark close hvalue =>
    simpa [Identifier.eraseSpan_eq] using
      VariableDeclaration.initialized target.name hvalue.expression

/-- So is the first part of a loop. -/
theorem InitializerWrittenBy.initializer {tokens : List Token} {tree : Option Stmt}
    (hwritten : InitializerWrittenBy tokens tree) :
    Initializer (tokens.map Token.kind) (tree.map eraseSpans) := by
  cases hwritten with
  | missing => exact .missing
  | declaration keyword hdeclaration => exact .declaration hdeclaration.declaration
  | expression close hvalue => simpa using Initializer.expression hvalue.expression

/-- A closed statement may stand where a statement need not be closed. -/
theorem WrittenBy.weaken {place : StatementPlace} {inFunction closed : Bool} {tokens : List Token}
    {tree : Stmt} (hwritten : WrittenBy place inFunction closed tokens tree) :
    WrittenBy place inFunction false tokens tree := by
  induction hwritten with
  | expression close hvalue => exact .expression close hvalue
  | print keyword close hvalue => exact .print keyword close hvalue
  | «return» keyword close hvalue => exact .return keyword close hvalue
  | block opening closing hitems _ => exact .block opening closing hitems
  | conditional keyword opening closing htest hbody _ =>
    exact .conditional keyword opening closing htest hbody
  | conditionalElse keyword opening closing mark htest hbody _ _ ih =>
    exact .conditionalElse keyword opening closing mark htest hbody ih
  | whileLoop keyword opening closing htest _ ih =>
    exact .whileLoop keyword opening closing htest ih
  | forLoop keyword opening mark closing hstart htest hstep _ ih =>
    exact .forLoop keyword opening mark closing hstart htest hstep ih
  | declare keyword hdeclaration => exact .declare keyword hdeclaration
  | function name keyword opening closing start stop hlength hlist hitems _ =>
    exact .function name keyword opening closing start stop hlength hlist hitems

/-- The kinds of the tokens of a function declaration with certain statements in it. -/
theorem statement_function {inFunction closed : Bool} {parameters : List Identifier}
    {list : List Token} {pieces : List (Piece Stmt)} (name : Identifier)
    (hlength : parameters.length ≤ maximumArguments)
    (hlist : Separated (parameters.map fun parameter ↦ [parameter.token]) list)
    (hpieces : ∀ piece ∈ pieces, Statement true .inList true false piece.read piece.tree) :
    Statement true .inList inFunction closed
      (.keyword .fun :: .identifier name.name :: .symbol .leftParenthesis :: (list.map Token.kind ++
        .symbol .rightParenthesis :: .symbol .leftBrace ::
          (pieces.flatMap Piece.read ++ [.symbol .rightBrace])))
      (.function name.eraseSpan (parameters.map Identifier.eraseSpan) (pieces.map Piece.tree)
        .origin) := by
  have hlength' : (parameters.map Identifier.name).length ≤ maximumArguments := by
    rwa [List.length_map]
  have hfunction : Statement true .inList inFunction closed _ _ :=
    .function name.name hlength' hpieces
  have hkinds : (parameters.map Identifier.name).map (fun parameter ↦ [.identifier parameter])
      = (parameters.map fun parameter ↦ [parameter.token]).map (List.map Token.kind) := by
    rw [List.map_map, List.map_map]
    rfl
  have herased : (parameters.map Identifier.name).map (fun parameter ↦ ⟨parameter, .origin⟩)
      = parameters.map Identifier.eraseSpan := List.map_map
  rw [hkinds, parenthesized, ← hlist.kinds_eq, herased] at hfunction
  simpa [Identifier.eraseSpan_eq] using hfunction

/-- Without the places, what is written is a statement of the grammar. -/
theorem WrittenBy.statement {place : StatementPlace} {inFunction closed : Bool}
    {tokens : List Token} {tree : Stmt}
    (hwritten : WrittenBy place inFunction closed tokens tree) :
    Statement true place inFunction closed (tokens.map Token.kind) tree.eraseSpans := by
  induction hwritten with
  | expression close hvalue => simpa using Statement.expression hvalue.expression
  | print keyword close hvalue => simpa using Statement.print hvalue.expression
  | «return» keyword close hvalue => simpa using Statement.return hvalue.expression
  | @block place inFunction closed items opening closing _ ih =>
    have hpieces : ∀ piece ∈ items.map Stretch.piece,
        Statement true .inList inFunction false piece.read piece.tree :=
      List.forall_mem_map.mpr ih
    have hblock : Statement true place inFunction closed _ _ := .block hpieces
    rw [← Stretch.flatMap_piece, ← Stretch.map_piece] at hblock
    simpa using hblock
  | conditional keyword opening closing htest _ ih =>
    simpa using Statement.conditional htest.expression ih
  | conditionalElse keyword opening closing mark htest _ _ ihbody ihother =>
    simpa using
      Statement.conditionalElse htest.expression ihbody ihother
  | whileLoop keyword opening closing htest _ ih =>
    simpa using Statement.whileLoop htest.expression ih
  | forLoop keyword opening mark closing hstart htest hstep _ ih =>
    have hloop (place : StatementPlace) : Statement true place _ _ _ _ :=
      .forLoop hstart.initializer htest.expression hstep.expression ih
    simp only [forTree_eq_ofFor, ← eraseSpans_ofFor keyword] at hloop
    simpa using hloop _
  | declare keyword hdeclaration => exact .declare hdeclaration.declaration
  | @function inFunction closed _ _ items name keyword opening closing start stop hlength hlist _
      ih =>
    have hpieces : ∀ piece ∈ items.map Stretch.piece,
        Statement true .inList true false piece.read piece.tree := List.forall_mem_map.mpr ih
    have hfunction : Statement true .inList inFunction closed _ _ :=
      statement_function name hlength hlist hpieces
    rw [← Stretch.flatMap_piece, ← Stretch.map_piece] at hfunction
    simpa using hfunction

end Stmt

/-! ### Nodes in statements -/

/-- A node on tokens of its own among others: with parentheses around it, they meet a condition. -/
def Expr.OccursOn (node : Expr) (tokens : List Token) (good : List TokenKind → Prop) : Prop :=
  ∃ before own after, tokens = before ++ own ++ after ∧ node.WrittenBy own ∧
    good (enclosed before own after)

/-- The condition that is put where a loop has none. -/
def Expr.InsertedOn (tokens : List Token) (node : Expr) : Prop :=
  ∃ span, ⟨.keyword .for, span⟩ ∈ tokens ∧ node = .literal (.boolean true) span

/-- A condition that is put in for a loop comes from its keyword, which is also among more tokens.
-/
theorem Expr.InsertedOn.mono {tokens others : List Token} {node : Expr}
    (hinserted : InsertedOn tokens node) (hsubset : tokens ⊆ others) : InsertedOn others node := by
  obtain ⟨span, hmem, hnode⟩ := hinserted
  exact ⟨span, hsubset hmem, hnode⟩

/-- An occurrence among more tokens. -/
theorem Expr.OccursOn.within {node : Expr} {tokens whole : List Token}
    {good other : List TokenKind → Prop} (hoccurs : node.OccursOn tokens good)
    (before after : List Token) (hwhole : whole = before ++ tokens ++ after)
    (himp : ∀ kinds, good kinds → other (before.map Token.kind ++ kinds ++ after.map Token.kind)) :
    node.OccursOn whole other := by
  obtain ⟨first, own, last, rfl, hnode, hgood⟩ := hoccurs
  refine ⟨before ++ first, own, last ++ after, by simp [hwhole], hnode, ?_⟩
  have hother := himp _ hgood
  simp only [enclosed, List.map_append, List.append_assoc] at hother ⊢
  exact hother

/-- What a node with parentheses around it meets, it meets in every weaker sense. -/
theorem Expr.OccursOn.mono {node : Expr} {tokens : List Token} {good other : List TokenKind → Prop}
    (hoccurs : node.OccursOn tokens good) (himp : ∀ kinds, good kinds → other kinds) :
    node.OccursOn tokens other := by
  obtain ⟨before, own, after, htokens, hnode, hgood⟩ := hoccurs
  exact ⟨before, own, after, htokens, hnode, himp _ hgood⟩

/-- A node of an expression stands on tokens of its own, and with parentheses around these the
expression is written with the node in parentheses. -/
theorem Expr.WrittenBy.occurs {tokens : List Token} {tree node : Expr}
    (hwritten : tree.WrittenBy tokens) (hnode : node ∈ tree.nodes) :
    node.OccursOn tokens fun kinds ↦ ∃ edited, Expr.Wraps node tree edited ∧
      Expression .assignment kinds edited.eraseSpans := by
  obtain ⟨before, own, after, edited, rfl, hown, hwraps, hkinds⟩ :=
    hwritten.stands.occurrence hnode
  obtain ⟨hedited, hfits⟩ := hwraps.fits hwritten.fits
  refine ⟨before, own, after, rfl, ⟨hown, hfits⟩, edited, hwraps, ?_⟩
  rw [← hkinds]
  exact expression_of_fits hedited

/-- If an expression has a node, it is not missing. -/
theorem Expr.OptionWrittenBy.occurs {tokens : List Token} {tree : Option Expr} {node : Expr}
    (hwritten : OptionWrittenBy tokens tree) (hnode : node ∈ nodesOption tree) :
    ∃ value, tree = some value ∧ node.OccursOn tokens fun kinds ↦ ∃ edited,
      Expr.Wraps node value edited ∧ OptionalExpression kinds (some edited.eraseSpans) := by
  cases hwritten with
  | missing => cases hnode
  | @present tokens tree hpresent =>
    have hnode : node ∈ tree.nodes := by simpa [nodesOption] using hnode
    refine ⟨tree, rfl, (hpresent.occurs hnode).mono ?_⟩
    rintro kinds ⟨edited, hwraps, hedited⟩
    exact ⟨edited, hwraps, .present hedited⟩

namespace Stmt

/-- The nodes of a variable declaration are those of its initial value. -/
theorem VariableWrittenBy.occurs {tokens : List Token} {tree : Stmt} {node : Expr}
    (hwritten : VariableWrittenBy tokens tree) (hnode : node ∈ tree.nodes) :
    node.OccursOn tokens fun kinds ↦ ∃ edited, Wraps node tree edited ∧
      VariableDeclaration kinds edited.eraseSpans := by
  cases hwritten with
  | bare => cases hnode
  | @initialized tokens value target mark close hvalue =>
    have hnode : node ∈ value.nodes := by simpa [nodes, Expr.nodesOption] using hnode
    refine (hvalue.occurs hnode).within [target.token, ⟨.symbol .equal, mark⟩]
      [⟨.symbol .semicolon, close⟩] rfl ?_
    rintro kinds ⟨edited, hwraps, hedited⟩
    exact ⟨_, .declare hwraps, VariableDeclaration.initialized target.name hedited⟩

/-- The first part of a loop has the nodes of its declaration or of its expression. -/
theorem InitializerWrittenBy.occurs {tokens : List Token} {tree : Option Stmt} {node : Expr}
    (hwritten : InitializerWrittenBy tokens tree) (hnode : node ∈ nodesOption tree) :
    ∃ first, tree = some first ∧ node.OccursOn tokens fun kinds ↦ ∃ edited,
      Wraps node first edited ∧ Initializer kinds (some edited.eraseSpans) := by
  cases hwritten with
  | missing => cases hnode
  | @declaration tokens tree keyword hdeclaration =>
    refine ⟨tree, rfl, (hdeclaration.occurs hnode).within [⟨.keyword .var, keyword⟩] []
      (by simp) ?_⟩
    rintro kinds ⟨edited, hwraps, hedited⟩
    exact ⟨edited, hwraps, by simpa using Initializer.declaration hedited⟩
  | @expression tokens value close hvalue =>
    refine ⟨.expression value, rfl, (hvalue.occurs hnode).within []
      [⟨.symbol .semicolon, close⟩] (by simp) ?_⟩
    rintro kinds ⟨edited, hwraps, hedited⟩
    exact ⟨.expression edited, .expression hwraps, Initializer.expression hedited⟩

/-- A node in one of several statements behind one another. -/
theorem occurs_of_mem {inFunction : Bool} {items : List (Stretch Stmt)} {node : Expr}
    (hitems : ∀ item ∈ items, WrittenBy .inList inFunction false item.tokens item.tree)
    (hoccurs : ∀ item ∈ items, node ∈ item.tree.nodes →
      node.OccursOn item.tokens fun kinds ↦ ∃ edited, Wraps node item.tree edited ∧
        Statement true .inList inFunction false kinds edited.eraseSpans)
    (hnode : node ∈ nodesAll (items.map Stretch.tree)) :
    node.OccursOn (items.flatMap Stretch.tokens) fun kinds ↦
      ∃ (before after : List Stmt) (item edited : Stmt) (pieces : List (Piece Stmt)),
        items.map Stretch.tree = before ++ item :: after ∧ Wraps node item edited ∧
        (∀ piece ∈ pieces, Statement true .inList inFunction false piece.read piece.tree) ∧
        kinds = pieces.flatMap Piece.read ∧
        eraseSpansAll (before ++ edited :: after) = pieces.map Piece.tree := by
  rw [nodesAll_eq_flatMap] at hnode
  obtain ⟨tree, htree, hnode⟩ := List.mem_flatMap.mp hnode
  obtain ⟨item, hitem, rfl⟩ := List.mem_map.mp htree
  have hitem' := hoccurs item hitem hnode
  obtain ⟨before, after, rfl⟩ := List.append_of_mem hitem
  refine hitem'.within (before.flatMap Stretch.tokens) (after.flatMap Stretch.tokens) (by simp) ?_
  rintro kinds ⟨edited, hwraps, hedited⟩
  refine ⟨before.map Stretch.tree, after.map Stretch.tree, item.tree, edited,
    before.map Stretch.piece ++ ⟨kinds, edited.eraseSpans⟩ :: after.map Stretch.piece,
    by simp, hwraps, fun piece hmem ↦ ?_, ?_, ?_⟩
  · rcases List.mem_append.mp hmem with hmem | hmem
    · obtain ⟨other, hother, rfl⟩ := List.mem_map.mp hmem
      exact (hitems other (by simp [hother])).statement
    · rcases List.mem_cons.mp hmem with rfl | hmem
      · exact hedited
      · obtain ⟨other, hother, rfl⟩ := List.mem_map.mp hmem
        exact (hitems other (by simp [hother])).statement
  · rw [Stretch.flatMap_piece, Stretch.flatMap_piece]
    simp
  · rw [eraseSpansAll_eq_map, List.map_append, List.map_cons, ← eraseSpansAll_eq_map,
      ← eraseSpansAll_eq_map, Stretch.map_piece, Stretch.map_piece]
    simp

/-- The clauses and the body of a loop, without places, write the loop. -/
theorem statement_ofFor {place : StatementPlace} {inFunction closed : Bool} (keyword : Span)
    {initializer : Option Stmt} {condition increment : Option Expr} {turn : Stmt}
    {start test step body : List TokenKind}
    (hstart : Initializer start (initializer.map eraseSpans))
    (htest : OptionalExpression test (condition.map Expr.eraseSpans))
    (hstep : OptionalExpression step (increment.map Expr.eraseSpans))
    (hbody : Statement true .asBody inFunction closed body turn.eraseSpans) :
    Statement true place inFunction closed (.keyword .for :: .symbol .leftParenthesis ::
      (start ++ (test ++ .symbol .semicolon :: (step ++ .symbol .rightParenthesis :: body))))
      (ofFor keyword initializer condition increment turn).eraseSpans := by
  have hloop : Statement true place _ _ _ _ := .forLoop hstart htest hstep hbody
  rw [forTree_eq_ofFor, ← eraseSpans_ofFor keyword] at hloop
  simpa using hloop

/-- A node of a loop with clauses stands in one of the clauses or in the body, unless it is the
condition that has been put where the loop has none. With parentheses around the tokens of the node
that part is written with the node in parentheses, and the other parts are written as before. -/
theorem occurs_ofFor {place : StatementPlace} {inFunction closed : Bool}
    {start test step body : List Token} {initializer : Option Stmt}
    {condition increment : Option Expr} {turn : Stmt} {node : Expr}
    (keyword opening mark closing : Span) (hstart : InitializerWrittenBy start initializer)
    (htest : Expr.OptionWrittenBy test condition) (hstep : Expr.OptionWrittenBy step increment)
    (hbody : WrittenBy .asBody inFunction closed body turn)
    (hturn : node ∈ turn.nodes → node.OccursOn body fun kinds ↦ ∃ edited, Wraps node turn edited ∧
      Statement true .asBody inFunction closed kinds edited.eraseSpans)
    (hnode : node ∈ (ofFor keyword initializer condition increment turn).nodes)
    (hinserted : node ≠ .literal (.boolean true) keyword) :
    node.OccursOn (⟨.keyword .for, keyword⟩ :: ⟨.symbol .leftParenthesis, opening⟩ :: (start ++
      (test ++ ⟨.symbol .semicolon, mark⟩ :: (step ++
        ⟨.symbol .rightParenthesis, closing⟩ :: body)))) fun kinds ↦ ∃ edited,
      Wraps node (ofFor keyword initializer condition increment turn) edited ∧
        Statement true place inFunction closed kinds edited.eraseSpans := by
  rcases mem_nodes_ofFor.mp hnode with hnode | hnode | hnode | hnode
  · obtain ⟨first, rfl, hoccurs⟩ := hstart.occurs hnode
    refine hoccurs.within [⟨.keyword .for, keyword⟩, ⟨.symbol .leftParenthesis, opening⟩]
      (test ++ ⟨.symbol .semicolon, mark⟩ :: (step ++
        ⟨.symbol .rightParenthesis, closing⟩ :: body)) rfl ?_
    rintro kinds ⟨edited, hwraps, hedited⟩
    exact ⟨_, .ofFor_initializer hwraps, by
      simpa using statement_ofFor keyword hedited htest.expression hstep.expression
        hbody.statement⟩
  · cases condition with
    | none => exact absurd (List.mem_singleton.mp hnode) hinserted
    | some value =>
      have hnode : node ∈ Expr.nodesOption (some value) := by
        simpa [Expr.nodesOption] using hnode
      obtain ⟨_, ⟨⟩, hoccurs⟩ := htest.occurs hnode
      refine hoccurs.within (⟨.keyword .for, keyword⟩ ::
        ⟨.symbol .leftParenthesis, opening⟩ :: start) (⟨.symbol .semicolon, mark⟩ :: (step ++
          ⟨.symbol .rightParenthesis, closing⟩ :: body)) (by simp) ?_
      rintro kinds ⟨edited, hwraps, hedited⟩
      exact ⟨_, .ofFor_condition hwraps, by
        simpa using statement_ofFor keyword hstart.initializer hedited hstep.expression
          hbody.statement⟩
  · obtain ⟨value, rfl, hoccurs⟩ := hstep.occurs hnode
    refine hoccurs.within (⟨.keyword .for, keyword⟩ :: ⟨.symbol .leftParenthesis, opening⟩ ::
      (start ++ (test ++ [⟨.symbol .semicolon, mark⟩])))
      (⟨.symbol .rightParenthesis, closing⟩ :: body) (by simp) ?_
    rintro kinds ⟨edited, hwraps, hedited⟩
    exact ⟨_, .ofFor_increment hwraps, by
      simpa using statement_ofFor keyword hstart.initializer htest.expression hedited
        hbody.statement⟩
  · refine (hturn hnode).within (⟨.keyword .for, keyword⟩ ::
      ⟨.symbol .leftParenthesis, opening⟩ :: (start ++ (test ++ ⟨.symbol .semicolon, mark⟩ ::
        (step ++ [⟨.symbol .rightParenthesis, closing⟩])))) [] (by simp) ?_
    rintro kinds ⟨edited, hwraps, hedited⟩
    exact ⟨_, .ofFor_body hwraps, by
      simpa using statement_ofFor keyword hstart.initializer htest.expression hstep.expression
        hedited⟩

/-- A node in a statement stands on tokens of its own, unless it is a condition that has been put
where there is none, and with parentheses around these tokens the statement is written with the node
in parentheses. -/
theorem WrittenBy.occurs {place : StatementPlace} {inFunction closed : Bool} {tokens : List Token}
    {tree : Stmt} {node : Expr} (hwritten : WrittenBy place inFunction closed tokens tree)
    (hnode : node ∈ tree.nodes) (hinserted : ¬ node.InsertedOn tokens) :
    node.OccursOn tokens fun kinds ↦ ∃ edited, Wraps node tree edited ∧
      Statement true place inFunction closed kinds edited.eraseSpans := by
  induction hwritten with
  | expression close hvalue =>
    refine (hvalue.occurs hnode).within [] [⟨.symbol .semicolon, close⟩] (by simp) ?_
    rintro kinds ⟨edited, hwraps, hedited⟩
    exact ⟨.expression edited, .expression hwraps, Statement.expression hedited⟩
  | print keyword close hvalue =>
    refine (hvalue.occurs hnode).within [⟨.keyword .print, keyword⟩]
      [⟨.symbol .semicolon, close⟩] rfl ?_
    rintro kinds ⟨edited, hwraps, hedited⟩
    exact ⟨.print edited, .print hwraps, Statement.print hedited⟩
  | «return» keyword close hvalue =>
    obtain ⟨value, rfl, hoccurs⟩ := hvalue.occurs hnode
    refine hoccurs.within [⟨.keyword .return, keyword⟩] [⟨.symbol .semicolon, close⟩] rfl ?_
    rintro kinds ⟨edited, hwraps, hedited⟩
    exact ⟨_, .return hwraps, Statement.return hedited⟩
  | @block _ _ _ items opening closing hitems ih =>
    have hoccurs := occurs_of_mem hitems (fun item hmem hnode ↦ ih item hmem hnode fun h ↦
      hinserted (h.mono fun token htoken ↦ by simp; exact .inr (.inl ⟨item, hmem, htoken⟩))) hnode
    refine hoccurs.within [⟨.symbol .leftBrace, opening⟩] [⟨.symbol .rightBrace, closing⟩] rfl ?_
    rintro _ ⟨before, after, item, edited, pieces, htrees, hwraps, hpieces, rfl, herase⟩
    refine ⟨.block (before ++ edited :: after), ?_, ?_⟩
    · rw [htrees]
      exact .block before after hwraps
    · rw [eraseSpans_block, herase]
      exact .block hpieces
  | @conditional _ _ test body _ _ keyword opening closing htest hbody ih =>
    rw [nodes, nodesOption, List.append_nil] at hnode
    rcases List.mem_append.mp hnode with hnode | hnode
    · refine (htest.occurs hnode).within
        [⟨.keyword .if, keyword⟩, ⟨.symbol .leftParenthesis, opening⟩]
        (⟨.symbol .rightParenthesis, closing⟩ :: body) rfl ?_
      rintro kinds ⟨edited, hwraps, hedited⟩
      exact ⟨_, .condition hwraps, Statement.conditional hedited hbody.statement⟩
    · have hoccurs := ih hnode fun h ↦ hinserted (h.mono fun token htoken ↦ by simp [htoken])
      refine hoccurs.within (⟨.keyword .if, keyword⟩ :: ⟨.symbol .leftParenthesis, opening⟩ ::
        (test ++ [⟨.symbol .rightParenthesis, closing⟩])) [] (by simp) ?_
      rintro kinds ⟨edited, hwraps, hedited⟩
      exact ⟨_, .thenBranch hwraps, by
        simpa using Statement.conditional htest.expression hedited⟩
  | @conditionalElse _ _ _ test body other _ _ _ keyword opening closing mark htest hbody hother
      ihbody ihother =>
    rw [nodes, nodesOption] at hnode
    rcases List.mem_append.mp hnode with hnode | hnode
    · rcases List.mem_append.mp hnode with hnode | hnode
      · refine (htest.occurs hnode).within
          [⟨.keyword .if, keyword⟩, ⟨.symbol .leftParenthesis, opening⟩]
          (⟨.symbol .rightParenthesis, closing⟩ :: (body ++ ⟨.keyword .else, mark⟩ :: other))
          rfl ?_
        rintro kinds ⟨edited, hwraps, hedited⟩
        exact ⟨_, .condition hwraps, by
          simpa using
            Statement.conditionalElse hedited hbody.statement hother.statement⟩
      · have hoccurs := ihbody hnode fun h ↦ hinserted (h.mono fun token htoken ↦ by simp [htoken])
        refine hoccurs.within (⟨.keyword .if, keyword⟩ :: ⟨.symbol .leftParenthesis, opening⟩ ::
          (test ++ [⟨.symbol .rightParenthesis, closing⟩])) (⟨.keyword .else, mark⟩ :: other)
          (by simp) ?_
        rintro kinds ⟨edited, hwraps, hedited⟩
        exact ⟨_, .thenBranch hwraps, by
          simpa using
            Statement.conditionalElse htest.expression hedited hother.statement⟩
    · have hoccurs := ihother hnode fun h ↦ hinserted (h.mono fun token htoken ↦ by simp [htoken])
      refine hoccurs.within (⟨.keyword .if, keyword⟩ :: ⟨.symbol .leftParenthesis, opening⟩ ::
        (test ++ ⟨.symbol .rightParenthesis, closing⟩ :: (body ++ [⟨.keyword .else, mark⟩]))) []
        (by simp) ?_
      rintro kinds ⟨edited, hwraps, hedited⟩
      exact ⟨_, .elseBranch hwraps, by
        simpa using
          Statement.conditionalElse htest.expression hbody.statement hedited⟩
  | @whileLoop _ _ _ test body _ _ keyword opening closing htest hbody ih =>
    rcases List.mem_append.mp hnode with hnode | hnode
    · refine (htest.occurs hnode).within
        [⟨.keyword .while, keyword⟩, ⟨.symbol .leftParenthesis, opening⟩]
        (⟨.symbol .rightParenthesis, closing⟩ :: body) rfl ?_
      rintro kinds ⟨edited, hwraps, hedited⟩
      exact ⟨_, .loopCondition hwraps, Statement.whileLoop hedited hbody.statement⟩
    · have hoccurs := ih hnode fun h ↦ hinserted (h.mono fun token htoken ↦ by simp [htoken])
      refine hoccurs.within (⟨.keyword .while, keyword⟩ :: ⟨.symbol .leftParenthesis, opening⟩ ::
        (test ++ [⟨.symbol .rightParenthesis, closing⟩])) [] (by simp) ?_
      rintro kinds ⟨edited, hwraps, hedited⟩
      exact ⟨_, .loopBody hwraps, by
        simpa using Statement.whileLoop htest.expression hedited⟩
  | forLoop keyword opening mark closing hstart htest hstep hbody ih =>
    exact occurs_ofFor keyword opening mark closing hstart htest hstep hbody
      (fun hnode ↦ ih hnode fun h ↦ hinserted (h.mono fun token htoken ↦ by simp [htoken])) hnode
      fun hliteral ↦ hinserted ⟨keyword, List.mem_cons_self, hliteral⟩
  | declare keyword hdeclaration =>
    refine (hdeclaration.occurs hnode).within [⟨.keyword .var, keyword⟩] [] (by simp) ?_
    rintro kinds ⟨edited, hwraps, hedited⟩
    exact ⟨edited, hwraps, by simpa using Statement.declare hedited⟩
  | @function inFunction closed parameters list items name keyword opening closing start stop
      hlength hlist hitems ih =>
    have hoccurs := occurs_of_mem hitems (fun item hmem hnode ↦ ih item hmem hnode fun h ↦
      hinserted (h.mono fun token htoken ↦ by
        simp
        exact .inr (.inr (.inr (.inr (.inr (.inr (.inl ⟨item, hmem, htoken⟩)))))))) hnode
    refine hoccurs.within (⟨.keyword .fun, keyword⟩ :: name.token ::
      ⟨.symbol .leftParenthesis, opening⟩ :: (list ++
        [⟨.symbol .rightParenthesis, closing⟩, ⟨.symbol .leftBrace, start⟩]))
      [⟨.symbol .rightBrace, stop⟩] (by simp) ?_
    rintro _ ⟨before, after, item, edited, pieces, htrees, hwraps, hpieces, rfl, herase⟩
    refine ⟨.function name parameters (before ++ edited :: after) ⟨keyword.start, stop.stop⟩,
      ?_, ?_⟩
    · rw [htrees]
      exact .function before after hwraps
    · rw [eraseSpans_function, herase]
      simpa using statement_function name hlength hlist hpieces

/-! ### Functions in statements -/

/-- The declaration of a function, on tokens of its own that also write it alone. -/
def FunctionOn (declaration : Stmt) (tokens : List Token) : Prop :=
  ∃ before own after, tokens = before ++ own ++ after ∧ Program.WrittenBy own [declaration] ∧
    ∃ name parameters body span, declaration = .function name parameters body span ∧
      span.Covers own

/-- A function that stands on some of the tokens stands on all of them, with more before it and
behind it. -/
theorem FunctionOn.within {declaration : Stmt} {tokens whole : List Token}
    (hfunction : FunctionOn declaration tokens) (before after : List Token)
    (hwhole : whole = before ++ tokens ++ after) : FunctionOn declaration whole := by
  obtain ⟨first, own, last, rfl, hown⟩ := hfunction
  exact ⟨before ++ first, own, last ++ after, by simp [hwhole], hown⟩

/-- The functions of a list of statements are those of its items, each on tokens of the item. -/
theorem functionOn_of_mem {items : List (Stretch Stmt)} {declaration : Stmt}
    (hitems : ∀ item ∈ items, declaration ∈ item.tree.functions →
      FunctionOn declaration item.tokens)
    (hdeclaration : declaration ∈ functionsAll (items.map Stretch.tree)) :
    FunctionOn declaration (items.flatMap Stretch.tokens) := by
  rw [functionsAll_eq_flatMap] at hdeclaration
  obtain ⟨tree, htree, hdeclaration⟩ := List.mem_flatMap.mp hdeclaration
  obtain ⟨item, hitem, rfl⟩ := List.mem_map.mp htree
  have hitem' := hitems item hitem hdeclaration
  obtain ⟨before, after, rfl⟩ := List.append_of_mem hitem
  exact hitem'.within (before.flatMap Stretch.tokens) (after.flatMap Stretch.tokens) (by simp)

/-- A function declaration in a statement stands on tokens that write it alone. The first part of a
loop declares none. -/
theorem WrittenBy.functionOn {place : StatementPlace} {inFunction closed : Bool}
    {tokens : List Token} {tree declaration : Stmt}
    (hwritten : WrittenBy place inFunction closed tokens tree)
    (hdeclaration : declaration ∈ tree.functions) : FunctionOn declaration tokens := by
  induction hwritten with
  | expression | print | «return» => cases hdeclaration
  | block opening closing _ ih =>
    exact (functionOn_of_mem ih hdeclaration).within [⟨.symbol .leftBrace, opening⟩]
      [⟨.symbol .rightBrace, closing⟩] rfl
  | @conditional _ _ test _ _ _ keyword opening closing _ _ ih =>
    rw [functions, functionsOption, List.append_nil] at hdeclaration
    exact (ih hdeclaration).within (⟨.keyword .if, keyword⟩ ::
      ⟨.symbol .leftParenthesis, opening⟩ :: (test ++ [⟨.symbol .rightParenthesis, closing⟩])) []
      (by simp)
  | @conditionalElse _ _ _ test body other _ _ _ keyword opening closing mark _ _ _ ihbody
      ihother =>
    rw [functions, functionsOption] at hdeclaration
    rcases List.mem_append.mp hdeclaration with hdeclaration | hdeclaration
    · exact (ihbody hdeclaration).within (⟨.keyword .if, keyword⟩ ::
        ⟨.symbol .leftParenthesis, opening⟩ :: (test ++ [⟨.symbol .rightParenthesis, closing⟩]))
        (⟨.keyword .else, mark⟩ :: other) (by simp)
    · exact (ihother hdeclaration).within (⟨.keyword .if, keyword⟩ ::
        ⟨.symbol .leftParenthesis, opening⟩ :: (test ++
          ⟨.symbol .rightParenthesis, closing⟩ :: (body ++ [⟨.keyword .else, mark⟩]))) []
        (by simp)
  | @whileLoop _ _ _ test _ _ _ keyword opening closing _ _ ih =>
    exact (ih hdeclaration).within (⟨.keyword .while, keyword⟩ ::
      ⟨.symbol .leftParenthesis, opening⟩ :: (test ++ [⟨.symbol .rightParenthesis, closing⟩])) []
      (by simp)
  | @forLoop _ _ _ start test step _ _ _ _ _ keyword opening mark closing hstart _ _ _ ih =>
    rcases mem_functions_ofFor.mp hdeclaration with hdeclaration | hdeclaration
    · cases hstart with
      | declaration _ hvariable => cases hvariable <;> cases hdeclaration
      | _ => cases hdeclaration
    · exact (ih hdeclaration).within (⟨.keyword .for, keyword⟩ ::
        ⟨.symbol .leftParenthesis, opening⟩ :: (start ++ (test ++ ⟨.symbol .semicolon, mark⟩ ::
          (step ++ [⟨.symbol .rightParenthesis, closing⟩])))) [] (by simp)
  | declare keyword hvariable => cases hvariable <;> cases hdeclaration
  | @function _ _ parameters list items name keyword opening closing start stop hlength hlist
      hitems ih =>
    rcases List.mem_cons.mp hdeclaration with rfl | hdeclaration
    · have hown : WrittenBy .inList false false _ _ :=
        .function name keyword opening closing start stop hlength hlist hitems
      have hcovers := (Span.Covers.single ⟨.keyword .fun, keyword⟩).append
        (.single ⟨.symbol .rightBrace, stop⟩) (name.token :: ⟨.symbol .leftParenthesis, opening⟩ ::
          (list ++ ⟨.symbol .rightParenthesis, closing⟩ :: ⟨.symbol .leftBrace, start⟩ ::
            items.flatMap Stretch.tokens))
      refine ⟨[], _, [], (List.append_nil _).symm, ⟨[⟨_, _⟩], ?_, (List.append_nil _).symm, rfl⟩,
        _, _, _, _, rfl, by simpa using hcovers⟩
      rintro item hmem
      obtain rfl := List.mem_singleton.mp hmem
      exact hown
    · exact (functionOn_of_mem ih hdeclaration).within (⟨.keyword .fun, keyword⟩ :: name.token ::
        ⟨.symbol .leftParenthesis, opening⟩ :: (list ++
          [⟨.symbol .rightParenthesis, closing⟩, ⟨.symbol .leftBrace, start⟩]))
        [⟨.symbol .rightBrace, stop⟩] (by simp)

end Stmt

/-! ### Programs -/

namespace Program.WrittenBy

variable {tokens : List Token} {statements : List Stmt}

/-- Without the places, what is written is a program of the grammar. -/
theorem program (hwritten : WrittenBy tokens statements) :
    Grammar.Program true (tokens.map Token.kind) (Stmt.eraseSpansAll statements) := by
  obtain ⟨items, hitems, rfl, rfl⟩ := hwritten
  refine ⟨items.map Stretch.piece, List.forall_mem_map.mpr fun item hmem ↦
    (hitems item hmem).statement, Stretch.flatMap_piece items, Stretch.map_piece items⟩

/-- Tokens of two programs that stand behind one another write both. -/
theorem append {more : List Token} {others : List Stmt} (hwritten : WrittenBy tokens statements)
    (hmore : WrittenBy more others) : WrittenBy (tokens ++ more) (statements ++ others) := by
  obtain ⟨items, hitems, rfl, rfl⟩ := hwritten
  obtain ⟨items', hitems', rfl, rfl⟩ := hmore
  exact ⟨items ++ items', List.forall_mem_append.mpr ⟨hitems, hitems'⟩, by
    rw [List.flatMap_append], by rw [List.map_append]⟩

/-- Each node of a program stands on tokens of its own, and putting parentheses around these puts
them around the node and changes nothing else. -/
theorem occurs (hwritten : WrittenBy tokens statements) {node : Expr}
    (hnode : node ∈ Stmt.nodesAll statements) (hinserted : ¬ node.InsertedOn tokens) :
    node.OccursOn tokens fun kinds ↦ ∃ edited, Program.Wraps node statements edited ∧
      Grammar.Program true kinds (Stmt.eraseSpansAll edited) := by
  obtain ⟨items, hitems, rfl, rfl⟩ := hwritten
  have hoccurs := Stmt.occurs_of_mem hitems (fun item hmem hnode ↦
    (hitems item hmem).occurs hnode fun h ↦ hinserted (h.mono fun token htoken ↦
      List.mem_flatMap.mpr ⟨item, hmem, htoken⟩)) hnode
  refine hoccurs.mono ?_
  rintro _ ⟨before, after, item, edited, pieces, htrees, hwraps, hpieces, rfl, herase⟩
  exact ⟨before ++ edited :: after, ⟨before, item, edited, after, htrees, rfl, hwraps⟩,
    pieces, hpieces, rfl, herase⟩

/-- Each function of a program stands on tokens that also write it alone. -/
theorem functionOn (hwritten : WrittenBy tokens statements) {declaration : Stmt}
    (hdeclaration : declaration ∈ Stmt.functionsAll statements) :
    Stmt.FunctionOn declaration tokens := by
  obtain ⟨items, hitems, rfl, rfl⟩ := hwritten
  exact Stmt.functionOn_of_mem (fun item hmem ↦ (hitems item hmem).functionOn) hdeclaration

end Program.WrittenBy

end Lox
