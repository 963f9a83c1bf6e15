import Lox.Proofs.Syntax.PlacedStatements

/-!
# One tree on its tokens

A statement that is known apart from its places stands on tokens in one way only
(`Stmt.WrittenBy.unique`): the tokens tell which rule of the grammar has been used, and the tree how
far each part goes. This is about any two ways to go on behind the statement, so that a list of
statements is determined as well (`Program.WrittenBy.unique`).

If all tokens are moved, the tree is moved with them (`Stmt.WrittenBy.shift`).
-/

set_option autoImplicit false
set_option relaxedAutoImplicit false

namespace Lox

open Grammar

theorem Expr.Fits.shift (distance : Nat) {level : Level} {tree : Expr} (hfits : tree.Fits level) :
    (tree.shift distance).Fits level := by
  have hexpression := expression_of_fits hfits
  rw [← tree.eraseSpans_shift distance] at hexpression
  exact (expression_eraseSpans_iff.mp hexpression).2

variable {tokens tokens' rest rest' : List Token}

theorem Expr.WrittenBy.shift (distance : Nat) {tree : Expr} (hwritten : tree.WrittenBy tokens) :
    (tree.shift distance).WrittenBy (tokens.map (Token.shift distance)) :=
  ⟨hwritten.stands.shift distance, hwritten.fits.shift distance⟩

theorem Expr.OptionWrittenBy.shift (distance : Nat) {tree : Option Expr}
    (hwritten : OptionWrittenBy tokens tree) :
    OptionWrittenBy (tokens.map (Token.shift distance)) (tree.map (Expr.shift distance)) := by
  cases hwritten with
  | missing => exact .missing
  | present hpresent => exact .present (hpresent.shift distance)

namespace Stmt

theorem VariableWrittenBy.shift (distance : Nat) {tree : Stmt}
    (hwritten : VariableWrittenBy tokens tree) :
    VariableWrittenBy (tokens.map (Token.shift distance)) (tree.shift distance) := by
  cases hwritten with
  | bare target close => exact .bare (target.shift distance) (close.shift distance)
  | initialized target mark close hvalue =>
    rw [List.map_cons, List.map_cons, List.map_append]
    exact .initialized (target.shift distance) (mark.shift distance) (close.shift distance)
      (hvalue.shift distance)

theorem InitializerWrittenBy.shift (distance : Nat) {tree : Option Stmt}
    (hwritten : InitializerWrittenBy tokens tree) :
    InitializerWrittenBy (tokens.map (Token.shift distance))
      (tree.map (Stmt.shift distance)) := by
  cases hwritten with
  | missing close => exact .missing (close.shift distance)
  | declaration keyword hdeclaration =>
    exact .declaration (keyword.shift distance) (hdeclaration.shift distance)
  | expression close hvalue =>
    rw [List.map_append]
    exact .expression (close.shift distance) (hvalue.shift distance)

end Stmt

/-- The same statement on the same tokens, so much further on. -/
def Stretch.shiftStatement (distance : Nat) (stretch : Stretch Stmt) : Stretch Stmt :=
  ⟨stretch.tokens.map (Token.shift distance), stretch.tree.shift distance⟩

theorem Stretch.flatMap_shiftStatement (distance : Nat) (items : List (Stretch Stmt)) :
    (items.flatMap Stretch.tokens).map (Token.shift distance)
      = (items.map (shiftStatement distance)).flatMap Stretch.tokens := by
  rw [List.map_flatMap, List.flatMap_map]
  rfl

theorem Stretch.map_shiftStatement (distance : Nat) (items : List (Stretch Stmt)) :
    Stmt.shiftAll distance (items.map Stretch.tree)
      = (items.map (shiftStatement distance)).map Stretch.tree := by
  rw [Stmt.shiftAll_eq_map, List.map_map, List.map_map]
  rfl

namespace Stmt

/-- A statement and its tokens may be moved by the same distance. -/
theorem WrittenBy.shift (distance : Nat) {place : StatementPlace} {inFunction closed : Bool}
    {tree : Stmt} (hwritten : WrittenBy place inFunction closed tokens tree) :
    WrittenBy place inFunction closed (tokens.map (Token.shift distance))
      (tree.shift distance) := by
  induction hwritten with
  | expression close hvalue =>
    rw [List.map_append]
    exact .expression (close.shift distance) (hvalue.shift distance)
  | print keyword close hvalue =>
    rw [List.map_cons, List.map_append]
    exact .print (keyword.shift distance) (close.shift distance) (hvalue.shift distance)
  | «return» keyword close hvalue =>
    rw [List.map_cons, List.map_append]
    exact .return (keyword.shift distance) (close.shift distance) (hvalue.shift distance)
  | block opening closing _ ih =>
    rw [Stmt.shift_block, List.map_cons, List.map_append, Stretch.flatMap_shiftStatement,
      Stretch.map_shiftStatement]
    exact .block (opening.shift distance) (closing.shift distance) (List.forall_mem_map.mpr ih)
  | conditional keyword opening closing htest _ ih =>
    rw [List.map_cons, List.map_cons, List.map_append, List.map_cons]
    exact .conditional (keyword.shift distance) (opening.shift distance) (closing.shift distance)
      (htest.shift distance) ih
  | conditionalElse keyword opening closing mark htest _ _ ihbody ihother =>
    rw [List.map_cons, List.map_cons, List.map_append, List.map_cons, List.map_append,
      List.map_cons]
    exact .conditionalElse (keyword.shift distance) (opening.shift distance)
      (closing.shift distance) (mark.shift distance) (htest.shift distance) ihbody ihother
  | whileLoop keyword opening closing htest _ ih =>
    rw [List.map_cons, List.map_cons, List.map_append, List.map_cons]
    exact .whileLoop (keyword.shift distance) (opening.shift distance) (closing.shift distance)
      (htest.shift distance) ih
  | forLoop keyword opening mark closing hstart htest hstep _ ih =>
    rw [shift_ofFor, List.map_cons, List.map_cons, List.map_append, List.map_append, List.map_cons,
      List.map_append, List.map_cons]
    exact .forLoop (keyword.shift distance) (opening.shift distance) (mark.shift distance)
      (closing.shift distance) (hstart.shift distance) (htest.shift distance)
      (hstep.shift distance) ih
  | declare keyword hdeclaration =>
    exact .declare (keyword.shift distance) (hdeclaration.shift distance)
  | @function _ _ parameters list items name keyword opening closing start stop hlength hlist _
      ih =>
    have hmoved := hlist.shift distance
    rw [List.map_map] at hmoved
    have hparameters : parameters.map (List.map (Token.shift distance) ∘
        fun parameter ↦ [parameter.token])
        = (parameters.map (Identifier.shift distance)).map fun parameter ↦ [parameter.token] := by
      rw [List.map_map]
      rfl
    rw [hparameters] at hmoved
    simp only [Stmt.shift_function, List.map_cons, List.map_append, Stretch.flatMap_shiftStatement,
      Stretch.map_shiftStatement]
    exact .function (name.shift distance) (keyword.shift distance) (opening.shift distance)
      (closing.shift distance) (start.shift distance) (stop.shift distance)
      (by rwa [List.length_map]) hmoved (List.forall_mem_map.mpr ih)

end Stmt

/-- So may a program. -/
theorem Program.WrittenBy.shift (distance : Nat) {statements : List Stmt}
    (hwritten : WrittenBy tokens statements) :
    WrittenBy (tokens.map (Token.shift distance)) (Stmt.shiftAll distance statements) := by
  obtain ⟨items, hitems, rfl, rfl⟩ := hwritten
  exact ⟨items.map (Stretch.shiftStatement distance),
    List.forall_mem_map.mpr fun item hmem ↦ (hitems item hmem).shift distance,
    Stretch.flatMap_shiftStatement distance items, Stretch.map_shiftStatement distance items⟩

/-! ### One way to put a tree on tokens -/

/-- An expression starts with a token that may start one. -/
theorem Expr.WrittenBy.starts {tree : Expr} {token : Token} (hwritten : tree.WrittenBy tokens)
    (htokens : tokens ++ rest = token :: rest') : startsExpression token.kind = true := by
  obtain ⟨kind, others, hkinds, hkind⟩ := hwritten.expression.begins
  cases tokens with
  | nil => cases hkinds
  | cons first more =>
    obtain ⟨rfl, -⟩ := List.cons.inj htokens
    obtain ⟨rfl, -⟩ := List.cons.inj hkinds
    exact hkind

/-- If two expressions that are equal without their places start at the same token, then they are
written by the same tokens and equal with their places. -/
theorem Expr.WrittenBy.unique {tree tree' : Expr} (hwritten : tree.WrittenBy tokens)
    (hwritten' : tree'.WrittenBy tokens') (herase : tree.eraseSpans = tree'.eraseSpans)
    (htokens : tokens ++ rest = tokens' ++ rest') : tokens = tokens' ∧ tree = tree' :=
  hwritten.stands.unique hwritten'.stands herase htokens

/-- The same for expressions that may be missing. -/
theorem Expr.OptionWrittenBy.unique {tree tree' : Option Expr}
    (hwritten : OptionWrittenBy tokens tree)
    (hwritten' : OptionWrittenBy tokens' tree')
    (herase : tree.map eraseSpans = tree'.map eraseSpans)
    (htokens : tokens ++ rest = tokens' ++ rest') : tokens = tokens' ∧ tree = tree' := by
  cases hwritten with
  | missing =>
    cases hwritten' with
    | missing => exact ⟨rfl, rfl⟩
    | present => cases herase
  | present hpresent =>
    cases hwritten' with
    | missing => cases herase
    | present hpresent' =>
      obtain ⟨rfl, rfl⟩ := hpresent.unique hpresent' (Option.some.inj herase) htokens
      exact ⟨rfl, rfl⟩

/-- Before a token that starts no expression one can see whether there is an expression. -/
theorem Expr.OptionWrittenBy.isSome_eq {tree tree' : Option Expr} {mark mark' : Token}
    (hwritten : OptionWrittenBy tokens tree) (hwritten' : OptionWrittenBy tokens' tree')
    (hmark : startsExpression mark.kind = false) (hmark' : startsExpression mark'.kind = false)
    (htokens : tokens ++ mark :: rest = tokens' ++ mark' :: rest') :
    tree.isSome = tree'.isSome := by
  cases hwritten with
  | missing =>
    cases hwritten' with
    | missing => rfl
    | present hpresent' =>
      rw [hpresent'.starts htokens.symm] at hmark
      cases hmark
  | present hpresent =>
    cases hwritten' with
    | missing =>
      rw [hpresent.starts htokens] at hmark'
      cases hmark'
    | present => rfl

namespace Stmt

/-- The same for declarations of variables. -/
theorem VariableWrittenBy.unique {tree tree' : Stmt} (hwritten : VariableWrittenBy tokens tree)
    (hwritten' : VariableWrittenBy tokens' tree')
    (herase : tree.eraseSpans = tree'.eraseSpans)
    (htokens : tokens ++ rest = tokens' ++ rest') : tokens = tokens' ∧ tree = tree' := by
  cases hwritten with
  | bare target close =>
    cases hwritten' with
    | bare target' close' =>
      simp only [List.cons_append, List.cons.injEq, Token.mk.injEq, true_and] at htokens
      obtain ⟨htarget, rfl, -⟩ := htokens
      obtain rfl := Identifier.token_injective htarget
      exact ⟨rfl, rfl⟩
    | initialized =>
      injection herase with _ hvalue
      cases hvalue
  | initialized target mark close hvalue =>
    cases hwritten' with
    | bare =>
      injection herase with _ hvalue
      cases hvalue
    | initialized target' mark' close' hvalue' =>
      injection herase with _ hvalue''
      simp only [List.cons_append, List.append_assoc, List.cons.injEq, Token.mk.injEq,
        true_and] at htokens
      obtain ⟨htarget, rfl, htokens⟩ := htokens
      obtain rfl := Identifier.token_injective htarget
      obtain ⟨rfl, rfl⟩ := hvalue.unique hvalue' (Option.some.inj hvalue'') htokens
      injection List.append_cancel_left htokens with hclose
      exact ⟨by rw [hclose], rfl⟩

/-- One can see whether a loop has an initializer. -/
theorem InitializerWrittenBy.isSome_eq {tree tree' : Option Stmt}
    (hwritten : InitializerWrittenBy tokens tree) (hwritten' : InitializerWrittenBy tokens' tree')
    (htokens : tokens ++ rest = tokens' ++ rest') : tree.isSome = tree'.isSome := by
  cases hwritten with
  | missing =>
    cases hwritten' with
    | missing => rfl
    | declaration => simp at htokens
    | expression _ hvalue' =>
      rw [List.append_assoc] at htokens
      cases hvalue'.starts htokens.symm
  | declaration =>
    cases hwritten' with
    | missing => simp at htokens
    | _ => rfl
  | expression _ hvalue =>
    cases hwritten' with
    | missing =>
      rw [List.append_assoc] at htokens
      cases hvalue.starts htokens
    | _ => rfl

/-- The same for the first part of a loop. -/
theorem InitializerWrittenBy.unique {tree tree' : Option Stmt}
    (hwritten : InitializerWrittenBy tokens tree) (hwritten' : InitializerWrittenBy tokens' tree')
    (herase : tree.map eraseSpans = tree'.map eraseSpans)
    (htokens : tokens ++ rest = tokens' ++ rest') : tokens = tokens' ∧ tree = tree' := by
  cases hwritten with
  | missing =>
    cases hwritten' with
    | missing =>
      simp only [List.cons_append, List.cons.injEq, Token.mk.injEq, true_and] at htokens
      obtain ⟨rfl, -⟩ := htokens
      exact ⟨rfl, rfl⟩
    | _ => cases herase
  | declaration keyword hdeclaration =>
    cases hwritten' with
    | missing => cases herase
    | declaration keyword' hdeclaration' =>
      simp only [List.cons_append, List.cons.injEq, Token.mk.injEq, true_and] at htokens
      obtain ⟨rfl, htokens⟩ := htokens
      obtain ⟨rfl, rfl⟩ := hdeclaration.unique hdeclaration' (Option.some.inj herase) htokens
      exact ⟨rfl, rfl⟩
    | expression _ hvalue' =>
      rw [List.append_assoc] at htokens
      cases hvalue'.starts htokens.symm
  | expression close hvalue =>
    cases hwritten' with
    | missing => cases herase
    | declaration =>
      rw [List.append_assoc] at htokens
      cases hvalue.starts htokens
    | expression close' hvalue' =>
      injection Option.some.inj herase with herase
      simp only [List.append_assoc] at htokens
      obtain ⟨rfl, rfl⟩ := hvalue.unique hvalue' herase htokens
      injection List.append_cancel_left htokens with hclose
      exact ⟨by rw [hclose], rfl⟩

/-- The parts of a loop can be told from the loop, if one can see which of them there are. -/
theorem eraseSpans_ofFor_inj {keyword keyword' : Span} {initializer initializer' : Option Stmt}
    {condition condition' increment increment' : Option Expr} {body body' : Stmt}
    (hinitializer : initializer.isSome = initializer'.isSome)
    (herase : (ofFor keyword initializer condition increment body).eraseSpans
      = (ofFor keyword' initializer' condition' increment' body').eraseSpans) :
    initializer.map eraseSpans = initializer'.map eraseSpans ∧
      (condition.isSome = condition'.isSome →
        condition.map Expr.eraseSpans = condition'.map Expr.eraseSpans) ∧
      (increment.isSome = increment'.isSome →
        increment.map Expr.eraseSpans = increment'.map Expr.eraseSpans ∧
          body.eraseSpans = body'.eraseSpans) := by
  cases initializer <;> cases initializer' <;> cases hinitializer <;>
    cases increment <;> cases increment' <;> cases condition <;> cases condition' <;>
    simp_all [ofFor]

/-- Lists of statements that start a text are determined if each of the statements is. -/
theorem flatMap_unique {items items' : List (Stretch Stmt)}
    (hagree : List.Forall₂ (fun first second ↦ ∀ more more',
      first.tokens ++ more = second.tokens ++ more' → first = second) items items')
    (htokens : items.flatMap Stretch.tokens ++ rest = items'.flatMap Stretch.tokens ++ rest') :
    items = items' := by
  induction hagree with
  | nil => rfl
  | cons hfirst _ ih =>
    rw [List.flatMap_cons, List.flatMap_cons, List.append_assoc, List.append_assoc] at htokens
    obtain rfl := hfirst _ _ htokens
    rw [ih (List.append_cancel_left htokens)]

/-- Statements are determined by what is known of them one by one. -/
theorem agree_of_eraseSpansAll_eq {items items' : List (Stretch Stmt)} {inFunction : Bool}
    (hitems' : ∀ item ∈ items', WrittenBy .inList inFunction false item.tokens item.tree)
    (herase : eraseSpansAll (items.map Stretch.tree) = eraseSpansAll (items'.map Stretch.tree))
    (hunique : ∀ item ∈ items, ∀ {tokens' rest rest' : List Token} {tree' : Stmt},
      WrittenBy .inList inFunction false tokens' tree' →
      item.tree.eraseSpans = tree'.eraseSpans → item.tokens ++ rest = tokens' ++ rest' →
      item.tokens = tokens' ∧ item.tree = tree') :
    List.Forall₂ (fun first second ↦ ∀ more more',
      first.tokens ++ more = second.tokens ++ more' → first = second) items items' := by
  rw [eraseSpansAll_eq_map, eraseSpansAll_eq_map, List.map_map, List.map_map] at herase
  refine (forall₂_of_map_eq herase).imp ?_
  rintro ⟨tokens, tree⟩ ⟨tokens', tree'⟩ ⟨hmem, hmem', herase⟩ more more' htokens
  obtain ⟨rfl, rfl⟩ := hunique _ hmem (hitems' _ hmem') herase htokens
  rfl

/-- Parameters are determined by their tokens and their number. -/
theorem agree_of_length_eq {parameters parameters' : List Identifier}
    (hlength : parameters.length = parameters'.length) :
    List.Forall₂ (fun first second : Stretch Identifier ↦ ∀ more more',
      first.tokens ++ more = second.tokens ++ more' → first = second)
      (parameters.map fun parameter ↦ ⟨[parameter.token], parameter⟩)
      (parameters'.map fun parameter ↦ ⟨[parameter.token], parameter⟩) := by
  rw [List.forall₂_map_left_iff, List.forall₂_map_right_iff, List.forall₂_iff_zip]
  refine ⟨hlength, fun _ more more' htokens ↦ ?_⟩
  obtain ⟨htoken, -⟩ := List.cons.inj htokens
  rw [Identifier.token_injective htoken]

/-- What a statement is that a token of some kind starts: each of the brace and the keywords starts
the statements of one rule of the grammar, of two rules for `if`, and every other token starts an
expression with a semicolon behind it. -/
def StartedBy (place : StatementPlace) (inFunction closed : Bool) (tokens : List Token)
    (tree : Stmt) : TokenKind → Prop
  | .keyword .print => ∃ (keyword close : Span) (inner : List Token) (value : Expr),
    value.WrittenBy inner ∧ tree = .print value ∧
      tokens = ⟨.keyword .print, keyword⟩ :: (inner ++ [⟨.symbol .semicolon, close⟩])
  | .keyword .return => ∃ (keyword close : Span) (inner : List Token) (value : Option Expr),
    inFunction = true ∧ Expr.OptionWrittenBy inner value ∧
      tree = .return value ⟨keyword.start, close.stop⟩ ∧
      tokens = ⟨.keyword .return, keyword⟩ :: (inner ++ [⟨.symbol .semicolon, close⟩])
  | .symbol .leftBrace => ∃ (opening closing : Span) (items : List (Stretch Stmt)),
    (∀ item ∈ items, WrittenBy .inList inFunction false item.tokens item.tree) ∧
      tree = .block (items.map Stretch.tree) ∧
      tokens = ⟨.symbol .leftBrace, opening⟩ ::
        (items.flatMap Stretch.tokens ++ [⟨.symbol .rightBrace, closing⟩])
  | .keyword .if => ∃ (keyword opening closing : Span) (test body : List Token)
    (condition : Expr) (thenBranch : Stmt), condition.WrittenBy test ∧
      ((closed = false ∧ WrittenBy .asBody inFunction false body thenBranch ∧
        tree = .conditional condition thenBranch none ∧
        tokens = ⟨.keyword .if, keyword⟩ :: ⟨.symbol .leftParenthesis, opening⟩ :: (test ++
          ⟨.symbol .rightParenthesis, closing⟩ :: body)) ∨
      ∃ (mark : Span) (other : List Token) (elseBranch : Stmt),
        WrittenBy .asBody inFunction true body thenBranch ∧
        WrittenBy .asBody inFunction closed other elseBranch ∧
        tree = .conditional condition thenBranch (some elseBranch) ∧
        tokens = ⟨.keyword .if, keyword⟩ :: ⟨.symbol .leftParenthesis, opening⟩ :: (test ++
          ⟨.symbol .rightParenthesis, closing⟩ :: (body ++ ⟨.keyword .else, mark⟩ :: other)))
  | .keyword .while => ∃ (keyword opening closing : Span) (test body : List Token)
    (condition : Expr) (turn : Stmt), condition.WrittenBy test ∧
      WrittenBy .asBody inFunction closed body turn ∧ tree = .loop condition turn ∧
      tokens = ⟨.keyword .while, keyword⟩ :: ⟨.symbol .leftParenthesis, opening⟩ :: (test ++
        ⟨.symbol .rightParenthesis, closing⟩ :: body)
  | .keyword .for => ∃ (keyword opening mark closing : Span) (start test step body : List Token)
    (initializer : Option Stmt) (condition increment : Option Expr) (turn : Stmt),
    InitializerWrittenBy start initializer ∧ Expr.OptionWrittenBy test condition ∧
      Expr.OptionWrittenBy step increment ∧ WrittenBy .asBody inFunction closed body turn ∧
      tree = .ofFor keyword initializer condition increment turn ∧
      tokens = ⟨.keyword .for, keyword⟩ :: ⟨.symbol .leftParenthesis, opening⟩ :: (start ++
        (test ++ ⟨.symbol .semicolon, mark⟩ :: (step ++
          ⟨.symbol .rightParenthesis, closing⟩ :: body)))
  | .keyword .var => ∃ (keyword : Span) (inner : List Token), place = .inList ∧
    VariableWrittenBy inner tree ∧ tokens = ⟨.keyword .var, keyword⟩ :: inner
  | .keyword .fun => ∃ (name : Identifier) (keyword opening closing start stop : Span)
    (parameters : List Identifier) (list : List Token) (items : List (Stretch Stmt)),
    place = .inList ∧ Separated (parameters.map fun parameter ↦ [parameter.token]) list ∧
      (∀ item ∈ items, WrittenBy .inList true false item.tokens item.tree) ∧
      tree = .function name parameters (items.map Stretch.tree) ⟨keyword.start, stop.stop⟩ ∧
      tokens = ⟨.keyword .fun, keyword⟩ :: name.token :: ⟨.symbol .leftParenthesis, opening⟩ ::
        (list ++ ⟨.symbol .rightParenthesis, closing⟩ :: ⟨.symbol .leftBrace, start⟩ ::
          (items.flatMap Stretch.tokens ++ [⟨.symbol .rightBrace, stop⟩]))
  | _ => ∃ (close : Span) (inner : List Token) (value : Expr), value.WrittenBy inner ∧
    tree = .expression value ∧ tokens = inner ++ [⟨.symbol .semicolon, close⟩]

/-- A token that may start an expression starts no other statement than an expression. -/
theorem startedBy_of_startsExpression {place : StatementPlace} {inFunction closed : Bool}
    {kind : TokenKind} {value : Expr} (close : Span) (hkind : startsExpression kind = true)
    (hvalue : value.WrittenBy tokens) :
    StartedBy place inFunction closed (tokens ++ [⟨.symbol .semicolon, close⟩])
      (.expression value) kind := by
  unfold StartedBy
  split
  case h_9 => exact ⟨close, tokens, value, hvalue, rfl, rfl⟩
  all_goals cases hkind

/-- The first token of a statement tells which rule of the grammar it comes from. -/
theorem WrittenBy.startedBy {place : StatementPlace} {inFunction closed : Bool} {tree : Stmt}
    {token : Token} (hwritten : WrittenBy place inFunction closed tokens tree)
    (htokens : tokens ++ rest = token :: rest') :
    StartedBy place inFunction closed tokens tree token.kind := by
  cases hwritten with
  | expression close hvalue =>
    rw [List.append_assoc] at htokens
    exact startedBy_of_startsExpression close (hvalue.starts htokens) hvalue
  | print keyword close hvalue =>
    obtain ⟨rfl, -⟩ := List.cons.inj htokens
    exact ⟨keyword, close, _, _, hvalue, rfl, rfl⟩
  | «return» keyword close hvalue =>
    obtain ⟨rfl, -⟩ := List.cons.inj htokens
    exact ⟨keyword, close, _, _, rfl, hvalue, rfl, rfl⟩
  | block opening closing hitems =>
    obtain ⟨rfl, -⟩ := List.cons.inj htokens
    exact ⟨opening, closing, _, hitems, rfl, rfl⟩
  | conditional keyword opening closing htest hbody =>
    obtain ⟨rfl, -⟩ := List.cons.inj htokens
    exact ⟨keyword, opening, closing, _, _, _, _, htest, .inl ⟨rfl, hbody, rfl, rfl⟩⟩
  | conditionalElse keyword opening closing mark htest hbody hother =>
    obtain ⟨rfl, -⟩ := List.cons.inj htokens
    exact ⟨keyword, opening, closing, _, _, _, _, htest, .inr ⟨mark, _, _, hbody, hother, rfl, rfl⟩⟩
  | whileLoop keyword opening closing htest hbody =>
    obtain ⟨rfl, -⟩ := List.cons.inj htokens
    exact ⟨keyword, opening, closing, _, _, _, _, htest, hbody, rfl, rfl⟩
  | forLoop keyword opening mark closing hstart htest hstep hbody =>
    obtain ⟨rfl, -⟩ := List.cons.inj htokens
    exact ⟨keyword, opening, mark, closing, _, _, _, _, _, _, _, _, hstart, htest, hstep, hbody,
      rfl, rfl⟩
  | declare keyword hdeclaration =>
    obtain ⟨rfl, -⟩ := List.cons.inj htokens
    exact ⟨keyword, _, rfl, hdeclaration, rfl⟩
  | function name keyword opening closing start stop _ hlist hitems =>
    obtain ⟨rfl, -⟩ := List.cons.inj htokens
    exact ⟨name, keyword, opening, closing, start, stop, _, _, _, rfl, hlist, hitems, rfl, rfl⟩

/-- Parameters in parentheses, known by their number, are determined by what they start. -/
theorem parameters_unique {parameters parameters' : List Identifier} {list list' : List Token}
    {close close' : Token} (hlength : parameters.length = parameters'.length)
    (hlist : Separated (parameters.map fun parameter ↦ [parameter.token]) list)
    (hlist' : Separated (parameters'.map fun parameter ↦ [parameter.token]) list')
    (htokens : list ++ close :: rest = list' ++ close' :: rest') :
    parameters = parameters' ∧ list = list' := by
  obtain ⟨hsame, rfl⟩ := Separated.unique (agree_of_length_eq hlength)
    (by simpa [Function.comp_def] using hlist) (by simpa [Function.comp_def] using hlist') htokens
  have htrees := congrArg (List.map Stretch.tree) hsame
  simp only [List.map_map, Function.comp_def, List.map_id'] at htrees
  exact ⟨htrees, rfl⟩

/-- A keyword with a condition in parentheses is determined by what it starts, and what comes behind
it is the same. -/
theorem header_unique {kind : TokenKind} {keyword keyword' opening opening' closing closing' : Span}
    {test test' body body' : List Token} {condition condition' : Expr}
    (htest : condition.WrittenBy test) (htest' : condition'.WrittenBy test')
    (herase : condition.eraseSpans = condition'.eraseSpans)
    (htokens : ⟨kind, keyword⟩ :: ⟨.symbol .leftParenthesis, opening⟩ :: (test ++
        ⟨.symbol .rightParenthesis, closing⟩ :: body) ++ rest
      = ⟨kind, keyword'⟩ :: ⟨.symbol .leftParenthesis, opening'⟩ :: (test' ++
        ⟨.symbol .rightParenthesis, closing'⟩ :: body') ++ rest') :
    (keyword = keyword' ∧ opening = opening' ∧ closing = closing') ∧
      (test = test' ∧ condition = condition') ∧ body ++ rest = body' ++ rest' := by
  simp only [List.cons_append, List.append_assoc, List.cons.injEq, Token.mk.injEq,
    true_and] at htokens
  obtain ⟨rfl, rfl, htokens⟩ := htokens
  obtain ⟨rfl, rfl⟩ := htest.unique htest' herase htokens
  injection List.append_cancel_left htokens with hclosing htokens
  injection hclosing with _ hclosing
  exact ⟨⟨rfl, rfl, hclosing⟩, ⟨rfl, rfl⟩, htokens⟩

/-- A statement that is known apart from its places stands on its tokens in one way only, whatever
comes behind it. The first token says by which rule the other tree has been written; each part is
then determined once those before it are. -/
theorem WrittenBy.unique {place : StatementPlace} {inFunction closed : Bool} {tree tree' : Stmt}
    (hwritten : WrittenBy place inFunction closed tokens tree)
    (hwritten' : WrittenBy place inFunction closed tokens' tree')
    (herase : tree.eraseSpans = tree'.eraseSpans)
    (htokens : tokens ++ rest = tokens' ++ rest') : tokens = tokens' ∧ tree = tree' := by
  induction hwritten generalizing tokens' rest rest' tree' with
  | expression close hvalue =>
    rw [List.append_assoc] at htokens
    cases hwritten' with
    | expression close' hvalue' =>
      injection herase with herase
      rw [List.append_assoc] at htokens
      obtain ⟨rfl, rfl⟩ := hvalue.unique hvalue' herase htokens
      injection List.append_cancel_left htokens with hclose
      exact ⟨by rw [hclose], rfl⟩
    | _ => cases hvalue.starts htokens
  | print keyword close hvalue =>
    obtain ⟨keyword', close', inner', value', hvalue', rfl, rfl⟩ :=
      hwritten'.startedBy htokens.symm
    injection herase with herase
    simp only [List.cons_append, List.append_assoc, List.cons.injEq, Token.mk.injEq,
      true_and] at htokens
    obtain ⟨rfl, htokens⟩ := htokens
    obtain ⟨rfl, rfl⟩ := hvalue.unique hvalue' herase htokens
    injection List.append_cancel_left htokens with hclose
    exact ⟨by rw [hclose], rfl⟩
  | «return» keyword close hvalue =>
    obtain ⟨keyword', close', inner', value', -, hvalue', rfl, rfl⟩ :=
      hwritten'.startedBy htokens.symm
    injection herase with herase
    simp only [List.cons_append, List.append_assoc, List.cons.injEq, Token.mk.injEq,
      true_and] at htokens
    obtain ⟨rfl, htokens⟩ := htokens
    obtain ⟨rfl, rfl⟩ := hvalue.unique hvalue' herase htokens
    injection List.append_cancel_left htokens with hclose
    injection hclose with _ hclose
    exact ⟨by rw [hclose], by rw [hclose]⟩
  | block opening closing _ ih =>
    obtain ⟨opening', closing', items', hitems', rfl, rfl⟩ := hwritten'.startedBy htokens.symm
    injection herase with herase
    simp only [List.cons_append, List.append_assoc, List.cons.injEq, Token.mk.injEq,
      true_and] at htokens
    obtain ⟨rfl, htokens⟩ := htokens
    obtain rfl := flatMap_unique (agree_of_eraseSpansAll_eq hitems' herase ih) htokens
    injection List.append_cancel_left htokens with hclosing
    exact ⟨by rw [hclosing], rfl⟩
  | conditional keyword opening closing htest _ ih =>
    obtain ⟨keyword', opening', closing', test', body', condition', thenBranch', htest',
      ⟨-, hbody', rfl, rfl⟩ | ⟨_, _, _, _, _, rfl, _⟩⟩ := hwritten'.startedBy htokens.symm
    · injection herase with hcondition hthen
      obtain ⟨⟨rfl, rfl, rfl⟩, ⟨rfl, rfl⟩, hbehind⟩ :=
        header_unique htest htest' hcondition htokens
      obtain ⟨rfl, rfl⟩ := ih hbody' hthen hbehind
      exact ⟨rfl, rfl⟩
    · injection herase with _ _ helse
      cases helse
  | conditionalElse keyword opening closing mark htest _ _ ihbody ihother =>
    obtain ⟨keyword', opening', closing', test', body', condition', thenBranch', htest',
      ⟨_, _, rfl, _⟩ | ⟨mark', other', elseBranch', hbody', hother', rfl, rfl⟩⟩ :=
      hwritten'.startedBy htokens.symm
    · injection herase with _ _ helse
      cases helse
    · injection herase with hcondition hthen helse
      obtain ⟨⟨rfl, rfl, rfl⟩, ⟨rfl, rfl⟩, hbehind⟩ :=
        header_unique htest htest' hcondition htokens
      rw [List.append_assoc, List.append_assoc] at hbehind
      obtain ⟨rfl, rfl⟩ := ihbody hbody' hthen hbehind
      injection List.append_cancel_left hbehind with hmark hbehind
      obtain ⟨rfl, rfl⟩ := ihother hother' (Option.some.inj helse) hbehind
      exact ⟨by rw [hmark], rfl⟩
  | whileLoop keyword opening closing htest _ ih =>
    obtain ⟨keyword', opening', closing', test', body', condition', turn', htest', hbody', rfl,
      rfl⟩ := hwritten'.startedBy htokens.symm
    injection herase with hcondition hturn
    obtain ⟨⟨rfl, rfl, rfl⟩, ⟨rfl, rfl⟩, hbehind⟩ := header_unique htest htest' hcondition htokens
    obtain ⟨rfl, rfl⟩ := ih hbody' hturn hbehind
    exact ⟨rfl, rfl⟩
  | forLoop keyword opening mark closing hstart htest hstep _ ih =>
    obtain ⟨keyword', opening', mark', closing', start', test', step', body', initializer',
      condition', increment', turn', hstart', htest', hstep', hbody', rfl, rfl⟩ :=
      hwritten'.startedBy htokens.symm
    simp only [List.cons_append, List.append_assoc, List.cons.injEq, Token.mk.injEq,
      true_and] at htokens
    obtain ⟨rfl, rfl, htokens⟩ := htokens
    obtain ⟨hinitializer, hcondition, hincrement⟩ :=
      eraseSpans_ofFor_inj (hstart.isSome_eq hstart' htokens) herase
    obtain ⟨rfl, rfl⟩ := hstart.unique hstart' hinitializer htokens
    have htokens := List.append_cancel_left htokens
    have hcondition := hcondition (htest.isSome_eq htest' rfl rfl htokens)
    obtain ⟨rfl, rfl⟩ := htest.unique htest' hcondition htokens
    injection List.append_cancel_left htokens with hmark htokens
    obtain ⟨hincrement, hbody⟩ := hincrement (hstep.isSome_eq hstep' rfl rfl htokens)
    obtain ⟨rfl, rfl⟩ := hstep.unique hstep' hincrement htokens
    injection List.append_cancel_left htokens with hclosing htokens
    obtain ⟨rfl, rfl⟩ := ih hbody' hbody htokens
    exact ⟨by rw [hmark, hclosing], rfl⟩
  | declare keyword hdeclaration =>
    obtain ⟨keyword', inner', -, hdeclaration', rfl⟩ := hwritten'.startedBy htokens.symm
    simp only [List.cons_append, List.cons.injEq, Token.mk.injEq, true_and] at htokens
    obtain ⟨rfl, htokens⟩ := htokens
    obtain ⟨rfl, rfl⟩ := hdeclaration.unique hdeclaration' herase htokens
    exact ⟨rfl, rfl⟩
  | function name keyword opening closing start stop hlength hlist _ ih =>
    obtain ⟨name', keyword', opening', closing', start', stop', parameters', list', items', -,
      hlist', hitems', rfl, rfl⟩ := hwritten'.startedBy htokens.symm
    injection herase with _ hparameters hbody
    simp only [List.cons_append, List.append_assoc, List.cons.injEq, Token.mk.injEq,
      true_and] at htokens
    obtain ⟨rfl, hname, rfl, htokens⟩ := htokens
    obtain rfl := Identifier.token_injective hname
    have hcount := congrArg List.length hparameters
    rw [List.length_map, List.length_map] at hcount
    obtain ⟨rfl, rfl⟩ := parameters_unique hcount hlist hlist' htokens
    injection List.append_cancel_left htokens with hclosing htokens
    injection htokens with hstart htokens
    obtain rfl := flatMap_unique (agree_of_eraseSpansAll_eq hitems' hbody ih) htokens
    injection List.append_cancel_left htokens with hstop
    injection hstop with _ hstop
    exact ⟨by rw [hclosing, hstart, hstop], by rw [hstop]⟩

end Stmt

/-- A program that is known apart from its places stands on its tokens in one way only. -/
theorem Program.WrittenBy.unique {statements statements' : List Stmt}
    (hwritten : WrittenBy tokens statements) (hwritten' : WrittenBy tokens statements')
    (herase : Stmt.eraseSpansAll statements = Stmt.eraseSpansAll statements') :
    statements = statements' := by
  obtain ⟨items, hitems, htokens, rfl⟩ := hwritten
  obtain ⟨items', hitems', htokens', rfl⟩ := hwritten'
  have hagree := Stmt.agree_of_eraseSpansAll_eq hitems' herase fun item hmem ↦
    (hitems item hmem).unique
  have hsame : items.flatMap Stretch.tokens ++ [] = items'.flatMap Stretch.tokens ++ [] := by
    rw [← htokens, ← htokens']
  rw [Stmt.flatMap_unique hagree hsame]

end Lox
