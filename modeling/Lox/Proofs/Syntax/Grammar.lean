import Lox.Parsing.Statement

/-!
# The grammar

What counts as an expression, a statement and a program is said here of the kinds of tokens alone,
without reading them from left to right: `Grammar.Expression`, `Grammar.Statement` and
`Grammar.Program` relate the kinds of the tokens of a text to the tree that they write, in which
every place is the start of the text.

Levels of operators stand under one another. An operator between operands of the next tighter level
may follow again and nests to the left, apart from equality and comparison, which take one operator
at most. Assignments and unary operators nest to the right, and what is assigned to is a name.

The rule for a conditional leaves open to which of several conditionals an `else` belongs. The flag
`nearest` closes it: the branch before an `else` must not end in a conditional without one. A
statement that does not end so is *closed*.
-/

set_option autoImplicit false
set_option relaxedAutoImplicit false

namespace Lox

namespace Grammar

/-- The levels of operators between two operands, from the loosest to the tightest. -/
inductive Precedence where
  | logicOr
  | logicAnd
  | equality
  | comparison
  | term
  | factor
deriving DecidableEq

/-- The levels of expressions, from the loosest to the tightest. -/
inductive Level where
  | assignment
  | operators (precedence : Precedence)
  | unary
  | call
  | primary
deriving DecidableEq

/-- An operator between two operands. -/
inductive Operator where
  | binary (operator : BinaryOperator)
  | logical (operator : LogicalOperator)
deriving DecidableEq

/-- The tree of an operator and its operands. -/
def Operator.between : Operator → Expr → Expr → Expr
  | binary operator, left, right => .binary operator left right .origin
  | logical operator, left, right => .logical operator left right .origin

namespace Precedence

/-- The tokens that write the operators of a level. -/
def operators : Precedence → List (TokenKind × Operator)
  | logicOr => [(.keyword .or, .logical .or)]
  | logicAnd => [(.keyword .and, .logical .and)]
  | equality => [(.symbol .bangEqual, .binary .notEqual), (.symbol .equalEqual, .binary .equal)]
  | comparison => [(.symbol .greater, .binary .greater),
    (.symbol .greaterEqual, .binary .greaterEqual), (.symbol .less, .binary .less),
    (.symbol .lessEqual, .binary .lessEqual)]
  | term => [(.symbol .minus, .binary .subtract), (.symbol .plus, .binary .add)]
  | factor => [(.symbol .slash, .binary .divide), (.symbol .star, .binary .multiply)]

/-- The level of the operands. -/
def operand : Precedence → Level
  | logicOr => .operators .logicAnd
  | logicAnd => .operators .equality
  | equality => .operators .comparison
  | comparison => .operators .term
  | term => .operators .factor
  | factor => .unary

/-- Whether operators of a level may follow one another without parentheses. -/
def associates : Precedence → Bool
  | equality | comparison => false
  | _ => true

end Precedence

/-- An operator, and the operand to its right with the tokens that write it. -/
structure Operation where
  mark : TokenKind
  operator : Operator
  read : List TokenKind
  operand : Expr

namespace Operation

/-- The tokens of an operator and the operand to its right. -/
def kinds (operation : Operation) : List TokenKind := operation.mark :: operation.read

/-- The tree of an operator and its operands, of which the left one is given. -/
def after (left : Expr) (operation : Operation) : Expr :=
  operation.operator.between left operation.operand

end Operation

/-- Tokens, and the tree that they write. -/
structure Piece (α : Type) where
  read : List TokenKind
  tree : α

/-- The same tokens with another tree. -/
def Piece.map {α β : Type} (convert : α → β) (piece : Piece α) : Piece β :=
  ⟨piece.read, convert piece.tree⟩

/-- The tokens of items with commas between them. -/
def separated : List (List TokenKind) → List TokenKind
  | [] => []
  | [item] => item
  | item :: others => item ++ .symbol .comma :: separated others

/-- The tokens of items with commas between them, in parentheses. -/
def parenthesized (items : List (List TokenKind)) : List TokenKind :=
  .symbol .leftParenthesis :: separated items ++ [.symbol .rightParenthesis]

/-- The tokens of an argument list. -/
def argumentKinds (arguments : List (Piece Expr)) : List TokenKind :=
  parenthesized (arguments.map Piece.read)

/-- The tree of a call. -/
def callWith (callee : Expr) (arguments : List (Piece Expr)) : Expr :=
  .call callee (arguments.map Piece.tree) .origin

/-! ### Expressions -/

/-- The kinds of tokens that write an expression of a level, and its tree. -/
inductive Expression : Level → List TokenKind → Expr → Prop
  | assign {read : List TokenKind} {value : Expr} (name : String) :
    Expression .assignment read value →
    Expression .assignment (.identifier name :: .symbol .equal :: read)
      (.assign ⟨name, .origin⟩ value .origin)
  | value {read : List TokenKind} {tree : Expr} :
    Expression (.operators .logicOr) read tree → Expression .assignment read tree
  | operators {precedence : Precedence} {read : List TokenKind} {first : Expr}
    {others : List Operation} :
    Expression precedence.operand read first →
    (∀ other ∈ others, (other.mark, other.operator) ∈ precedence.operators) →
    (∀ other ∈ others, Expression precedence.operand other.read other.operand) →
    (precedence.associates = false → others.length ≤ 1) →
    Expression (.operators precedence) (read ++ others.flatMap Operation.kinds)
      (others.foldl Operation.after first)
  | negate {read : List TokenKind} {operand : Expr} : Expression .unary read operand →
    Expression .unary (.symbol .minus :: read) (.unary .negate operand .origin)
  | complement {read : List TokenKind} {operand : Expr} : Expression .unary read operand →
    Expression .unary (.symbol .bang :: read) (.unary .not operand .origin)
  | operand {read : List TokenKind} {tree : Expr} : Expression .call read tree →
    Expression .unary read tree
  | call {read : List TokenKind} {callee : Expr} {lists : List (List (Piece Expr))} :
    Expression .primary read callee →
    (∀ arguments ∈ lists, ∀ argument ∈ arguments,
      Expression .assignment argument.read argument.tree) →
    (∀ arguments ∈ lists, arguments.length ≤ maximumArguments) →
    Expression .call (read ++ lists.flatMap argumentKinds) (lists.foldl callWith callee)
  | number (value : Float) : Expression .primary [.number value] (.literal (.number value) .origin)
  | string (text : String) : Expression .primary [.string text] (.literal (.string text) .origin)
  | trueWord : Expression .primary [.keyword .true] (.literal (.boolean true) .origin)
  | falseWord : Expression .primary [.keyword .false] (.literal (.boolean false) .origin)
  | nilWord : Expression .primary [.keyword .nil] (.literal .nil .origin)
  | name (name : String) : Expression .primary [.identifier name] (.name ⟨name, .origin⟩)
  | grouping {read : List TokenKind} {inner : Expr} : Expression .assignment read inner →
    Expression .primary (.symbol .leftParenthesis :: read ++ [.symbol .rightParenthesis])
      (.grouping inner .origin)

/-- An expression that may be missing. -/
inductive OptionalExpression : List TokenKind → Option Expr → Prop
  | missing : OptionalExpression [] none
  | present {read : List TokenKind} {tree : Expr} : Expression .assignment read tree →
    OptionalExpression read (some tree)

/-! ### Statements -/

/-- The declaration of a variable, behind its keyword. -/
inductive VariableDeclaration : List TokenKind → Stmt → Prop
  | bare (name : String) :
    VariableDeclaration [.identifier name, .symbol .semicolon] (.declare ⟨name, .origin⟩ none)
  | initialized {read : List TokenKind} {value : Expr} (name : String) :
    Expression .assignment read value →
    VariableDeclaration (.identifier name :: .symbol .equal :: read ++ [.symbol .semicolon])
      (.declare ⟨name, .origin⟩ (some value))

/-- The initializer of a loop, with its semicolon. -/
inductive Initializer : List TokenKind → Option Stmt → Prop
  | missing : Initializer [.symbol .semicolon] none
  | declaration {read : List TokenKind} {tree : Stmt} : VariableDeclaration read tree →
    Initializer (.keyword .var :: read) (some tree)
  | expression {read : List TokenKind} {value : Expr} : Expression .assignment read value →
    Initializer (read ++ [.symbol .semicolon]) (some (.expression value))

/-- What stands for a loop with an initializer, a condition and an increment: a loop with a
condition alone, its body followed by the increment, in a block behind the initializer. -/
def forTree (initializer : Option Stmt) (condition increment : Option Expr) (body : Stmt) : Stmt :=
  let turn := increment.elim body fun step ↦ .block [body, .expression step]
  let whole := .loop (condition.getD (.literal (.boolean true) .origin)) turn
  initializer.elim whole fun first ↦ .block [first, whole]

/-- The kinds of tokens that write a statement at a place, and its tree. The flag `inFunction` says
whether the statement stands in the body of a function, and `closed` asks that it does not end in a
conditional without an `else`. -/
inductive Statement (nearest : Bool) :
    StatementPlace → Bool → Bool → List TokenKind → Stmt → Prop
  | expression {place : StatementPlace} {inFunction closed : Bool} {read : List TokenKind}
    {value : Expr} : Expression .assignment read value →
    Statement nearest place inFunction closed (read ++ [.symbol .semicolon]) (.expression value)
  | print {place : StatementPlace} {inFunction closed : Bool} {read : List TokenKind}
    {value : Expr} : Expression .assignment read value →
    Statement nearest place inFunction closed (.keyword .print :: read ++ [.symbol .semicolon])
      (.print value)
  | return {place : StatementPlace} {closed : Bool} {read : List TokenKind}
    {value : Option Expr} : OptionalExpression read value →
    Statement nearest place true closed (.keyword .return :: read ++ [.symbol .semicolon])
      (.return value .origin)
  | block {place : StatementPlace} {inFunction closed : Bool} {items : List (Piece Stmt)} :
    (∀ item ∈ items, Statement nearest .inList inFunction false item.read item.tree) →
    Statement nearest place inFunction closed
      (.symbol .leftBrace :: items.flatMap Piece.read ++ [.symbol .rightBrace])
      (.block (items.map Piece.tree))
  | conditional {place : StatementPlace} {inFunction : Bool} {test body : List TokenKind}
    {condition : Expr} {thenBranch : Stmt} : Expression .assignment test condition →
    Statement nearest .asBody inFunction false body thenBranch →
    Statement nearest place inFunction false
      (.keyword .if :: .symbol .leftParenthesis :: test ++ .symbol .rightParenthesis :: body)
      (.conditional condition thenBranch none)
  | conditionalElse {place : StatementPlace} {inFunction closed : Bool}
    {test body other : List TokenKind} {condition : Expr} {thenBranch elseBranch : Stmt} :
    Expression .assignment test condition →
    Statement nearest .asBody inFunction nearest body thenBranch →
    Statement nearest .asBody inFunction closed other elseBranch →
    Statement nearest place inFunction closed
      (.keyword .if :: .symbol .leftParenthesis :: test ++ .symbol .rightParenthesis :: body
        ++ .keyword .else :: other)
      (.conditional condition thenBranch (some elseBranch))
  | whileLoop {place : StatementPlace} {inFunction closed : Bool} {test body : List TokenKind}
    {condition : Expr} {turn : Stmt} : Expression .assignment test condition →
    Statement nearest .asBody inFunction closed body turn →
    Statement nearest place inFunction closed
      (.keyword .while :: .symbol .leftParenthesis :: test ++ .symbol .rightParenthesis :: body)
      (.loop condition turn)
  | forLoop {place : StatementPlace} {inFunction closed : Bool}
    {start test step body : List TokenKind} {initializer : Option Stmt}
    {condition increment : Option Expr} {turn : Stmt} : Initializer start initializer →
    OptionalExpression test condition → OptionalExpression step increment →
    Statement nearest .asBody inFunction closed body turn →
    Statement nearest place inFunction closed
      (.keyword .for :: .symbol .leftParenthesis :: start ++ test ++ .symbol .semicolon :: step
        ++ .symbol .rightParenthesis :: body)
      (forTree initializer condition increment turn)
  | declare {inFunction closed : Bool} {read : List TokenKind} {tree : Stmt} :
    VariableDeclaration read tree →
    Statement nearest .inList inFunction closed (.keyword .var :: read) tree
  | function {inFunction closed : Bool} {parameters : List String} {items : List (Piece Stmt)}
    (name : String) : parameters.length ≤ maximumArguments →
    (∀ item ∈ items, Statement nearest .inList true false item.read item.tree) →
    Statement nearest .inList inFunction closed
      (.keyword .fun :: .identifier name ::
        parenthesized (parameters.map fun parameter ↦ [.identifier parameter]) ++
        .symbol .leftBrace :: items.flatMap Piece.read ++ [.symbol .rightBrace])
      (.function ⟨name, .origin⟩ (parameters.map fun parameter ↦ ⟨parameter, .origin⟩)
        (items.map Piece.tree) .origin)

/-- The kinds of tokens that write a program, and its statements. -/
def Program (nearest : Bool) (read : List TokenKind) (statements : List Stmt) : Prop :=
  ∃ items : List (Piece Stmt),
    (∀ item ∈ items, Statement nearest .inList false false item.read item.tree) ∧
    read = items.flatMap Piece.read ∧ statements = items.map Piece.tree

/-! ### First tokens -/

/-- Whether an expression without an operator before it may start with a token of this kind. -/
def startsPrimary : TokenKind → Bool
  | .number _ | .string _ | .identifier _ => true
  | .keyword .true | .keyword .false | .keyword .nil => true
  | .symbol .leftParenthesis => true
  | _ => false

/-- Whether an expression may start with a token of this kind. -/
def startsExpression : TokenKind → Bool
  | .symbol .minus | .symbol .bang => true
  | kind => startsPrimary kind

/-- Whether an expression of a level may start with a token of this kind. -/
def Level.starts : Level → TokenKind → Bool
  | primary | call => startsPrimary
  | _ => startsExpression

/-- Whether a statement may start with a token of this kind. -/
def startsStatement : TokenKind → Bool
  | .keyword .print | .keyword .return | .keyword .if | .keyword .while | .keyword .for
  | .keyword .var | .keyword .fun => true
  | .symbol .leftBrace => true
  | kind => startsExpression kind

/-- A list that is not empty, with a first token of a certain kind. -/
def Begins (starts : TokenKind → Bool) (read : List TokenKind) : Prop :=
  ∃ kind rest, read = kind :: rest ∧ starts kind

/-- What comes behind tokens does not change how they begin. -/
theorem Begins.append {starts : TokenKind → Bool} {read : List TokenKind}
    (hbegins : Begins starts read) (more : List TokenKind) : Begins starts (read ++ more) := by
  obtain ⟨kind, rest, rfl, hkind⟩ := hbegins
  exact ⟨kind, rest ++ more, rfl, hkind⟩

theorem Begins.ne_nil {starts : TokenKind → Bool} {read : List TokenKind}
    (hbegins : Begins starts read) : read ≠ [] := by
  obtain ⟨kind, rest, rfl, -⟩ := hbegins
  simp

/-- A token that nothing can start with is not the first of tokens that begin well, nor of what they
are in front of. -/
theorem Begins.head?_ne {starts : TokenKind → Bool} {read : List TokenKind} {kind : TokenKind}
    (hbegins : Begins starts read) (hkind : starts kind = false) (more : List TokenKind) :
    (read ++ more).head? ≠ some kind := by
  obtain ⟨first, rest, rfl, hfirst⟩ := hbegins
  rintro ⟨⟩
  rw [hkind] at hfirst
  cases hfirst

theorem Begins.head?_ne_some {starts : TokenKind → Bool} {read : List TokenKind}
    {kind : TokenKind} (hbegins : Begins starts read) (hkind : starts kind = false) :
    read.head? ≠ some kind := by
  have hne := hbegins.head?_ne hkind []
  rwa [List.append_nil] at hne

/-- Items with commas between them begin as the first one does. -/
theorem Begins.separated {starts : TokenKind → Bool} {item : List TokenKind}
    (hbegins : Begins starts item) (others : List (List TokenKind)) :
    Begins starts (separated (item :: others)) := by
  cases others with
  | nil => exact hbegins
  | cons second others => exact hbegins.append _

/-- Items that are not empty are no more than the tokens that they are written with. -/
theorem length_le_length_separated {items : List (List TokenKind)}
    (hitems : ∀ item ∈ items, item ≠ []) : items.length ≤ (Grammar.separated items).length := by
  fun_induction Grammar.separated items with
  | case1 => simp
  | case2 item => exact List.length_pos_iff.mpr (hitems item List.mem_cons_self)
  | case3 item others _ ih =>
    have hle := ih fun other hmem ↦ hitems other (List.mem_cons_of_mem _ hmem)
    simp only [List.length_append, List.length_cons]
    omega

/-- What starts a primary expression starts an expression. -/
theorem startsExpression_of_startsPrimary {kind : TokenKind} (hstarts : startsPrimary kind) :
    startsExpression kind := by
  unfold startsExpression
  split
  · rfl
  · rfl
  · exact hstarts

/-- Expressions of every level begin with one of the tokens that may start them, which is a unary
operator or the first token of a primary expression. -/
theorem Expression.begins {level : Level} {read : List TokenKind} {tree : Expr}
    (hexpression : Expression level read tree) : Begins level.starts read := by
  induction hexpression with
  | assign => exact ⟨_, _, rfl, rfl⟩
  | value _ ih => exact ih
  | @operators precedence _ _ _ _ _ _ _ ih =>
    cases precedence <;> exact ih.append _
  | negate => exact ⟨_, _, rfl, rfl⟩
  | complement => exact ⟨_, _, rfl, rfl⟩
  | operand _ ih =>
    obtain ⟨kind, rest, hread, hkind⟩ := ih
    exact ⟨kind, rest, hread, startsExpression_of_startsPrimary hkind⟩
  | call _ _ _ ih => exact ih.append _
  | _ => exact ⟨_, _, rfl, rfl⟩

/-- What begins as an expression begins as a statement. -/
theorem Begins.startsStatement {read : List TokenKind} (hbegins : Begins startsExpression read) :
    Begins startsStatement read := by
  obtain ⟨kind, rest, hread, hkind⟩ := hbegins
  refine ⟨kind, rest, hread, ?_⟩
  unfold Grammar.startsStatement
  split <;> first | rfl | exact hkind

/-- Every statement has a first token, which its form or its expression determines. -/
theorem Statement.begins {nearest inFunction closed : Bool} {place : StatementPlace}
    {read : List TokenKind} {tree : Stmt}
    (hstatement : Statement nearest place inFunction closed read tree) :
    Begins startsStatement read := by
  cases hstatement with
  | expression hvalue => exact hvalue.begins.startsStatement.append _
  | _ => exact ⟨_, _, rfl, rfl⟩

/-! ### Tokens that write no expression -/

/-- Whether no expression has a token of this kind. -/
def isForeign : TokenKind → Bool
  | .symbol .leftBrace | .symbol .rightBrace | .symbol .semicolon | .endOfInput => true
  | _ => false

/-- None of these tokens is foreign to expressions. -/
def Plain (read : List TokenKind) : Prop := ∀ kind ∈ read, isForeign kind = false

namespace Plain

theorem nil : Plain [] := by simp [Plain]

@[simp] theorem cons_iff {kind : TokenKind} {read : List TokenKind} :
    Plain (kind :: read) ↔ isForeign kind = false ∧ Plain read :=
  List.forall_mem_cons

@[simp] theorem append_iff {first second : List TokenKind} :
    Plain (first ++ second) ↔ Plain first ∧ Plain second :=
  List.forall_mem_append

theorem flatMap {α : Type} {items : List α} {read : α → List TokenKind}
    (hitems : ∀ item ∈ items, Plain (read item)) : Plain (items.flatMap read) := by
  intro kind hmem
  obtain ⟨item, hitem, hkind⟩ := List.mem_flatMap.mp hmem
  exact hitems item hitem kind hkind

/-- A foreign token does not occur among tokens of which none is. -/
theorem notMem {kind : TokenKind} {read : List TokenKind} (hplain : Plain read)
    (hkind : isForeign kind) : kind ∉ read := by
  intro hmem
  rw [hplain kind hmem] at hkind
  cases hkind

/-- Neither parentheses nor commas are foreign to expressions. -/
theorem parenthesized {items : List (List TokenKind)} (hitems : ∀ item ∈ items, Plain item) :
    Plain (parenthesized items) := by
  have hseparated : Plain (separated items) := by
    fun_induction separated items with
    | case1 => exact nil
    | case2 item => exact hitems item List.mem_cons_self
    | case3 item others _ ih =>
      have hothers := ih fun other hother ↦ hitems other (List.mem_cons_of_mem _ hother)
      exact append_iff.mpr ⟨hitems item List.mem_cons_self, cons_iff.mpr ⟨rfl, hothers⟩⟩
  exact append_iff.mpr ⟨cons_iff.mpr ⟨rfl, hseparated⟩, cons_iff.mpr ⟨rfl, nil⟩⟩

end Plain

/-- Nor are the operators of any level. -/
theorem Precedence.isForeign_eq_false (precedence : Precedence) :
    ∀ pair ∈ precedence.operators, isForeign pair.1 = false := by
  cases precedence <;> decide

/-- An expression is written without braces, semicolons and ends of input. -/
theorem Expression.plain {level : Level} {read : List TokenKind} {tree : Expr}
    (hexpression : Expression level read tree) : Plain read := by
  induction hexpression with
  | @operators precedence _ _ _ _ hmarks _ _ ih ihothers =>
    refine Plain.append_iff.mpr ⟨ih, .flatMap fun other hother ↦ Plain.cons_iff.mpr ?_⟩
    exact ⟨precedence.isForeign_eq_false _ (hmarks other hother), ihothers other hother⟩
  | @call _ _ lists _ _ _ ih iharguments =>
    refine Plain.append_iff.mpr ⟨ih, .flatMap fun arguments hlist ↦ .parenthesized ?_⟩
    intro read hread
    obtain ⟨argument, hargument, rfl⟩ := List.mem_map.mp hread
    exact iharguments arguments hlist argument hargument
  | assign _ _ ih => simpa [isForeign] using ih
  | value _ ih => exact ih
  | negate _ ih => simpa [isForeign] using ih
  | complement _ ih => simpa [isForeign] using ih
  | operand _ ih => exact ih
  | grouping _ ih => simpa [isForeign, Plain.nil] using ih
  | _ => simp [isForeign, Plain.nil]

theorem OptionalExpression.plain {read : List TokenKind} {tree : Option Expr}
    (hexpression : OptionalExpression read tree) : Plain read := by
  cases hexpression with
  | missing => exact .nil
  | present hpresent => exact hpresent.plain

theorem plain_parameters (parameters : List String) :
    Plain (parenthesized (parameters.map fun parameter ↦ [.identifier parameter])) := by
  refine .parenthesized fun item hitem ↦ ?_
  obtain ⟨parameter, -, rfl⟩ := List.mem_map.mp hitem
  exact Plain.cons_iff.mpr ⟨rfl, .nil⟩

/-- A declaration of a variable has no foreign token but the semicolon at its end. -/
theorem VariableDeclaration.exists_plain {read : List TokenKind} {tree : Stmt}
    (hdeclaration : VariableDeclaration read tree) :
    ∃ body, read = body ++ [.symbol .semicolon] ∧ Plain body := by
  cases hdeclaration with
  | bare name => exact ⟨[.identifier name], rfl, Plain.cons_iff.mpr ⟨rfl, .nil⟩⟩
  | @initialized value _ name hvalue =>
    exact ⟨.identifier name :: .symbol .equal :: value, rfl,
      Plain.cons_iff.mpr ⟨rfl, Plain.cons_iff.mpr ⟨rfl, hvalue.plain⟩⟩⟩

/-- An initializer has no foreign token but its semicolon. -/
theorem Initializer.exists_plain {read : List TokenKind} {tree : Option Stmt}
    (hinitializer : Initializer read tree) :
    ∃ body, read = body ++ [.symbol .semicolon] ∧ Plain body := by
  cases hinitializer with
  | missing => exact ⟨[], rfl, .nil⟩
  | declaration hdeclaration =>
    obtain ⟨body, rfl, hbody⟩ := hdeclaration.exists_plain
    exact ⟨.keyword .var :: body, rfl, Plain.cons_iff.mpr ⟨rfl, hbody⟩⟩
  | expression hvalue => exact ⟨_, rfl, hvalue.plain⟩

/-- No statement contains the end of the input. -/
theorem Statement.endOfInput_notMem {nearest inFunction closed : Bool} {place : StatementPlace}
    {read : List TokenKind} {tree : Stmt}
    (hstatement : Statement nearest place inFunction closed read tree) : .endOfInput ∉ read := by
  have hend : isForeign .endOfInput = true := rfl
  induction hstatement with
  | expression hvalue => simpa using hvalue.plain.notMem hend
  | print hvalue => simpa using hvalue.plain.notMem hend
  | «return» hvalue => simpa using hvalue.plain.notMem hend
  | block _ ih => simpa using ih
  | conditional htest _ ih => simpa using ⟨htest.plain.notMem hend, ih⟩
  | conditionalElse htest _ _ ihbody ihother =>
    simpa using ⟨htest.plain.notMem hend, ihbody, ihother⟩
  | whileLoop htest _ ih => simpa using ⟨htest.plain.notMem hend, ih⟩
  | forLoop hstart htest hstep _ ih =>
    obtain ⟨body, rfl, hbody⟩ := hstart.exists_plain
    simpa using ⟨hbody.notMem hend, htest.plain.notMem hend, hstep.plain.notMem hend, ih⟩
  | declare hdeclaration =>
    obtain ⟨body, rfl, hbody⟩ := hdeclaration.exists_plain
    simpa using hbody.notMem hend
  | @function _ _ parameters _ name _ _ ih =>
    simpa using ⟨(plain_parameters parameters).notMem hend, ih⟩

/-- So no program does: the end of the input comes behind everything that is read. -/
theorem Program.endOfInput_notMem {nearest : Bool} {read : List TokenKind}
    {statements : List Stmt} (hprogram : Program nearest read statements) :
    .endOfInput ∉ read := by
  obtain ⟨items, hitems, rfl, -⟩ := hprogram
  simpa using fun item hmem ↦ (hitems item hmem).endOfInput_notMem

/-- Programs that stand behind one another are a program. -/
theorem Program.append {nearest : Bool} {first second : List TokenKind} {before after : List Stmt}
    (hfirst : Program nearest first before) (hsecond : Program nearest second after) :
    Program nearest (first ++ second) (before ++ after) := by
  obtain ⟨firstItems, hfirst, rfl, rfl⟩ := hfirst
  obtain ⟨secondItems, hsecond, rfl, rfl⟩ := hsecond
  refine ⟨firstItems ++ secondItems, fun item hmem ↦ ?_, by simp, by simp⟩
  rcases List.mem_append.mp hmem with hmem | hmem
  · exact hfirst item hmem
  · exact hsecond item hmem

end Grammar

end Lox
