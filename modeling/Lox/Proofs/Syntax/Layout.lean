import Lox.Proofs.Lexical.Layout
import Lox.Proofs.Syntax.SpanErasure
import Lox.Proofs.Syntax.Totality

/-!
# Layout

What a source text comes to does not depend on the gaps between its tokens. With other gaps it has
the same kinds of tokens, and it is read as the same program but for places, or has errors that
read the same, in the same order (`ofSource_relaid`).

Tokens of the same kinds are read side by side (`Cursor.SameKinds`). The places go into the trees
and the errors that are found, but no step of reading looks at them.
-/

set_option autoImplicit false
set_option relaxedAutoImplicit false

namespace Lox

/-- What is wrong, the note and the advice. -/
def SyntaxCause.wording (cause : SyntaxCause) : String × String × Option String :=
  (cause.message, cause.label, cause.help?)

/-- What a reader is told about an error, apart from its place. -/
def SyntaxError.wording (error : SyntaxError) : String × String × Option String :=
  (error.message, error.label, error.help?)

namespace Cursor

/-- Two cursors over tokens of the same kinds, at the same one, with the same errors but for their
places. -/
structure SameKinds (first first' : Cursor) : Prop where
  passed_eq : first.passed.map Token.kind = first'.passed.map Token.kind
  rest_eq : first.rest.map Token.kind = first'.rest.map Token.kind
  causes_eq : first.reported.map SyntaxError.cause = first'.reported.map SyntaxError.cause
  depth_eq : first.depth = first'.depth

/-- What is skipped behind an error depends on the kinds of the tokens only. -/
theorem skipStatement_of_kinds {passed passed' : Option Token} {rest rest' : List Token}
    (hpassed : passed.map Token.kind = passed'.map Token.kind)
    (hrest : rest.map Token.kind = rest'.map Token.kind) :
    (skipStatement passed rest).1.map Token.kind = (skipStatement passed' rest').1.map Token.kind ∧
      (skipStatement passed rest).2.map Token.kind
        = (skipStatement passed' rest').2.map Token.kind := by
  induction rest generalizing passed passed' rest' with
  | nil =>
    obtain rfl := List.map_eq_nil_iff.mp hrest.symm
    exact ⟨hpassed, rfl⟩
  | cons token rest ih =>
    cases rest' with
    | nil => cases hrest
    | cons token' rest' =>
      obtain ⟨hkind, hothers⟩ := List.cons.inj hrest
      rw [skipStatement, skipStatement, hpassed, hkind]
      split
      · exact ⟨hpassed, hrest⟩
      · exact ih (congrArg some hkind) hothers

namespace SameKinds

variable {first first' : Cursor}

/-- The same kind of token comes next. -/
theorem next?_eq (hsame : SameKinds first first') : first.next? = first'.next? := by
  rw [next?, next?, ← List.head?_map, ← List.head?_map, hsame.rest_eq]

/-- The cursors may both be advanced. -/
theorem advance (hsame : SameKinds first first') : SameKinds first.advance first'.advance := by
  obtain ⟨passed, rest, reported, depth⟩ := first
  obtain ⟨passed', rest', reported', depth'⟩ := first'
  obtain ⟨hpassed, hrest, hcauses, hdepth⟩ := hsame
  cases rest with
  | nil =>
    obtain rfl := List.map_eq_nil_iff.mp hrest.symm
    exact ⟨hpassed, hrest, hcauses, hdepth⟩
  | cons token rest =>
    cases rest' with
    | nil => cases hrest
    | cons token' rest' =>
      obtain ⟨hkind, hothers⟩ := List.cons.inj hrest
      exact ⟨congrArg some hkind, hothers, hcauses, hdepth⟩

theorem report (hsame : SameKinds first first') {error error' : SyntaxError}
    (hcause : error.cause = error'.cause) :
    SameKinds (first.report error) (first'.report error') := by
  refine { hsame with causes_eq := ?_ }
  rw [Cursor.report, Cursor.report, List.map_append, List.map_append, hsame.causes_eq,
    List.map_singleton, List.map_singleton, hcause]

/-- They may both go on behind an error. -/
theorem resynchronize (hsame : SameKinds first first') :
    SameKinds first.resynchronize first'.resynchronize := by
  have hpassed := hsame.advance
  obtain ⟨hlast, hrest⟩ := skipStatement_of_kinds hpassed.passed_eq hpassed.rest_eq
  exact ⟨hlast, hrest, hpassed.causes_eq, hpassed.depth_eq⟩

end SameKinds

end Cursor

/-! ### Trees that are the same but for places -/

theorem map_eq_map_of_forall₂ {α β : Type} {change : α → β} {first second : List α}
    (hall : List.Forall₂ (fun left right ↦ change left = change right) first second) :
    first.map change = second.map change := by
  induction hall with
  | nil => rfl
  | cons hhead _ ih => rw [List.map_cons, List.map_cons, hhead, ih]

theorem map_eq_map_of_rel {α β : Type} {change : α → β} {first second : Option α}
    (hrel : Option.Rel (fun left right ↦ change left = change right) first second) :
    first.map change = second.map change := by
  cases hrel with
  | none => rfl
  | some hvalues => rw [Option.map_some, Option.map_some, hvalues]

theorem Stmt.eraseSpansOption_eq_map (statement : Option Stmt) :
    eraseSpansOption statement = statement.map eraseSpans := by
  cases statement <;> rfl

/-- Only a name is a name without its place. -/
theorem Expr.exists_name_of_eraseSpans_eq {tree : Expr} {target : Identifier}
    (htree : tree.eraseSpans = .name target) :
    ∃ original, tree = .name original ∧ original.eraseSpan = target := by
  cases tree with
  | name original => exact ⟨original, rfl, Expr.name.inj htree⟩
  | _ => cases htree

namespace Likeness

/-- The same is read and found, wherever it stands. -/
def placeless : Likeness where
  cursors := Cursor.SameKinds
  spans _ _ := True
  causes := Eq
  expressions tree tree' := tree.eraseSpans = tree'.eraseSpans
  statements tree tree' := tree.eraseSpans = tree'.eraseSpans

theorem Identifiers.eraseSpan_eq {identifier identifier' : Identifier}
    (hidentifiers : placeless.Identifiers identifier identifier') :
    identifier.eraseSpan = identifier'.eraseSpan := by
  rw [Identifier.eraseSpan_eq, Identifier.eraseSpan_eq, hidentifiers.name_eq]

/-- Expressions that are made of parts that are equal without their places are equal without theirs.
-/
theorem placeless_congruentExpressions : placeless.CongruentExpressions where
  join _ _ := trivial
  union _ _ := trivial
  span _ := trivial
  isName {tree tree'} htrees := by
    by_cases hname : ∃ target, tree = .name target
    · obtain ⟨target, rfl⟩ := hname
      obtain ⟨target', rfl, htargets⟩ := Expr.exists_name_of_eraseSpans_eq htrees.symm
      exact .inl ⟨target, target', rfl, rfl, (Identifier.mk.inj htargets).1.symm, trivial⟩
    · refine .inr ⟨fun target htree ↦ hname ⟨target, htree⟩, fun target htree' ↦ ?_⟩
      subst htree'
      obtain ⟨original, htree, -⟩ := Expr.exists_name_of_eraseSpans_eq htrees
      exact hname ⟨original, htree⟩
  literal _ := rfl
  grouping hinner _ := congrArg (Expr.grouping · .origin) hinner
  unary hoperand _ := congrArg (Expr.unary _ · .origin) hoperand
  binary hleft hright _ := congrArg₂ (Expr.binary _ · · .origin) hleft hright
  logical hleft hright _ := congrArg₂ (Expr.logical _ · · .origin) hleft hright
  name hidentifiers := congrArg Expr.name hidentifiers.eraseSpan_eq
  assign htargets hvalues _ := congrArg₂ (Expr.assign · · .origin) htargets.eraseSpan_eq hvalues
  call hcallee harguments _ := by
    have harguments := map_eq_map_of_forall₂ harguments
    rw [← Expr.eraseSpansAll_eq_map, ← Expr.eraseSpansAll_eq_map] at harguments
    exact congrArg₂ (Expr.call · · .origin) hcallee harguments

/-- So are statements. -/
theorem placeless_congruent : placeless.Congruent where
  toCongruentExpressions := placeless_congruentExpressions
  expression hvalue := congrArg Stmt.expression hvalue
  print hvalue := congrArg Stmt.print hvalue
  declare htarget hinitializer :=
    congrArg₂ Stmt.declare htarget.eraseSpan_eq (map_eq_map_of_rel hinitializer)
  block hbody := by
    have hbody := map_eq_map_of_forall₂ hbody
    rw [← Stmt.eraseSpansAll_eq_map, ← Stmt.eraseSpansAll_eq_map] at hbody
    exact congrArg Stmt.block hbody
  conditional hcondition hthen helse := by
    have helse := map_eq_map_of_rel helse
    rw [← Stmt.eraseSpansOption_eq_map, ← Stmt.eraseSpansOption_eq_map] at helse
    simp only [placeless, Stmt.eraseSpans_conditional] at hcondition hthen ⊢
    rw [hcondition, hthen, helse]
  loop hcondition hbody := congrArg₂ Stmt.loop hcondition hbody
  function hname hparameters hbody _ := by
    have hparameters := map_eq_map_of_forall₂
      (hparameters.imp fun _ _ hidentifiers ↦ hidentifiers.eraseSpan_eq)
    have hbody := map_eq_map_of_forall₂ hbody
    rw [← Stmt.eraseSpansAll_eq_map, ← Stmt.eraseSpansAll_eq_map] at hbody
    simp only [placeless, Stmt.eraseSpans_function]
    rw [hname.eraseSpan_eq, hparameters, hbody]
  «return» hvalue _ := congrArg (Stmt.return · .origin) (map_eq_map_of_rel hvalue)

/-- Every single step of reading does the same at cursors over tokens of the same kinds. -/
theorem placeless_heldBySteps : placeless.HeldBySteps where
  congruent := placeless_congruent
  next_eq hcursors := congrArg (·.getD .endOfInput) hcursors.next?_eq
  depth_eq hcursors := hcursors.depth_eq
  place _ := trivial
  cause _ := rfl
  unexpected kind hcursors := congrArg (SyntaxCause.unexpectedToken kind) hcursors.next?_eq
  advance hcursors := hcursors.advance
  report hcursors herrors := hcursors.report herrors.causes
  resynchronize hcursors := hcursors.resynchronize
  within _ hcursors := { hcursors with depth_eq := rfl }

end Likeness

/-! ### Programs with other gaps -/

namespace Program

/-- Tokens of the same kinds are read as the same program but for places, or have the same errors
but for places, in the same order. -/
theorem ofTokens_of_kinds_eq {tokens tokens' : List Token}
    (hkinds : tokens.map Token.kind = tokens'.map Token.kind) :
    ((ofTokens tokens).map Stmt.eraseSpansAll).mapError (List.map SyntaxError.cause)
      = ((ofTokens tokens').map Stmt.eraseSpansAll).mapError (List.map SyntaxError.cause) := by
  have hstart : Likeness.placeless.cursors (.start tokens) (.start tokens') :=
    ⟨rfl, hkinds, rfl, rfl⟩
  obtain ⟨program, program', last, last', hrun, hrun', hcursors, hprograms⟩ :=
    Likeness.placeless_heldBySteps.ofStart hstart
  have hcauses := hcursors.causes_eq
  have hempty : last.reported.isEmpty = last'.reported.isEmpty := by
    rw [← List.isEmpty_map, hcauses, List.isEmpty_map]
  have htrees := map_eq_map_of_forall₂ hprograms
  rw [← Stmt.eraseSpansAll_eq_map, ← Stmt.eraseSpansAll_eq_map] at htrees
  rw [ofTokens, ofTokens, hrun, hrun']
  simp only [hempty]
  split
  · exact congrArg Except.ok htrees
  · exact congrArg Except.error hcauses

theorem mapError_wording (result : Except (List SyntaxError) (List Stmt)) :
    result.mapError (List.map SyntaxError.wording)
      = (result.mapError (List.map SyntaxError.cause)).mapError (List.map SyntaxCause.wording) := by
  cases result with
  | ok program => rfl
  | error errors => simp [Except.mapError, SyntaxError.wording, SyntaxCause.wording,
      SyntaxError.message, SyntaxError.label, SyntaxError.help?]

/-- A source text that can be scanned, with other gaps between the texts of its tokens, has the same
kinds of tokens. It is read as the same program but for places, or has errors of the same wording,
in the same order. -/
theorem ofSource_relaid {source other : String} {lexemes : List Token} {stop : Span}
    {texts : List String} (htokens : Token.ofSource source = .ok (lexemes ++ [⟨.endOfInput, stop⟩]))
    (htexts : List.Forall₂ (Token.HasText source) lexemes texts)
    (hlaid : Laid (texts.map String.toList) other.toList) :
    (∃ tokens, Token.ofSource other = .ok tokens ∧
      tokens.map Token.kind = lexemes.map Token.kind ++ [.endOfInput]) ∧
    ((ofSource other).map Stmt.eraseSpansAll).mapError (List.map SyntaxError.wording)
      = ((ofSource source).map Stmt.eraseSpansAll).mapError (List.map SyntaxError.wording) := by
  obtain ⟨tokens, hother, hkinds⟩ := exists_ofSource_of_laid htokens htexts hlaid
  refine ⟨⟨tokens, hother, hkinds⟩, ?_⟩
  have hsame : tokens.map Token.kind
      = (lexemes ++ [⟨.endOfInput, stop⟩] : List Token).map Token.kind := by
    rw [hkinds, List.map_append, List.map_singleton]
  have hread : ofSource other = ofTokens tokens := by
    rw [ofSource, hother]
    rfl
  have hread' : ofSource source = ofTokens (lexemes ++ [⟨.endOfInput, stop⟩]) := by
    rw [ofSource, htokens]
    rfl
  rw [hread, hread', mapError_wording, mapError_wording, ofTokens_of_kinds_eq hsame]

/-- A statement without gaps and without its semicolon, before a comment, and with blanks and
comments around each token. -/
theorem ofSource_relaid_missing_semicolon :
    let source := "!a/b//c"
    let other := "//d\n !\ta\r\n/ //e\nb //f"
    let lexemes : List Token := [⟨.symbol .bang, 0, 1⟩, ⟨.identifier "a", 1, 2⟩,
      ⟨.symbol .slash, 2, 3⟩, ⟨.identifier "b", 3, 4⟩]
    let texts := ["!", "a", "/", "b"]
    Token.ofSource source = .ok (lexemes ++ [⟨.endOfInput, 7, 7⟩]) ∧
    List.Forall₂ (Token.HasText source) lexemes texts ∧
    Laid (texts.map String.toList) other.toList ∧
    (∃ tokens, Token.ofSource other = .ok tokens ∧
      tokens.map Token.kind = lexemes.map Token.kind ++ [.endOfInput]) ∧
    ((ofSource other).map Stmt.eraseSpansAll).mapError (List.map SyntaxError.wording)
      = ((ofSource source).map Stmt.eraseSpansAll).mapError (List.map SyntaxError.wording) := by
  intro source other lexemes texts
  have htokens : Token.ofSource source = .ok (lexemes ++ [⟨.endOfInput, 7, 7⟩]) := by
    decide +kernel
  have htexts : List.Forall₂ (Token.HasText source) lexemes texts :=
    .cons ⟨"", "a/b//c", rfl, rfl⟩ <| .cons ⟨"!", "/b//c", rfl, rfl⟩ <|
      .cons ⟨"!a", "b//c", rfl, rfl⟩ <| .cons ⟨"!a/", "//c", rfl, rfl⟩ .nil
  have hlaid : Laid (texts.map String.toList) other.toList := by
    have hcomment : Gap [] ('/' :: '/' :: ['f'] ++ []) := .comment (by simp) (by simp) .nil
    have hend : Spaced [] [' ', '/', '/', 'f'] := .finish (.blank rfl hcomment) (by simp [isBlank])
    have hlast : Spaced [['b']] (' ' :: ['/', '/', 'e', '\n'] ++ (['b'] ++ _)) :=
      .text rfl (by decide) hend
    have hslash : Spaced [['/'], ['b']] ('\r' :: ['\n'] ++ (['/'] ++ _)) :=
      .text rfl (by decide) hlast
    have hname : Spaced [['a'], ['/'], ['b']] ('\t' :: [] ++ (['a'] ++ _)) :=
      .text rfl (by decide) hslash
    have hwhole : Laid [['!'], ['a'], ['/'], ['b']] (['/', '/', 'd', '\n', ' '] ++ (['!'] ++ _)) :=
      .cons (by decide) hname
    simpa [texts, other] using hwhole
  exact ⟨htokens, htexts, hlaid, ofSource_relaid htokens htexts hlaid⟩

end Program

end Lox
