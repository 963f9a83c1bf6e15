import Lox.Proofs.Lexical.JoinedScan
import Lox.Proofs.Syntax.FaithfulSpans
import Lox.Proofs.Syntax.Resumption

/-!
# Programs behind one another

Behind a program and a line feed every source text is read as it is alone, unless it starts with an
`else`, which would belong to a conditional at the end of the program
(`Program.ofSource_joined`). If it is a program too, its statements come behind the others, and if
it is not, it has the same errors. All places are moved behind the first text.

The statements of the first text are passed one by one (`Cursor.StandsBefore.exists_items`). What is
left then is read side by side with the second text alone, by a cursor over tokens that are moved
(`Cursor.Moved`). The token passed last is the one thing that differs. It makes no difference,
because resynchronization drops a token before it looks at the one passed last.
-/

set_option autoImplicit false
set_option relaxedAutoImplicit false

namespace Lox

open Grammar

namespace Cursor

/-- The second cursor is over the same tokens, moved by a distance, and the same errors have been
reported. The tokens passed last may differ if the next ones do not lack. -/
structure Moved (distance : Nat) (first first' : Cursor) : Prop where
  rest_eq : first'.rest = first.rest.map (Token.shift distance)
  depth_eq : first'.depth = first.depth
  reported_eq : first'.reported = first.reported.map (SyntaxError.shift distance)
  exists_passed : first.rest = [] →
    ∃ token, first.passed = some token ∧ first'.passed = some (token.shift distance)

theorem skipStatement_shift (distance : Nat) (passed : Option Token) (rest : List Token) :
    skipStatement (passed.map (Token.shift distance)) (rest.map (Token.shift distance))
      = ((skipStatement passed rest).1.map (Token.shift distance),
        (skipStatement passed rest).2.map (Token.shift distance)) := by
  induction rest generalizing passed with
  | nil => rfl
  | cons token rest ih =>
    have hpassed : (passed.map (Token.shift distance)).map Token.kind = passed.map Token.kind := by
      rw [Option.map_map]
      rfl
    rw [List.map_cons, skipStatement, skipStatement, hpassed, Token.kind_shift]
    split
    · rfl
    · exact ih (some token)

theorem exists_skipStatement_passed (token : Token) (rest : List Token) :
    ∃ last, (skipStatement (some token) rest).1 = some last := by
  induction rest generalizing token with
  | nil => exact ⟨token, rfl⟩
  | cons next rest ih =>
    rw [skipStatement]
    split
    · exact ⟨token, rfl⟩
    · exact ih next

namespace Moved

variable {distance : Nat} {first first' : Cursor}

theorem next?_eq (hmoved : Moved distance first first') : first.next? = first'.next? := by
  rw [next?, next?, hmoved.rest_eq]
  cases first.rest <;> rfl

theorem place_eq (hmoved : Moved distance first first') :
    first'.place = first.place.shift distance := by
  rw [place, place, hmoved.rest_eq]
  cases hrest : first.rest with
  | cons token rest => rfl
  | nil =>
    obtain ⟨token, hpassed, hpassed'⟩ := hmoved.exists_passed hrest
    simp only [List.map_nil, passedSpan, hpassed, hpassed']
    rfl

/-- Behind the token that is passed the tokens passed last do not differ. -/
theorem advance (hmoved : Moved distance first first') :
    Moved distance first.advance first'.advance ∧
      ∃ token, first.advance.passed = some token ∧
        first'.advance.passed = some (token.shift distance) := by
  obtain ⟨passed, rest, reported, depth⟩ := first
  obtain ⟨passed', rest', reported', depth'⟩ := first'
  obtain ⟨rfl, hdepth, hreported, hpassed⟩ := hmoved
  cases rest with
  | nil =>
    have hpassed := hpassed rfl
    exact ⟨⟨rfl, hdepth, hreported, fun _ ↦ hpassed⟩, hpassed⟩
  | cons token rest =>
    exact ⟨⟨rfl, hdepth, hreported, fun _ ↦ ⟨token, rfl, rfl⟩⟩, token, rfl, rfl⟩

theorem report (hmoved : Moved distance first first') (error : SyntaxError) :
    Moved distance (first.report error) (first'.report (error.shift distance)) := by
  refine { hmoved with reported_eq := ?_ }
  rw [Cursor.report, Cursor.report, hmoved.reported_eq, List.map_append]
  rfl

theorem resynchronize (hmoved : Moved distance first first') :
    Moved distance first.resynchronize first'.resynchronize := by
  obtain ⟨⟨hrest, hdepth, hreported, -⟩, token, hpassed, hpassed'⟩ := hmoved.advance
  obtain ⟨last, hlast⟩ := exists_skipStatement_passed token first.advance.rest
  have hskip := skipStatement_shift distance (some token) first.advance.rest
  rw [Option.map_some, ← hpassed', ← hrest, ← hpassed] at hskip
  rw [← hpassed] at hlast
  refine ⟨congrArg Prod.snd hskip, hdepth, hreported, fun _ ↦ ⟨last, hlast, ?_⟩⟩
  exact (congrArg Prod.fst hskip).trans (by rw [hlast, Option.map_some])

end Moved

namespace StandsBefore

variable {inBlock : Bool} {depth limit bound : Nat} {rest : List Token} {first : Cursor}

/-- A list goes on behind the statements of a program. What comes next is no `else`, with which the
last one could go on. -/
theorem exists_items {items : List (Piece Stmt)}
    (hitems : ∀ item ∈ items, Statement true .inList false false item.read item.tree)
    (hlimit : (items.flatMap Piece.read).length ≤ limit)
    (hnext : (rest.map Token.kind).head? ≠ some (.keyword .else))
    (hfirst : first.StandsBefore depth (items.flatMap Piece.read) rest) :
    ∃ values last,
      (Parse.statements inBlock (Parse.statement limit .inList) (bound + items.length)).run first
        = (do
          let others ← Parse.statements inBlock (Parse.statement limit .inList) bound
          pure (values ++ others)).run last ∧
      last.StandsBefore depth [] rest := by
  induction items generalizing first with
  | nil =>
    refine ⟨[], first, ?_, hfirst⟩
    simp only [List.nil_append, bind_pure]
    rfl
  | cons item items ih =>
    obtain ⟨hitem, hitems⟩ := List.forall_mem_cons.mp hitems
    rw [List.flatMap_cons] at hfirst hlimit
    rw [List.length_append] at hlimit
    have hmore : ((items.flatMap Piece.read) ++ rest.map Token.kind).head?
        ≠ some (.keyword .else) := by
      cases items with
      | nil => exact hnext
      | cons other items =>
        have hbegins := (hitems other List.mem_cons_self).begins
        exact ((hbegins.append _).append _).head?_ne_some rfl
    have hle : item.read.length ≤ limit := by omega
    obtain ⟨value, middle, hrun, hmiddle, -⟩ :=
      hfirst.exists_statements hitem (by simp) hle fun _ ↦ hmore
    obtain ⟨values, last, hrun', hlast⟩ := ih hitems (by omega) hmiddle
    refine ⟨value :: values, last, ?_, hlast⟩
    rw [List.length_cons, ← Nat.add_assoc, hrun, Bounded.run_bind, hrun']
    change ((Parse.statements inBlock (Parse.statement limit .inList) bound >>= fun others ↦
      pure (values ++ others)) >>= fun others ↦ pure (value :: others)).run last = _
    rw [bind_assoc]
    simp only [pure_bind, List.cons_append]

end StandsBefore

end Cursor

/-! ### Reading tokens that are moved -/

theorem Expr.eq_shiftAll_of_forall₂ {distance : Nat} {trees trees' : List Expr}
    (htrees : List.Forall₂ (fun tree tree' ↦ tree' = tree.shift distance) trees trees') :
    trees' = shiftAll distance trees := by
  induction htrees with
  | nil => rfl
  | cons htree _ ih =>
    rw [htree, ih]
    rfl

namespace Likeness

/-- The same errors are found further on. What statements come to is not looked at. -/
def moved (distance : Nat) : Likeness where
  cursors := Cursor.Moved distance
  spans span span' := span' = span.shift distance
  causes := Eq
  expressions tree tree' := tree' = tree.shift distance
  statements _ _ := True

variable {distance : Nat}

theorem Identifiers.eq_shift {identifier identifier' : Identifier}
    (hidentifiers : (moved distance).Identifiers identifier identifier') :
    identifier' = identifier.shift distance := by
  obtain ⟨name, span⟩ := identifier
  obtain ⟨name', span'⟩ := identifier'
  obtain ⟨rfl, rfl⟩ := hidentifiers
  rfl

theorem Errors.eq_shift {error error' : SyntaxError}
    (herrors : (moved distance).Errors error error') : error' = error.shift distance := by
  obtain ⟨cause, span⟩ := error
  obtain ⟨cause', span'⟩ := error'
  obtain ⟨rfl, rfl⟩ := herrors
  rfl

theorem moved_congruentExpressions : (moved distance).CongruentExpressions where
  join := by
    rintro _ _ _ _ rfl rfl
    rfl
  union := by
    rintro first _ last _ rfl rfl
    exact Span.union_shift distance first last
  span := by
    rintro tree _ rfl
    exact tree.span_shift distance
  isName := by
    rintro tree _ rfl
    cases tree with
    | name target => exact .inl ⟨target, target.shift distance, rfl, rfl, rfl, rfl⟩
    | _ => exact .inr ⟨by rintro _ ⟨⟩, by rintro _ ⟨⟩⟩
  literal := by
    rintro _ _ _ rfl
    rfl
  grouping := by
    rintro _ _ _ _ rfl rfl
    rfl
  unary := by
    rintro _ _ _ _ _ rfl rfl
    rfl
  binary := by
    rintro _ _ _ _ _ _ _ rfl rfl rfl
    rfl
  logical := by
    rintro _ _ _ _ _ _ _ rfl rfl rfl
    rfl
  name hidentifiers := congrArg Expr.name hidentifiers.eq_shift
  assign := by
    rintro _ _ _ _ _ _ htarget rfl rfl
    rw [htarget.eq_shift]
    rfl
  call := by
    rintro _ _ _ _ _ _ rfl harguments rfl
    rw [Expr.eq_shiftAll_of_forall₂ harguments]
    rfl

theorem moved_heldBySteps : (moved distance).HeldBySteps where
  congruent :=
    { moved_congruentExpressions with
      expression := fun _ ↦ True.intro
      print := fun _ ↦ True.intro
      declare := fun _ _ ↦ True.intro
      block := fun _ ↦ True.intro
      conditional := fun _ _ _ ↦ True.intro
      loop := fun _ _ ↦ True.intro
      function := fun _ _ _ _ ↦ True.intro
      «return» := fun _ _ ↦ True.intro }
  next_eq hcursors := congrArg (·.getD .endOfInput) hcursors.next?_eq
  depth_eq hcursors := hcursors.depth_eq.symm
  place hcursors := hcursors.place_eq
  cause _ := rfl
  unexpected kind hcursors := congrArg (SyntaxCause.unexpectedToken kind) hcursors.next?_eq
  advance hcursors := hcursors.advance.1
  report hcursors herrors := herrors.eq_shift ▸ hcursors.report _
  resynchronize hcursors := hcursors.resynchronize
  within _ hcursors := { hcursors with depth_eq := rfl }

end Likeness

/-! ### Programs of source texts -/

namespace Program

/-- Tokens that are rejected have the same errors behind those of a program. A turn of the list is
spent on each statement of the program, and enough turns are left. -/
theorem ofTokens_append_of_error {lexemes tokens : List Token} {trees : List Stmt}
    {errors : List SyntaxError} (htrees : Grammar.Program true (lexemes.map Token.kind) trees)
    (hne : tokens ≠ []) (hnext : tokens.head?.map Token.kind ≠ some (.keyword .else))
    (herrors : ofTokens tokens = .error errors) (distance : Nat) :
    ofTokens (lexemes ++ tokens.map (Token.shift distance))
      = .error (errors.map (SyntaxError.shift distance)) := by
  obtain ⟨items, hitems, hread, -⟩ := htrees
  have hlength : (items.flatMap Piece.read).length = lexemes.length := by
    rw [← hread, List.length_map]
  have hcount := length_items_le fun item hmem ↦ (hitems item hmem).begins
  obtain ⟨bound, hbound⟩ : ∃ bound, lexemes.length + tokens.length + 1 = bound + items.length :=
    ⟨lexemes.length + tokens.length + 1 - items.length, by omega⟩
  have hstart : (Cursor.start (lexemes ++ tokens.map (Token.shift distance))).StandsBefore 0
      (items.flatMap Piece.read) (tokens.map (Token.shift distance)) :=
    ⟨⟨lexemes, hread, rfl⟩, rfl, rfl⟩
  have hhead : ((tokens.map (Token.shift distance)).map Token.kind).head?
      ≠ some (.keyword .else) := by
    rwa [List.map_map, List.head?_map]
  obtain ⟨values, last, hrun, hlast⟩ := hstart.exists_items hitems
    (show _ ≤ lexemes.length + tokens.length + 1 by omega) hhead
  have hmoved : (Cursor.start tokens).Moved distance last :=
    ⟨hlast.rest_eq, hlast.depth_eq, hlast.reported_eq, fun hnil ↦ absurd hnil hne⟩
  have hrest : last.rest.length = tokens.length := by
    rw [hlast.rest_eq, List.length_map]
  have h := @Likeness.moved_heldBySteps distance
  have hfits : (Likeness.moved distance).Fits (sufficientBound tokens.length)
      (lexemes.length + tokens.length + 1) (.start tokens) last :=
    ⟨hmoved, Nat.lt_succ_self _, by omega⟩
  have hturns : (Likeness.moved distance).Fits (sufficientBound tokens.length) bound
      (.start tokens) last := ⟨hmoved, Nat.lt_succ_self _, by omega⟩
  obtain ⟨program, others, stop, stop', hdone, hdone', hfollow, -⟩ :=
    h.statements false (h.statement _ _ .inList) hfits hturns
  have hreported : stop'.reported = errors.map (SyntaxError.shift distance) := by
    rw [hfollow.cursors.reported_eq, ← errorsOf_eq hdone, errorsOf, herrors]
  have hjoined : (parse (sufficientBound (lexemes ++ tokens.map (Token.shift distance)).length)).run
      (.start (lexemes ++ tokens.map (Token.shift distance))) = .done (values ++ others) stop' := by
    rw [← hbound] at hrun
    rw [sufficientBound, List.length_append, List.length_map, parse, hrun,
      Bounded.run_bind_of_done hdone', Bounded.run_pure]
  rw [← hreported]
  refine ofTokens_eq_error hjoined fun hnil ↦ ?_
  rw [hnil, eq_comm, List.map_eq_nil_iff] at hreported
  exact ne_nil_of_ofTokens herrors hreported

/-- Behind a program and a line feed a source text that does not start with an `else` is read as it
is alone: as its statements, behind those of the program, or with exactly its errors. All places in
it are moved behind the first text. -/
theorem ofSource_joined {first second : String} {before : Program}
    (hfirst : ofSource first = .ok before)
    (hsecond : ∀ tokens, Token.ofSource second = .ok tokens →
      tokens.head?.map Token.kind ≠ some (.keyword .else)) :
    ofSource (first ++ "\n" ++ second) =
      match ofSource second with
      | .ok after => .ok (before ++ Stmt.shiftAll (first.utf8ByteSize + 1) after)
      | .error errors => .error (errors.map (SyntaxError.shift (first.utf8ByteSize + 1))) := by
  obtain ⟨lexemes, stop, htokens, -, -, hbefore⟩ := exists_writtenBy_of_ofSource hfirst
  cases hscan : Token.ofSource second with
  | error scanned =>
    have hjoined := ofSource_append_newline_of_error htokens hscan
    rw [ofSource, hjoined, ofSource, hscan]
    rfl
  | ok tokens =>
    have hjoined := ofSource_append_newline htokens hscan
    rw [List.dropLast_concat] at hjoined
    have hread : ofSource second = ofTokens tokens := by
      rw [ofSource, hscan]
      rfl
    cases hresult : ofSource second with
    | error errors =>
      rw [hread] at hresult
      have hne : tokens ≠ [] :=
        (ofSource_eq_ok_iff_decomposes.mp hscan).tokens_ne_nil
      rw [ofSource, hjoined]
      exact ofTokens_append_of_error hbefore.program hne (hsecond tokens hscan) hresult _
    | ok after =>
      obtain ⟨others, last, htokens', -, -, hafter⟩ := exists_writtenBy_of_ofSource hresult
      obtain rfl : tokens = others ++ [⟨.endOfInput, last⟩] :=
        Except.ok.inj (hscan.symm.trans htokens')
      rw [List.map_append, ← List.append_assoc] at hjoined
      exact (ofSource_eq_ok_iff_writtenBy hjoined).mpr (hbefore.append (hafter.shift _))

/-- A conditional that an `else` could go on with, a comment up to the seam, and a text that starts
with a semicolon, at which reading fails although another one has been passed before it. -/
theorem ofSource_joined_behind_comment :
    let first := "if (a) b; // c"
    let second := "; print a"
    let tokens : List Token := [⟨.symbol .semicolon, 0, 1⟩, ⟨.keyword .print, 2, 7⟩,
      ⟨.identifier "a", 8, 9⟩, ⟨.endOfInput, 9, 9⟩]
    let before : Program :=
      [.conditional (.name ⟨"a", 4, 5⟩) (.expression (.name ⟨"b", 7, 8⟩)) none]
    let atEnd : SyntaxCause := .unexpectedToken (.symbol .semicolon) (some .endOfInput)
    ofSource first = .ok before ∧ Token.ofSource second = .ok tokens ∧
      ofSource second = .error [⟨.missingExpression, 0, 1⟩, ⟨atEnd, 9, 9⟩] ∧
      ofSource (first ++ "\n" ++ second)
        = .error [⟨.missingExpression, 15, 16⟩, ⟨atEnd, 24, 24⟩] := by
  intro first second tokens before atEnd
  have hfirst : ofSource first = .ok before := by
    rw [ofSource, show Token.ofSource first =
      .ok [⟨.keyword .if, 0, 2⟩, ⟨.symbol .leftParenthesis, 3, 4⟩, ⟨.identifier "a", 4, 5⟩,
        ⟨.symbol .rightParenthesis, 5, 6⟩, ⟨.identifier "b", 7, 8⟩, ⟨.symbol .semicolon, 8, 9⟩,
        ⟨.endOfInput, 14, 14⟩] by decide +kernel]
    rfl
  have htokens : Token.ofSource second = .ok tokens := by decide +kernel
  have hsecond : ofSource second = .error [⟨.missingExpression, 0, 1⟩, ⟨atEnd, 9, 9⟩] := by
    rw [ofSource, htokens]
    rfl
  have hjoined := ofSource_joined hfirst fun others hothers ↦ by
    obtain rfl := Except.ok.inj (htokens.symm.trans hothers)
    decide
  rw [hsecond] at hjoined
  exact ⟨hfirst, htokens, hsecond, hjoined⟩

end Program

end Lox
