import Lox.Proofs.Syntax.CursorInvariance
import Lox.Proofs.Syntax.Totality
import Lox.Proofs.Syntax.UnfinishedStatement

/-!
# Readings with more errors

Reading does not look at the errors that have been reported, and at the token passed last only if
none is left. So two readings of the same tokens go on alike if certain errors have been reported in
one of them before all others (`Cursor.Resumes`, `Likeness.resumed_heldBySteps`).

`Cursor.StandsBefore` says which tokens come next where nothing has been reported yet, and
`Cursor.StandsBefore.takes` what is left of them behind something that can be read.
-/

set_option autoImplicit false
set_option relaxedAutoImplicit false

namespace Lox

/-- The same tokens come next, and certain errors have been reported before all others. The tokens
passed last may differ if the next ones do not lack. -/
structure Cursor.Resumes (errors : List SyntaxError) (first first' : Cursor) : Prop where
  rest_eq : first.rest = first'.rest
  depth_eq : first.depth = first'.depth
  reported_eq : first.reported = errors ++ first'.reported
  passed_eq : first.rest = [] → first.passed = first'.passed

namespace Cursor.Resumes

variable {errors : List SyntaxError} {first first' : Cursor}

theorem next?_eq (hresumes : Resumes errors first first') : first.next? = first'.next? := by
  rw [next?, hresumes.rest_eq, next?]

theorem place_eq (hresumes : Resumes errors first first') : first.place = first'.place := by
  obtain ⟨passed, rest, reported, depth⟩ := first
  obtain ⟨passed', rest', reported', depth'⟩ := first'
  obtain ⟨(rfl : rest = rest'), (rfl : depth = depth'), (rfl : reported = errors ++ reported'),
    hpassed⟩ := hresumes
  cases rest with
  | nil =>
    obtain rfl : passed = passed' := hpassed rfl
    rfl
  | cons token rest => rfl

theorem advance (hresumes : Resumes errors first first') :
    Resumes errors first.advance first'.advance ∧ first.advance.passed = first'.advance.passed := by
  obtain ⟨passed, rest, reported, depth⟩ := first
  obtain ⟨passed', rest', reported', depth'⟩ := first'
  obtain ⟨(rfl : rest = rest'), (rfl : depth = depth'), (rfl : reported = errors ++ reported'),
    hpassed⟩ := hresumes
  cases rest with
  | nil =>
    obtain rfl : passed = passed' := hpassed rfl
    exact ⟨⟨rfl, rfl, rfl, fun _ ↦ rfl⟩, rfl⟩
  | cons token rest => exact ⟨⟨rfl, rfl, rfl, fun _ ↦ rfl⟩, rfl⟩

theorem resynchronize (hresumes : Resumes errors first first') :
    Resumes errors first.resynchronize first'.resynchronize := by
  obtain ⟨⟨hrest, hdepth, hreported, -⟩, hpassed⟩ := hresumes.advance
  have hskip : Cursor.skipStatement first.advance.passed first.advance.rest
      = Cursor.skipStatement first'.advance.passed first'.advance.rest := by
    rw [hrest, hpassed]
  exact ⟨congrArg Prod.snd hskip, hdepth, hreported, fun _ ↦ congrArg Prod.fst hskip⟩

theorem report (hresumes : Resumes errors first first') (error : SyntaxError) :
    Resumes errors (first.report error) (first'.report error) := by
  refine ⟨hresumes.rest_eq, hresumes.depth_eq, ?_, hresumes.passed_eq⟩
  rw [Cursor.report, hresumes.reported_eq, List.append_assoc]
  rfl

end Cursor.Resumes

namespace Likeness

/-- The same errors are found, behind others that have been reported. What statements come to is
not looked at. -/
def resumed (errors : List SyntaxError) : Likeness :=
  ⟨Cursor.Resumes errors, Eq, Eq, Eq, fun _ _ ↦ True⟩

variable {errors : List SyntaxError}

theorem resumed_heldBySteps : (resumed errors).HeldBySteps where
  congruent :=
    { CongruentExpressions.of_eq with
      expression := fun _ ↦ True.intro
      print := fun _ ↦ True.intro
      declare := fun _ _ ↦ True.intro
      block := fun _ ↦ True.intro
      conditional := fun _ _ _ ↦ True.intro
      loop := fun _ _ ↦ True.intro
      function := fun _ _ _ _ ↦ True.intro
      «return» := fun _ _ ↦ True.intro }
  next_eq hcursors := congrArg (·.getD .endOfInput) hcursors.next?_eq
  depth_eq hcursors := hcursors.depth_eq
  place hcursors := hcursors.place_eq
  cause _ := rfl
  unexpected kind hcursors := congrArg (SyntaxCause.unexpectedToken kind) hcursors.next?_eq
  advance hcursors := hcursors.advance.1
  report hcursors herrors := herrors.eq ▸ hcursors.report _
  resynchronize hcursors := hcursors.resynchronize
  within _ hcursors :=
    ⟨hcursors.rest_eq, rfl, hcursors.reported_eq, hcursors.passed_eq⟩

end Likeness

/-- A statement that is read takes a token at least. -/
theorem Parse.length_rest_statement {limit : Nat} {place : StatementPlace} {first last : Cursor}
    {value : Stmt} (hlt : first.rest.length < limit)
    (hrun : (Parse.statement limit place).run first = .done value last) :
    last.rest.length < first.rest.length := by
  have hsame : first.Resumes [] first := ⟨rfl, rfl, rfl, fun _ ↦ rfl⟩
  rcases Likeness.resumed_heldBySteps.statement limit limit place first first ⟨hsame, hlt, hlt⟩ with
    ⟨_, _, _, _, hdone, -, -, -, hahead⟩ | ⟨_, _, _, _, hfailed, -⟩
  · rw [hrun] at hdone
    cases hdone
    exact hahead.lt
  · rw [hrun] at hfailed
    cases hfailed

/-! ### Tokens before a place -/

/-- As many tokens or fewer come next. -/
def Cursor.Remains (first last : Cursor) : Prop := last.rest <:+ first.rest

instance : IsPreorder Cursor Cursor.Remains where
  refl _ := List.suffix_refl _
  trans _ _ _ hfirst hsecond := hsecond.trans hfirst

theorem Cursor.heldByReading_remains : HeldByReading Cursor.Remains where
  advance cursor := cursor.suffix_advance
  report _ _ := List.suffix_refl _
  resynchronize cursor := cursor.suffix_resynchronize
  insideFunction body hbody before after hafter := by
    obtain ⟨inner, hinner, rfl⟩ := Bounded.state?_run_within hafter
    have hremains := hbody _ _ hinner
    exact hremains

/-- Tokens of certain kinds come next, behind them certain other tokens, and nothing has been
reported. -/
structure Cursor.StandsBefore (depth : Nat) (read : List TokenKind) (rest : List Token)
    (cursor : Cursor) : Prop where
  exists_tokens : ∃ tokens : List Token, tokens.map Token.kind = read ∧ cursor.rest = tokens ++ rest
  depth_eq : cursor.depth = depth
  reported_eq : cursor.reported = []

namespace Cursor.StandsBefore

variable {depth : Nat} {read more : List TokenKind} {rest : List Token} {first : Cursor}

theorem kinds_eq (hfirst : first.StandsBefore depth read rest) :
    first.kinds = read ++ rest.map Token.kind := by
  obtain ⟨tokens, rfl, hrest⟩ := hfirst.exists_tokens
  rw [kinds, hrest, List.map_append]

theorem length_eq (hfirst : first.StandsBefore depth read rest) :
    first.rest.length = read.length + rest.length := by
  obtain ⟨tokens, rfl, hrest⟩ := hfirst.exists_tokens
  rw [hrest, List.length_append, List.length_map]

theorem rest_eq (hfirst : first.StandsBefore depth [] rest) : first.rest = rest := by
  obtain ⟨tokens, htokens, hrest⟩ := hfirst.exists_tokens
  rwa [List.map_eq_nil_iff.mp htokens] at hrest

/-- The tokens behind may be taken to be some of those that come next. -/
theorem append {start : List Token} (hfirst : first.StandsBefore depth read (start ++ rest)) :
    first.StandsBefore depth (read ++ start.map Token.kind) rest := by
  obtain ⟨tokens, rfl, hrest⟩ := hfirst.exists_tokens
  exact ⟨⟨tokens ++ start, List.map_append, by rw [hrest, List.append_assoc]⟩, hfirst.depth_eq,
    hfirst.reported_eq⟩

/-- Passing some of the tokens. What has been skipped is as long as what has been read. -/
theorem passes {last : Cursor} (hfirst : first.StandsBefore depth (read ++ more) rest)
    (hpasses : first.Passes read last) (hremains : first.Remains last) :
    last.StandsBefore depth more rest := by
  refine ⟨?_, hpasses.depth_eq.trans hfirst.depth_eq, hpasses.reported_eq.trans hfirst.reported_eq⟩
  obtain ⟨tokens, htokens, hrest⟩ := hfirst.exists_tokens
  obtain ⟨skipped, hskipped⟩ := hremains
  have hlength : skipped.length = read.length := by
    have hkinds := congrArg List.length hpasses.kinds_eq
    simp only [kinds, ← hskipped, List.length_append, List.length_map] at hkinds
    omega
  obtain ⟨start, others, rfl, rfl, rfl⟩ := List.map_eq_append_iff.mp htokens
  rw [← hskipped, List.append_assoc] at hrest
  rw [List.length_map] at hlength
  exact ⟨others, rfl, (List.append_inj hrest hlength).2⟩

variable {α : Type} {parse : Parse α} {good : α → Prop}

/-- Reading some of the tokens. -/
theorem takes (htakes : Parse.Takes depth parse read (more ++ rest.map Token.kind) good)
    (hkeeps : parse.Keeps Remains) (hfirst : first.StandsBefore depth (read ++ more) rest) :
    ∃ value last, parse.run first = .done value last ∧ good value ∧
      last.StandsBefore depth more rest ∧ first.Remains last := by
  obtain ⟨value, last, hrun, hpasses, hgood⟩ :=
    htakes first (by rw [hfirst.kinds_eq, List.append_assoc]) hfirst.depth_eq
  have hremains := hkeeps first last (by rw [hrun, Outcome.state?])
  exact ⟨value, last, hrun, hgood, hfirst.passes hpasses hremains, hremains⟩

/-- Failing behind some of the tokens. -/
theorem fails {cause : SyntaxCause}
    (hfails : Parse.Fails depth parse read (more ++ rest.map Token.kind) cause)
    (hkeeps : parse.Keeps Remains) (hfirst : first.StandsBefore depth (read ++ more) rest) :
    ∃ last, parse.run first = .failed ⟨cause, last.place⟩ last ∧
      last.StandsBefore depth more rest ∧ first.Remains last := by
  obtain ⟨last, hrun, hpasses⟩ :=
    hfails first (by rw [hfirst.kinds_eq, List.append_assoc]) hfirst.depth_eq
  have hremains := hkeeps first last (by rw [hrun, Outcome.state?])
  exact ⟨last, hrun, hfirst.passes hpasses hremains, hremains⟩

/-! ### Lists of statements -/

section Lists

open Grammar

variable {inBlock inFunction : Bool} {limit bound : Nat}

/-- A list of statements does not end where one starts. -/
theorem not_endsList (inBlock : Bool)
    (hbegins : Begins startsStatement (read ++ rest.map Token.kind))
    (hfirst : first.StandsBefore depth read rest) :
    (first.isAtEnd || inBlock && first.isAt (.symbol .rightBrace)) = false := by
  obtain ⟨stop, last, hrun, -, hstop⟩ :=
    Parse.Takes.endsList? inBlock first hfirst.kinds_eq hfirst.depth_eq
  obtain ⟨rfl, -⟩ := Outcome.done.inj hrun
  have hnot : ¬Parse.Takes.EndsList inBlock (read ++ rest.map Token.kind ++ []) :=
    Parse.Takes.not_endsList hbegins
  rw [List.append_nil] at hnot
  exact Bool.eq_false_iff.mpr fun h ↦ hnot (hstop.mp h)

theorem run_statements {statement : Parse Stmt}
    (hbegins : Begins startsStatement (read ++ rest.map Token.kind))
    (hfirst : first.StandsBefore depth read rest) :
    (Parse.statements inBlock statement (bound + 1)).run first
      = (statement.attempt >>= fun
        | .ok value => do
          let others ← Parse.statements inBlock statement bound
          pure (value :: others)
        | .error error => do
          Parse.report error
          .modify Cursor.resynchronize
          Parse.statements inBlock statement bound : Parse (List Stmt)).run first := by
  have hrun : (.gets fun cursor ↦ cursor.isAtEnd || inBlock && cursor.isAt (.symbol .rightBrace) :
      Parse Bool).run first = .done false first := by
    rw [← hfirst.not_endsList inBlock hbegins]
    rfl
  rw [Parse.statements, Bounded.run_bind_of_done hrun]
  rfl

/-- A list goes on behind a statement that is read. -/
theorem exists_statements {closed : Bool} {tree : Stmt}
    (hstatement : Statement true .inList inFunction closed read tree)
    (hdepth : inFunction = true → depth ≠ 0) (hlimit : read.length ≤ limit)
    (hnext : closed = false → (more ++ rest.map Token.kind).head? ≠ some (.keyword .else))
    (hfirst : first.StandsBefore depth (read ++ more) rest) :
    ∃ value last, (Parse.statements inBlock (Parse.statement limit .inList) (bound + 1)).run first
        = (do
          let others ← Parse.statements inBlock (Parse.statement limit .inList) bound
          pure (value :: others)).run last ∧
      last.StandsBefore depth more rest ∧ first.Remains last := by
  have hbegins := (hstatement.begins.append more).append (rest.map Token.kind)
  obtain ⟨value, last, hrun, -, hlast, hremains⟩ :=
    hfirst.takes (hstatement.completes depth limit _ hlimit hdepth hnext)
      (Cursor.heldByReading_remains.statement limit .inList)
  refine ⟨value, last, ?_, hlast, hremains⟩
  rw [hfirst.run_statements hbegins, Bounded.run_bind, Bounded.run_attempt, hrun]

/-- A list goes on behind a block without statements. -/
theorem exists_statements_of_emptyBlock {opening closing : Token}
    (hopening : opening.kind = .symbol .leftBrace) (hclosing : closing.kind = .symbol .rightBrace)
    (hlimit : 1 < limit) (hfirst : first.StandsBefore depth [] (opening :: closing :: rest)) :
    ∃ value last, (Parse.statements inBlock (Parse.statement limit .inList) (bound + 1)).run first
        = (do
          let others ← Parse.statements inBlock (Parse.statement limit .inList) bound
          pure (value :: others)).run last ∧
      last.StandsBefore depth [] rest ∧ first.Remains last := by
  have hitems : ∀ item ∈ ([] : List (Piece Stmt)),
      Statement true .inList false false item.read item.tree := by simp
  have hblock : Statement true .inList false true
      [.symbol .leftBrace, .symbol .rightBrace] (.block []) := .block hitems
  have hinner : first.StandsBefore depth ([] ++ [opening, closing].map Token.kind ++ []) rest := by
    rw [List.append_nil]
    exact append hfirst
  rw [List.map_cons, hopening, List.map_singleton, hclosing, List.nil_append] at hinner
  exact hinner.exists_statements hblock (by simp) hlimit (by simp)

/-- A list goes on behind a closing brace at which a statement could not be read, and behind all
that is skipped there. -/
theorem exists_statements_of_fails {brace : Token} {after : List Token} {cause : SyntaxCause}
    (hfails : StatementFails .inList inFunction read cause)
    (hbegins : Begins startsStatement read) (hbrace : brace.kind = .symbol .rightBrace)
    (hdepth : inFunction = true → depth ≠ 0) (hlimit : read.length < limit)
    (hfirst : first.StandsBefore depth read (brace :: after)) :
    ∃ last, (Parse.statements inBlock (Parse.statement limit .inList) (bound + 1)).run first
        = (Parse.statements inBlock (Parse.statement limit .inList) bound).run last ∧
      last.rest = (Cursor.skipStatement (some brace) after).2 ∧ last.depth = depth ∧
      last.reported = [⟨cause, brace.span⟩] ∧ first.Remains last := by
  have hread : Parse.Fails depth (Parse.statement limit .inList) read
      ([] ++ (brace :: after).map Token.kind) cause := by
    rw [List.nil_append, List.map_cons, hbrace]
    exact hfails depth limit _ hlimit hdepth
  rw [← List.append_nil read] at hfirst
  obtain ⟨last, hrun, hlast, hremains⟩ :=
    hfirst.fails hread (Cursor.heldByReading_remains.statement limit .inList)
  rw [List.append_nil] at hfirst
  have hrest := hlast.rest_eq
  obtain ⟨passed, rest, reported, depth'⟩ := last
  obtain ⟨-, (rfl : depth' = depth), (rfl : reported = [])⟩ := hlast
  obtain rfl : rest = brace :: after := hrest
  refine ⟨.resynchronize (.report ⟨cause, brace.span⟩ ⟨passed, brace :: after, [], depth'⟩), ?_,
    rfl, rfl, rfl, (Cursor.suffix_resynchronize _).trans hremains⟩
  rw [hfirst.run_statements (hbegins.append _), Bounded.run_bind, Bounded.run_attempt, hrun]
  rfl

end Lists

end Cursor.StandsBefore

end Lox
