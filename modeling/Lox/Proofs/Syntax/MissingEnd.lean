import Lox.Proofs.Syntax.Totality

/-!
# Tokens without an end

A scanned source text ends with a token for the end of the input, but a list of tokens that comes
from elsewhere may lack one. Then it is read as if there were one at the place of the last token
(`ofTokens_eq_with_end`): the same program comes out, or errors that look the same to a reader
(`SyntaxError.shown`). Their causes differ, for what is found is no token in the one case and the
end of the input in the other.

The two readings stand at the same token until the one has passed all of its tokens and the other
all but the last (`Cursor.LacksEnd`). A failure there makes the other pass its last token too, and
from then on both have nothing left.
-/

set_option autoImplicit false
set_option relaxedAutoImplicit false

namespace Lox

/-- An error as a reader meets it: what is wrong, the note, the advice and the place. -/
def SyntaxError.shown (error : SyntaxError) : String × String × Option String × Span :=
  (error.message, error.label, error.help?, error.span)

/-- A message names the lack of a token as it names the end of the input. -/
theorem SyntaxError.shown_unexpectedToken (wanted : TokenKind) {found found' : Option TokenKind}
    (hfound : found.getD .endOfInput = found'.getD .endOfInput) (span : Span) :
    shown ⟨.unexpectedToken wanted found, span⟩ = shown ⟨.unexpectedToken wanted found', span⟩ := by
  have hmessage : (SyntaxCause.unexpectedToken wanted found).message
      = (SyntaxCause.unexpectedToken wanted found').message :=
    congrArg (fun kind : TokenKind ↦
      "Expected " ++ wanted.describe ++ " but found " ++ kind.describe) hfound
  exact congrArg (·, "expected " ++ wanted.describe, none, span) hmessage

namespace Cursor

/-- The last one of all tokens, whether it has been passed or is still to come. -/
def last? (cursor : Cursor) : Option Token := cursor.rest.getLast?.or cursor.passed

theorem last?_advance (cursor : Cursor) : cursor.advance.last? = cursor.last? := by
  obtain ⟨passed, rest, reported, depth⟩ := cursor
  cases rest with
  | nil => rfl
  | cons token rest =>
    change rest.getLast?.or (some token) = (token :: rest).getLast?.or passed
    rw [List.getLast?_cons]
    cases rest.getLast? <;> rfl

theorem last?_resynchronize (cursor : Cursor) : cursor.resynchronize.last? = cursor.last? :=
  resynchronize_induction (motive := fun reached ↦ reached.last? = cursor.last?) rfl
    fun reached hreached ↦ reached.last?_advance.trans hreached

/-- A token for the end of the input behind all others stops the skipping of tokens as their end
does. -/
theorem skipStatement_append_end (passed : Option Token) {rest : List Token}
    (hrest : ∀ token ∈ rest, token.kind ≠ .endOfInput) (stop : Span) :
    skipStatement passed (rest ++ [⟨.endOfInput, stop⟩])
      = ((skipStatement passed rest).1,
        (skipStatement passed rest).2 ++ [⟨.endOfInput, stop⟩]) := by
  induction rest generalizing passed with
  | nil => rfl
  | cons token rest ih =>
    rw [List.cons_append, skipStatement, skipStatement]
    split
    · rfl
    · exact ih _ fun other hother ↦ hrest other (List.mem_cons_of_mem _ hother)

/-- Two cursors over the same tokens, of which the second has one more, the end of the input at the
place of the last of the others. It is still to come, or nothing is left for either cursor. -/
structure LacksEnd (stop : Span) (first first' : Cursor) : Prop where
  depth_eq : first.depth = first'.depth
  shown_eq : first.reported.map SyntaxError.shown = first'.reported.map SyntaxError.shown
  last_eq : first.last?.map Token.span = some stop
  kind_ne : ∀ token ∈ first.rest, token.kind ≠ .endOfInput
  tokens_eq : (first.passed = first'.passed ∧ first'.rest = first.rest ++ [⟨.endOfInput, stop⟩]) ∨
    (first.rest = [] ∧ first'.rest = [] ∧ first'.passedSpan = stop)

namespace LacksEnd

variable {stop : Span} {first first' : Cursor}

theorem passedSpan_eq (hlacks : LacksEnd stop first first') (hrest : first.rest = []) :
    first.passedSpan = stop := by
  have hlast := hlacks.last_eq
  rw [last?, hrest, List.getLast?_nil, Option.none_or] at hlast
  rw [passedSpan, hlast, Option.getD_some]

theorem next_eq (hlacks : LacksEnd stop first first') :
    first.next?.getD .endOfInput = first'.next?.getD .endOfInput := by
  rcases hlacks.tokens_eq with ⟨-, hrest⟩ | ⟨hrest, hrest', -⟩
  · rw [next?, next?, hrest]
    cases first.rest <;> rfl
  · rw [next?, next?, hrest, hrest']

theorem place_eq (hlacks : LacksEnd stop first first') : first.place = first'.place := by
  cases hfirst : first.rest with
  | nil =>
    have hstop : first.place = stop := by rw [place, hfirst, hlacks.passedSpan_eq hfirst]
    rcases hlacks.tokens_eq with ⟨-, hrest⟩ | ⟨-, hrest, hpassed⟩
    · rw [hstop, place, hrest, hfirst, List.nil_append]
    · rw [hstop, place, hrest, hpassed]
  | cons token rest =>
    rcases hlacks.tokens_eq with ⟨-, hrest⟩ | ⟨hnil, -, -⟩
    · rw [place, place, hrest, hfirst, List.cons_append]
    · cases hfirst.symm.trans hnil

theorem report (hlacks : LacksEnd stop first first') {error error' : SyntaxError}
    (herror : error.shown = error'.shown) : LacksEnd stop (first.report error)
      (first'.report error') := by
  refine { hlacks with shown_eq := ?_ }
  simp only [Cursor.report, List.map_append, List.map_singleton, hlacks.shown_eq, herror]

/-- Passing the next token, or behind all others the end of the input. -/
theorem advance (hlacks : LacksEnd stop first first') :
    LacksEnd stop first.advance first'.advance := by
  have hlast := (congrArg (Option.map Token.span) first.last?_advance).trans hlacks.last_eq
  obtain ⟨passed, rest, reported, depth⟩ := first
  obtain ⟨passed', rest', reported', depth'⟩ := first'
  obtain ⟨hdepth, hshown, -, hkind, ⟨rfl, rfl⟩ | ⟨rfl, rfl, hstop⟩⟩ := hlacks
  · cases rest with
    | nil => exact ⟨hdepth, hshown, hlast, hkind, .inr ⟨rfl, rfl, rfl⟩⟩
    | cons token rest =>
      exact ⟨hdepth, hshown, hlast, fun other hother ↦ hkind other (List.mem_cons_of_mem _ hother),
        .inl ⟨rfl, rfl⟩⟩
  · exact ⟨hdepth, hshown, hlast, hkind, .inr ⟨rfl, rfl, hstop⟩⟩

theorem resynchronize (hlacks : LacksEnd stop first first') :
    LacksEnd stop first.resynchronize first'.resynchronize := by
  have hpassed := hlacks.advance
  refine ⟨hpassed.depth_eq, hpassed.shown_eq, ?_, ?_, ?_⟩
  · rw [first.last?_resynchronize, hlacks.last_eq]
  · exact fun token hmem ↦ hlacks.kind_ne token (first.suffix_resynchronize.mem hmem)
  rcases hpassed.tokens_eq with ⟨heq, hrest⟩ | ⟨hrest, hrest', hstop⟩
  · refine .inl ?_
    rw [Cursor.resynchronize, Cursor.resynchronize, ← heq, hrest,
      skipStatement_append_end _ hpassed.kind_ne]
    exact ⟨rfl, rfl⟩
  · refine .inr ?_
    rw [Cursor.resynchronize, Cursor.resynchronize, hrest, hrest']
    exact ⟨rfl, rfl, hstop⟩

end LacksEnd

end Cursor

/-! ### Reading them side by side -/

namespace Likeness

/-- The same trees are read, and errors that look the same are found. -/
def lacksEnd (stop : Span) : Likeness where
  cursors := Cursor.LacksEnd stop
  spans := Eq
  causes cause cause' := ∀ span,
    SyntaxError.shown ⟨cause, span⟩ = SyntaxError.shown ⟨cause', span⟩
  expressions := Eq
  statements := Eq

variable {stop : Span}

theorem lacksEnd_heldBySteps : (lacksEnd stop).HeldBySteps where
  congruent := .of_eq
  next_eq hcursors := hcursors.next_eq
  depth_eq hcursors := hcursors.depth_eq
  place hcursors := hcursors.place_eq
  cause _ _ := rfl
  unexpected kind hcursors := SyntaxError.shown_unexpectedToken kind hcursors.next_eq
  advance hcursors := hcursors.advance
  report hcursors herrors := hcursors.report ((herrors.causes _).trans (by rw [herrors.spans]))
  resynchronize hcursors := hcursors.resynchronize
  within _ hcursors := { hcursors with depth_eq := rfl }

end Likeness

/-- A list of tokens without one for the end of the input is read as with one at the place of the
last token: as the same program, or with errors that look the same, in the same order. -/
theorem ofTokens_eq_with_end {tokens : List Token} (hne : tokens ≠ [])
    (htokens : ∀ token ∈ tokens, token.kind ≠ .endOfInput) :
    (Program.ofTokens tokens).mapError (List.map SyntaxError.shown) =
      (Program.ofTokens (tokens ++ [⟨.endOfInput, (tokens.getLast hne).span⟩])).mapError
        (List.map SyntaxError.shown) := by
  have hstart : (Cursor.start tokens).LacksEnd (tokens.getLast hne).span
      (.start (tokens ++ [⟨.endOfInput, (tokens.getLast hne).span⟩])) := by
    refine ⟨rfl, rfl, ?_, htokens, .inl ⟨rfl, rfl⟩⟩
    rw [Cursor.last?, Cursor.start, List.getLast?_eq_some_getLast hne]
    rfl
  obtain ⟨program, program', last, last', hrun, hrun', hcursors, hprograms⟩ :=
    Likeness.lacksEnd_heldBySteps.ofStart hstart
  rw [show (Likeness.lacksEnd _).statements = Eq from rfl, List.forall₂_eq_eq_eq] at hprograms
  subst hprograms
  have hshown := hcursors.shown_eq
  have hempty : last.reported.isEmpty = last'.reported.isEmpty := by
    rw [← List.isEmpty_map, hshown, List.isEmpty_map]
  rw [Program.ofTokens, Program.ofTokens, hrun, hrun']
  simp only [hempty]
  split
  · rfl
  · exact congrArg Except.error hshown

/-- A block that is still open behind the last token: the second error comes behind all tokens. -/
theorem open_block_without_end :
    let tokens : List Token := [⟨.symbol .leftBrace, 0, 1⟩, ⟨.keyword .print, 2, 7⟩]
    tokens ≠ [] ∧ (∀ token ∈ tokens, token.kind ≠ .endOfInput) ∧
      Program.ofTokens tokens = .error [⟨.missingExpression, 2, 7⟩,
        ⟨.unexpectedToken (.symbol .rightBrace) none, 2, 7⟩] ∧
      (Program.ofTokens tokens).mapError (List.map SyntaxError.shown) =
        (Program.ofTokens (tokens ++ [⟨.endOfInput, 2, 7⟩])).mapError
          (List.map SyntaxError.shown) := by
  intro tokens
  have hne : tokens ≠ [] := by simp [tokens]
  have hkinds : ∀ token ∈ tokens, token.kind ≠ .endOfInput := by simp [tokens]
  exact ⟨hne, hkinds, rfl, ofTokens_eq_with_end hne hkinds⟩

end Lox
