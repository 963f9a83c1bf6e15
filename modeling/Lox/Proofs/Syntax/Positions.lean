import Lox.Proofs.Syntax.ErrorCharge
import Lox.Proofs.Syntax.Resumption

/-!
# Positions in a list of tokens

A cursor over a list of tokens stands behind a number of them, its position (`Cursor.At`). Passing a
token moves the position forward by one, except behind the last token, and the token passed last is
the one before the position. So reading never looks for a token that is not there, and the position
never decreases, whatever is read and however that ends (`Cursor.heldByReading_forward`).

A turn of a list of statements always moves forward, for a statement that is read takes a token, and
the recovery from a failure drops one (`Cursor.At.turn`). Every list of tokens is therefore read to
an end, and `reading_advances` puts this together with the number of the errors.
-/

set_option autoImplicit false
set_option relaxedAutoImplicit false

namespace Lox

namespace Cursor

/-- A cursor behind so many of the tokens, the last of which it has passed last. -/
structure At (tokens : List Token) (position : Nat) (cursor : Cursor) : Prop where
  le_length : position ≤ tokens.length
  rest_eq : cursor.rest = tokens.drop position
  passed_eq : cursor.passed = (tokens.take position).getLast?

theorem at_start (tokens : List Token) : (start tokens).At tokens 0 where
  le_length := Nat.zero_le _
  rest_eq := List.drop_zero.symm
  passed_eq := rfl

namespace At

variable {tokens : List Token} {position : Nat} {cursor : Cursor}

theorem length_rest (hcursor : cursor.At tokens position) :
    cursor.rest.length = tokens.length - position := by
  rw [hcursor.rest_eq, List.length_drop]

/-- The token passed last is the one before the position. -/
theorem exists_passed (hcursor : cursor.At tokens position) (hpos : 0 < position) :
    ∃ token, tokens[position - 1]? = some token ∧ cursor.passed = some token := by
  have hlt : position - 1 < tokens.length := by
    have := hcursor.le_length
    omega
  refine ⟨tokens[position - 1], List.getElem?_eq_getElem hlt, ?_⟩
  rw [hcursor.passed_eq, List.getLast?_take, if_neg (Nat.ne_of_gt hpos),
    List.getElem?_eq_getElem hlt, Option.some_or]

theorem advance (hcursor : cursor.At tokens position) :
    cursor.advance.At tokens (min (position + 1) tokens.length) := by
  have hle := hcursor.le_length
  obtain ⟨passed, rest, reported, depth⟩ := cursor
  obtain ⟨-, (rfl : rest = tokens.drop position), (rfl : passed = _)⟩ := hcursor
  by_cases hlt : position < tokens.length
  · have hrest := List.drop_eq_getElem_cons hlt
    rw [Nat.min_eq_left hlt]
    refine ⟨hlt, ?_, ?_⟩
    · simp only [Cursor.advance, hrest]
    · simp only [Cursor.advance, hrest]
      rw [List.getLast?_take, if_neg (Nat.succ_ne_zero _), Nat.succ_sub_one,
        List.getElem?_eq_getElem hlt, Option.some_or]
  · obtain rfl : position = tokens.length := Nat.le_antisymm hle (Nat.not_lt.mp hlt)
    rw [Nat.min_eq_right (Nat.le_succ _)]
    refine ⟨Nat.le_refl _, ?_, ?_⟩ <;> simp only [Cursor.advance, List.drop_length]

/-- What passing a token comes to is the token at the position, or the last one behind it. -/
theorem exists_passed_advance (hcursor : cursor.At tokens position) (hne : tokens ≠ []) :
    ∃ token, tokens[min position (tokens.length - 1)]? = some token ∧
      cursor.advance.passed = some token := by
  have hle := hcursor.le_length
  have hlength := List.length_pos_iff.mpr hne
  have hpassed := hcursor.advance.exists_passed (by omega)
  rwa [show min (position + 1) tokens.length - 1 = min position (tokens.length - 1) by omega]
    at hpassed

end At

/-- Where the one cursor is at a position, the other one is there too or further on. -/
def Forward (tokens : List Token) (before after : Cursor) : Prop :=
  ∀ position, before.At tokens position → ∃ later, position ≤ later ∧ after.At tokens later

variable {tokens : List Token}

instance : IsPreorder Cursor (Forward tokens) where
  refl _ position hcursor := ⟨position, Nat.le_refl _, hcursor⟩
  trans _ _ _ hfirst hsecond position hcursor := by
    obtain ⟨middle, hmiddle, hat⟩ := hfirst position hcursor
    obtain ⟨last, hlast, hat⟩ := hsecond middle hat
    exact ⟨last, Nat.le_trans hmiddle hlast, hat⟩

theorem forward_advance (cursor : Cursor) : cursor.Forward tokens cursor.advance :=
  fun _ hcursor ↦ ⟨_, Nat.le_min.mpr ⟨Nat.le_succ _, hcursor.le_length⟩, hcursor.advance⟩

/-- The position never decreases. -/
theorem heldByReading_forward : HeldByReading (Forward tokens) where
  advance := forward_advance
  report _ _ position hcursor := ⟨position, Nat.le_refl _, { hcursor with }⟩
  resynchronize cursor :=
    resynchronize_induction (motive := Forward tokens cursor) (refl_of (Forward tokens) cursor)
      fun reached hreached ↦ trans_of (Forward tokens) hreached reached.forward_advance
  insideFunction body hbody before after hafter position hcursor := by
    obtain ⟨inner, hinner, rfl⟩ := Bounded.state?_run_within hafter
    obtain ⟨later, hlater, hat⟩ := hbody _ _ hinner position { hcursor with }
    exact ⟨later, hlater, { hat with }⟩

end Cursor

namespace Parse

/-- A turn passes a token, unless nothing is left before it. It is what a turn pays at a price of
nothing, where only the tokens are counted. -/
theorem length_rest_turn {limit : Nat} {first last : Cursor} {found : Option Stmt}
    (hne : first.rest ≠ []) (hrun : (turn (statement limit .inList)).run first = .done found last) :
    last.rest.length < first.rest.length := by
  have hremains := Cursor.heldByReading_remains.statement limit .inList first
  have hpays := Pays.statement (Nat.zero_le 1) limit .inList first
  unfold PaysFrom at hpays
  rw [run_turn] at hrun
  cases hread : (statement limit .inList).run first with
  | done value reached =>
    rw [hread] at hpays hrun
    obtain ⟨-, rfl⟩ := Outcome.done.inj hrun
    simp only [Cursor.worth, Nat.zero_mul, Nat.zero_add, Nat.add_zero] at hpays
    exact hpays
  | failed error reached =>
    rw [hread] at hrun
    obtain ⟨-, rfl⟩ := Outcome.done.inj hrun
    have hsuffix : (reached.report error).rest <:+ first.rest :=
      hremains reached (by rw [hread]; rfl)
    exact Cursor.length_resynchronize_lt hsuffix hne
  | exhausted =>
    rw [hread] at hrun
    cases hrun

theorem keeps_turn {related : Cursor → Cursor → Prop} [IsPreorder Cursor related]
    (h : HeldByReading related) {statement : Parse Stmt} (hstatement : statement.Keeps related) :
    (turn statement).Keeps related := by
  refine .bind hstatement.attempt fun result ↦ ?_
  cases result with
  | ok found => exact .pure _
  | error error =>
    exact .bind (.modify (h.report error)) fun _ ↦ .bind (.modify h.resynchronize) fun _ ↦ .pure _

/-- A list of statements outside of blocks is read up to the end of the tokens. -/
theorem isAtEnd_of_run_statements {statement : Parse Stmt} {bound : Nat} {first last : Cursor}
    {found : List Stmt} (hrun : (statements false statement bound).run first = .done found last) :
    last.isAtEnd = true := by
  induction bound generalizing first found with
  | zero => cases hrun
  | succ bound ih =>
    rw [statements_succ] at hrun
    obtain ⟨stop, middle, hstop, hrun⟩ := Bounded.run_bind_eq_done.mp hrun
    obtain ⟨rfl, rfl⟩ := Outcome.done.inj hstop
    split at hrun
    next hend =>
      obtain ⟨-, rfl⟩ := Outcome.done.inj hrun
      simpa using hend
    next =>
      obtain ⟨first, middle, -, hrun⟩ := Bounded.run_bind_eq_done.mp hrun
      obtain ⟨others, reached, hothers, hrun⟩ := Bounded.run_bind_eq_done.mp hrun
      obtain ⟨-, rfl⟩ := Outcome.done.inj hrun
      exact ih hothers

end Parse

/-- A turn of a list of statements moves the position forward. -/
theorem Cursor.At.turn {tokens : List Token} {position limit : Nat} {first last : Cursor}
    {found : Option Stmt} (hfirst : first.At tokens position) (hend : first.isAtEnd = false)
    (hrun : (Parse.turn (Parse.statement limit .inList)).run first = .done found last) :
    ∃ later, position < later ∧ last.At tokens later := by
  have hforward : HeldByReading (Forward tokens) := heldByReading_forward
  have hkeeps := Parse.keeps_turn hforward (hforward.statement limit .inList)
  obtain ⟨later, hle, hlast⟩ := hkeeps first last (by rw [hrun]; rfl) position hfirst
  refine ⟨later, ?_, hlast⟩
  have hlt := Parse.length_rest_turn (ne_nil_of_isAtEnd_eq hend) hrun
  rw [hfirst.length_rest, hlast.length_rest] at hlt
  omega

/-! ### Whole lists of tokens -/

/-- What holds of the reading of a list of tokens. -/
structure Program.Advances (tokens : List Token) : Prop where
  /-- Reading comes to an end of the tokens, and a larger bound changes nothing. -/
  ends : ∃ program last position, last.At tokens position ∧ last.isAtEnd = true ∧
    ∀ bound, tokens.length < bound → (parse bound).run (.start tokens) = .done program last
  /-- There is one error more than tokens at most. -/
  length_le : ∀ errors, ofTokens tokens = .error errors → errors.length ≤ tokens.length + 1
  /-- Passing a token comes to one that is there, the last one if none is left. -/
  access : tokens ≠ [] → ∀ (position : Nat) (cursor : Cursor), cursor.At tokens position →
    ∃ token, tokens[min position (tokens.length - 1)]? = some token ∧
      cursor.advance.passed = some token
  /-- If there is no token, none is passed, whatever would be read as a statement. -/
  empty : tokens = [] → ∀ statement bound,
    (Parse.statements false statement (bound + 1)).run (.start tokens) = .done [] (.start tokens)
  /-- The token before a position, which resynchronization looks at, is there. -/
  lookBack : ∀ (position : Nat) (cursor : Cursor), cursor.At tokens position → 0 < position →
    ∃ token, tokens[position - 1]? = some token ∧ cursor.passed = some token
  /-- The position is at most the number of tokens. Passing a token moves it by one, as long as it
  is less. -/
  advance : ∀ (position : Nat) (cursor : Cursor), cursor.At tokens position →
    position ≤ tokens.length ∧ cursor.advance.At tokens (min (position + 1) tokens.length)
  /-- Resynchronization passes tokens one by one. -/
  resynchronize : ∀ cursor : Cursor, ∃ count, cursor.resynchronize = Cursor.advance^[count] cursor
  /-- Reading starts at the first position, and no step of it goes back. -/
  steps : (Cursor.start tokens).At tokens 0 ∧ HeldByReading (Cursor.Forward tokens)
  /-- Nothing that is read goes back, whether it is done or fails. -/
  forward : ∀ limit, (Parse.expression limit).Keeps (Cursor.Forward tokens) ∧
    (∀ place, (Parse.statement limit place).Keeps (Cursor.Forward tokens)) ∧
    ∀ inBlock bound, (Parse.statements inBlock (Parse.statement limit .inList) bound).Keeps
      (Cursor.Forward tokens)
  /-- A list of statements ends, or it goes on behind a turn that moves the position forward. -/
  turns : ∀ (inBlock : Bool) (limit bound position : Nat) (first : Cursor),
    first.At tokens position →
    let statement := Parse.statement limit .inList
    if first.isAtEnd || inBlock && first.isAt (.symbol .rightBrace) then
      (Parse.statements inBlock statement (bound + 1)).run first = .done [] first
    else
      (Parse.statements inBlock statement (bound + 1)).run first
        = (do
          let found ← Parse.turn statement
          let others ← Parse.statements inBlock statement bound
          pure (found.toList ++ others)).run first ∧
      ∀ found last, (Parse.turn statement).run first = .done found last →
        ∃ later, position < later ∧ last.At tokens later

/-- An account of the errors in a list of tokens: as many as tokens, and one at the end. -/
theorem Program.length_le_of_ofTokens {tokens : List Token} {errors : List SyntaxError}
    (herrors : ofTokens tokens = .error errors) : errors.length ≤ tokens.length + 1 := by
  obtain ⟨program, last, hrun⟩ := exists_run_parse tokens
  have hpays := Parse.Pays.program (Nat.le_refl 1) (sufficientBound tokens.length) (.start tokens)
  have hreported : last.reported = errors := by
    rw [← errorsOf_eq hrun, errorsOf, herrors]
  unfold Parse.PaysFrom at hpays
  rw [hrun] at hpays
  simp only [Cursor.worth, Cursor.start, hreported, List.length_nil] at hpays
  omega

/-- Every list of tokens is read to an end without looking for a token that is not there. The
position never decreases, every turn of a list of statements moves it forward, and there is one
error more than tokens at most. -/
theorem reading_advances (tokens : List Token) : Program.Advances tokens where
  ends := by
    obtain ⟨program, last, hrun⟩ := Program.exists_forall_run_parse tokens
    have hdone := hrun (tokens.length + 1) (Nat.lt_succ_self _)
    have hforward : HeldByReading (Cursor.Forward tokens) := Cursor.heldByReading_forward
    have hstate : ((Program.parse (tokens.length + 1)).run (.start tokens)).state? = some last := by
      rw [hdone]
      rfl
    obtain ⟨position, -, hlast⟩ :=
      hforward.program (tokens.length + 1) _ last hstate 0 (Cursor.at_start tokens)
    exact ⟨program, last, position, hlast, Parse.isAtEnd_of_run_statements hdone, hrun⟩
  length_le _ := Program.length_le_of_ofTokens
  access hne _ _ hcursor := hcursor.exists_passed_advance hne
  empty hempty statement bound := by
    subst hempty
    rfl
  lookBack _ _ hcursor := hcursor.exists_passed
  advance _ _ hcursor := ⟨hcursor.le_length, hcursor.advance⟩
  resynchronize := Cursor.exists_resynchronize_eq
  steps := ⟨Cursor.at_start tokens, Cursor.heldByReading_forward⟩
  forward limit := by
    have hforward : HeldByReading (Cursor.Forward tokens) := Cursor.heldByReading_forward
    exact ⟨hforward.expression limit, hforward.statement limit, fun inBlock bound ↦
      hforward.statements inBlock (hforward.statement limit .inList) bound⟩
  turns inBlock limit bound position first hfirst := by
    intro statement
    have hrun : (Parse.statements inBlock statement (bound + 1)).run first = _ :=
      congrArg (Bounded.run · first) (Parse.statements_succ inBlock statement bound)
    split
    next hstop =>
      rw [hrun, Bounded.run_bind, Bounded.run_gets]
      simp only [hstop, if_true, Bounded.run_pure]
    next hstop =>
      refine ⟨?_, fun found last ↦ hfirst.turn ?_⟩
      · rw [hrun, Bounded.run_bind, Bounded.run_gets]
        simp only [hstop]
        rfl
      · rw [Bool.not_eq_true, Bool.or_eq_false_iff] at hstop
        exact hstop.1

/-- A `return` alone has one error more than tokens. -/
example : Program.ofTokens [⟨.keyword .return, 0, 6⟩]
    = .error [⟨.returnOutsideFunction, 0, 6⟩, ⟨.missingExpression, 0, 6⟩] := rfl

end Lox
