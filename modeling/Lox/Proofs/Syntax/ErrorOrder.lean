import Lox.Proofs.Lexical.Faults
import Lox.Proofs.Syntax.ReadingInvariant

/-!
# The order of errors

The errors of a source text that is rejected come in the order of the text, apart from targets of
assignments: of two errors the one that comes first does not start behind the other one, unless the
other one is an invalid target (`errors_follow_each_other`). The scanner meets its errors from left
to right, and the parser reports an error at the next token or at the one passed last, behind
everything that has been reported before (`Cursor.InOrder`).

The target of an assignment is reported when the value has been read, so that it comes behind the
errors in the value. That is the only exception, and it occurs (`late_targets`).
-/

set_option autoImplicit false
set_option relaxedAutoImplicit false

namespace Lox

/-- An error that may come behind another one: it does not start before that one, or it is an
invalid target. -/
def SyntaxError.Precedes (first second : SyntaxError) : Prop :=
  first.span.start ≤ second.span.start ∨ second.cause = .invalidAssignmentTarget

/-- A scan meets its errors from left to right. -/
theorem Scan.errors_ordered (offset : Nat) (text : List Char) :
    (∀ error ∈ (ofText offset text).errors, offset ≤ error.span.start) ∧
      (ofText offset text).errors.Pairwise fun first second ↦
        first.span.start ≤ second.span.start := by
  refine ⟨(goesThrough_ofText offset text).le_start, ?_⟩
  rw [errors_eq_faults]
  refine (Region.pairwise_faults _ _ _).imp_of_mem fun hfirst _ hle ↦ ?_
  exact (Region.mem_faults_iff.mp hfirst).start_lt_stop.1.le.trans hle

/-- The tokens still to come are in order, and so are the errors that have been reported, of which
none starts behind the next token. -/
structure Cursor.InOrder (cursor : Cursor) : Prop where
  rest : cursor.rest.Pairwise fun first second ↦ first.span.start ≤ second.span.start
  reported : cursor.reported.Pairwise SyntaxError.Precedes
  behind : ∀ error ∈ cursor.reported, error.span.start ≤ cursor.place.start

namespace Cursor.InOrder

variable {cursor : Cursor}

theorem start_le_advance (hcursor : cursor.InOrder) :
    cursor.place.start ≤ cursor.advance.place.start := by
  obtain ⟨passed, rest, reported, depth⟩ := cursor
  cases rest with
  | nil => exact le_rfl
  | cons token rest =>
    cases rest with
    | nil => exact le_rfl
    | cons next rest => exact List.rel_of_pairwise_cons hcursor.rest List.mem_cons_self

theorem advance (hcursor : cursor.InOrder) : cursor.advance.InOrder where
  rest := by
    obtain ⟨passed, rest, reported, depth⟩ := cursor
    cases rest with
    | nil => exact .nil
    | cons token rest => exact hcursor.rest.of_cons
  reported := by
    rw [reported_advance]
    exact hcursor.reported
  behind error hmem := by
    rw [reported_advance] at hmem
    exact (hcursor.behind error hmem).trans hcursor.start_le_advance

theorem report (hcursor : cursor.InOrder) {error : SyntaxError}
    (hprecedes : ∀ other ∈ cursor.reported, other.Precedes error)
    (hbehind : error.span.start ≤ cursor.place.start) : (cursor.report error).InOrder where
  rest := hcursor.rest
  reported := by
    refine List.pairwise_append.mpr ⟨hcursor.reported, List.pairwise_singleton _ _, ?_⟩
    rintro other hother _ hmem
    obtain rfl := List.mem_singleton.mp hmem
    exact hprecedes other hother
  behind other hmem := by
    rcases List.mem_append.mp hmem with hmem | hmem
    · exact hcursor.behind other hmem
    · obtain rfl := List.mem_singleton.mp hmem
      exact hbehind

end Cursor.InOrder

/-- Errors and places in the order of the text. -/
def ReadingInvariant.inOrder : ReadingInvariant where
  valid := Cursor.InOrder
  reaches first last := first.place.start ≤ last.place.start
  spans first span last := first.place.start ≤ span.start ∧ span.start ≤ last.place.start

theorem ReadingInvariant.inOrder_heldBySteps : inOrder.HeldBySteps where
  refl _ := le_rfl
  trans := le_trans
  advance hcursor := ⟨hcursor.advance, hcursor.start_le_advance⟩
  token hcursor _ := ⟨le_rfl, hcursor.start_le_advance⟩
  extend hstart hspan hlast := ⟨hstart.trans hspan.1, hspan.2.trans hlast⟩
  join hbefore hafter := ⟨hbefore.1, hbefore.2.trans (hafter.1.trans hafter.2)⟩
  union hbefore hafter :=
    ⟨le_min hbefore.1 (hbefore.1.trans (hbefore.2.trans hafter.1)),
      (min_le_right _ _).trans hafter.2⟩
  reportHere _ hcursor :=
    ⟨hcursor.report (fun other hother ↦ .inl (hcursor.behind other hother)) le_rfl, le_rfl⟩
  reportTarget hcursor hspan := ⟨hcursor.report (fun _ _ ↦ .inr rfl) hspan.2, le_rfl⟩
  reportReturn {cursor} hcursor _ := by
    refine ⟨hcursor.advance.report (fun other hother ↦ .inl ?_) hcursor.start_le_advance, le_rfl⟩
    rw [cursor.reported_advance] at hother
    exact hcursor.behind other hother
  valid_depth _ hcursor := ⟨hcursor.rest, hcursor.reported, hcursor.behind⟩
  reaches_depth _ _ := id

/-! ### The errors of a source text -/

/-- Tokens stand behind one another, and the end of the input behind all of them. -/
theorem Token.starts_ordered {source : String} {tokens : List Token}
    (htokens : Token.ofSource source = .ok tokens) :
    tokens.Pairwise fun first second ↦ first.span.start ≤ second.span.start := by
  obtain ⟨lexemes, rfl, hstands, hordered⟩ := exists_lexemes_of_ofSource htokens
  refine List.pairwise_append.mpr ⟨?_, List.pairwise_singleton _ _, ?_⟩
  · refine hordered.imp_of_mem fun hfirst _ hstop ↦ ?_
    exact (hstands _ hfirst).start_lt_stop.le.trans hstop
  · rintro token hmem _ hlast
    obtain rfl := List.mem_singleton.mp hlast
    obtain ⟨before, text, after, rfl, hspan, -⟩ := hstands token hmem
    rw [hspan]
    simp only [String.utf8ByteSize_append]
    omega

/-- The errors of a source text that is rejected come in the order of the text, whether they are
found among its characters or among its tokens, except that the target of an assignment may come
behind errors in the value. -/
theorem errors_follow_each_other {source : String} {errors : List SyntaxError}
    (hrejected : Program.ofSource source = .error errors) :
    errors.Pairwise SyntaxError.Precedes := by
  cases htokens : Token.ofSource source with
  | error scanned =>
    obtain rfl : scanned = errors := by
      rw [Program.ofSource, htokens] at hrejected
      exact Except.error.inj hrejected
    rw [Token.ofSource] at htokens
    split at htokens
    · cases htokens
    · cases htokens
      exact (Scan.errors_ordered 0 source.toList).2.imp .inl
  | ok tokens =>
    have herrors : Program.ofTokens tokens = .error errors := by
      rw [Program.ofSource, htokens] at hrejected
      exact hrejected
    have hstart : (Cursor.start tokens).InOrder :=
      ⟨Token.starts_ordered htokens, .nil, fun _ hmem ↦ absurd hmem List.not_mem_nil⟩
    rcases ReadingInvariant.inOrder_heldBySteps.exists_of_ofTokens hstart herrors with
      rfl | ⟨last, hlast, rfl⟩
    · exact .nil
    · exact hlast.reported

/-- A `return` at the top and an invalid target behind it are reported in this order. -/
theorem return_before_target :
    let errors : List SyntaxError :=
      [⟨.returnOutsideFunction, 0, 6⟩, ⟨.invalidAssignmentTarget, 8, 11⟩]
    Program.ofSource "return; nil = nil;" = .error errors ∧
      errors.Pairwise SyntaxError.Precedes := by
  intro errors
  have hrejected : Program.ofSource "return; nil = nil;" = .error errors := by
    rw [Program.ofSource, show Token.ofSource "return; nil = nil;" =
      .ok [⟨.keyword .return, 0, 6⟩, ⟨.symbol .semicolon, 6, 7⟩, ⟨.keyword .nil, 8, 11⟩,
        ⟨.symbol .equal, 12, 13⟩, ⟨.keyword .nil, 14, 17⟩, ⟨.symbol .semicolon, 17, 18⟩,
        ⟨.endOfInput, 18, 18⟩] by decide +kernel]
    rfl
  exact ⟨hrejected, errors_follow_each_other hrejected⟩

/-- The target of an assignment is reported behind the one in its value, which it starts before. -/
theorem late_targets :
    let errors : List SyntaxError :=
      [⟨.invalidAssignmentTarget, 6, 9⟩, ⟨.invalidAssignmentTarget, 0, 3⟩]
    Program.ofSource "nil = nil = nil;" = .error errors ∧
      ¬ errors.Pairwise fun first second ↦ first.span.start ≤ second.span.start := by
  intro errors
  refine ⟨?_, by decide⟩
  rw [Program.ofSource, show Token.ofSource "nil = nil = nil;" =
    .ok [⟨.keyword .nil, 0, 3⟩, ⟨.symbol .equal, 4, 5⟩, ⟨.keyword .nil, 6, 9⟩,
      ⟨.symbol .equal, 10, 11⟩, ⟨.keyword .nil, 12, 15⟩, ⟨.symbol .semicolon, 15, 16⟩,
      ⟨.endOfInput, 16, 16⟩] by decide +kernel]
  rfl

end Lox
