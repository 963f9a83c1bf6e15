import Lox.Parsing.Cursor
import Mathlib.Logic.Function.Iterate

/-!
# Single steps of a cursor

What `Cursor.advance` and `Cursor.resynchronize` do to the tokens still to come, to the one passed
last and to the errors. Resynchronization passes tokens one by one
(`Cursor.exists_resynchronize_eq`), and at least one if there is one
(`Cursor.length_resynchronize_lt`). Behind the first of these it skips neither the end of the input
nor a closing brace (`Cursor.exists_skipStatement_eq`, `Cursor.count_skipStatement`).
-/

set_option autoImplicit false
set_option relaxedAutoImplicit false

namespace Lox

namespace Cursor

theorem suffix_advance (cursor : Cursor) : cursor.advance.rest <:+ cursor.rest := by
  rw [advance]
  split
  · next token rest hrest =>
    rw [hrest]
    exact List.suffix_cons _ _
  · exact List.suffix_refl _

theorem reported_advance (cursor : Cursor) : cursor.advance.reported = cursor.reported := by
  rw [advance]
  split <;> rfl

theorem passedSpan_advance {cursor : Cursor} {kind : TokenKind}
    (hkind : cursor.next? = some kind) : cursor.advance.passedSpan = cursor.place := by
  obtain ⟨passed, rest, reported, depth⟩ := cursor
  cases rest with
  | nil => cases hkind
  | cons token rest => rfl

theorem length_rest_advance {cursor : Cursor} {kind : TokenKind}
    (hkind : cursor.next? = some kind) :
    cursor.rest.length = cursor.advance.rest.length + 1 := by
  obtain ⟨passed, rest, reported, depth⟩ := cursor
  cases rest with
  | nil => cases hkind
  | cons token rest => rfl

theorem ne_nil_of_isAtEnd_eq {cursor : Cursor} (hend : cursor.isAtEnd = false) :
    cursor.rest ≠ [] := by
  intro hrest
  simp [isAtEnd, next?, hrest] at hend

theorem skipStatement_suffix (passed : Option Token) (rest : List Token) :
    (skipStatement passed rest).2 <:+ rest := by
  induction rest generalizing passed with
  | nil => exact List.suffix_refl _
  | cons token rest ih =>
    unfold skipStatement
    split
    · exact List.suffix_refl _
    · exact (ih (some token)).trans (List.suffix_cons token rest)

/-- The end of the input is not skipped. -/
theorem exists_skipStatement_eq (passed : Option Token) (between : List Token) (stop : Span) :
    ∃ skipped kept, between = skipped ++ kept ∧
      (skipStatement passed (between ++ [⟨.endOfInput, stop⟩])).2
        = kept ++ [⟨.endOfInput, stop⟩] := by
  induction between generalizing passed with
  | nil => exact ⟨[], [], rfl, rfl⟩
  | cons token between ih =>
    rw [List.cons_append, skipStatement]
    split
    · exact ⟨[], token :: between, rfl, rfl⟩
    · obtain ⟨skipped, kept, rfl, hkept⟩ := ih (some token)
      exact ⟨token :: skipped, kept, rfl, hkept⟩

/-- No closing brace is skipped. -/
theorem count_skipStatement (passed : Option Token) (rest : List Token) :
    ((skipStatement passed rest).2.map Token.kind).count (.symbol .rightBrace)
      = (rest.map Token.kind).count (.symbol .rightBrace) := by
  induction rest generalizing passed with
  | nil => rfl
  | cons token rest ih =>
    unfold skipStatement
    split
    · rfl
    · next hnot =>
      have hkind : token.kind ≠ .symbol .rightBrace := by
        intro hkind
        simp [hkind, isBoundary] at hnot
      rw [ih, List.map_cons, List.count_cons_of_ne hkind]

/-! ### Resynchronization -/

/-- Resynchronization passes tokens one by one. -/
theorem exists_resynchronize_eq (cursor : Cursor) :
    ∃ count, cursor.resynchronize = Cursor.advance^[count] cursor := by
  have hskip (passed : Option Token) (rest : List Token) : ∀ cursor : Cursor,
      cursor.passed = passed → cursor.rest = rest →
        ∃ count, ({ cursor with
          passed := (skipStatement passed rest).1, rest := (skipStatement passed rest).2 } : Cursor)
          = Cursor.advance^[count] cursor := by
    induction rest generalizing passed with
    | nil =>
      rintro cursor rfl hrest
      exact ⟨0, by rw [skipStatement, ← hrest]; rfl⟩
    | cons token rest ih =>
      rintro cursor rfl hrest
      rw [skipStatement]
      split
      · exact ⟨0, by rw [← hrest]; rfl⟩
      · obtain ⟨count, hcount⟩ := ih (some token) cursor.advance
          (by rw [advance, hrest]) (by rw [advance, hrest])
        refine ⟨count + 1, ?_⟩
        rw [Function.iterate_succ_apply, ← hcount, advance, hrest]
  obtain ⟨count, hcount⟩ := hskip _ _ cursor.advance rfl rfl
  exact ⟨count + 1, hcount⟩

/-- What holds of a cursor and is kept when a token is passed holds behind resynchronization. -/
theorem resynchronize_induction {motive : Cursor → Prop} {cursor : Cursor} (hcursor : motive cursor)
    (hadvance : ∀ reached, motive reached → motive reached.advance) :
    motive cursor.resynchronize := by
  obtain ⟨count, hcount⟩ := cursor.exists_resynchronize_eq
  rw [hcount]
  exact Function.Iterate.rec motive hcursor hadvance count

theorem suffix_resynchronize (cursor : Cursor) : cursor.resynchronize.rest <:+ cursor.rest :=
  (skipStatement_suffix _ _).trans cursor.suffix_advance

/-- Resynchronization passes a token if there is one. -/
theorem length_resynchronize_lt {first last : Cursor} (hsuffix : last.rest <:+ first.rest)
    (hne : first.rest ≠ []) : last.resynchronize.rest.length < first.rest.length := by
  have hle := hsuffix.length_le
  cases hnext : last.next? with
  | none =>
    have hnil : last.rest = [] := by simpa [next?] using hnext
    have hlast := last.suffix_resynchronize.length_le
    have hpos := List.length_pos_iff.mpr hne
    rw [hnil, List.length_nil] at hlast
    omega
  | some kind =>
    have hskip : last.resynchronize.rest.length ≤ last.advance.rest.length :=
      (skipStatement_suffix last.advance.passed last.advance.rest).length_le
    have hlength := length_rest_advance hnext
    omega

end Cursor

end Lox
