import Lox.Diagnostic
import Lox.Proofs.Syntax.ErrorOrder
import Lox.Proofs.Syntax.Totality
import Mathlib.Order.MinMax

/-!
# The places of errors

Every error of a source text that is rejected stands on a piece of the text that is made of whole
characters, and so its diagnostic labels just this piece (`errors_stand_on_pieces`). It is empty at
the end of the text, which is where reading can fail behind the last token.

A range of bytes lies in a source text if both of its ends are boundaries of characters and the
first does not come behind the second (`Span.LiesIn`). The scanner reports errors on the characters
that it has not passed yet. The parser reports them at tokens, or on an expression that goes from
the start of one token to the end of another one, which stands behind the first because tokens are
in order (`ReadingInvariant.onText`).
-/

set_option autoImplicit false
set_option relaxedAutoImplicit false

namespace Lox

/-- A number of bytes that a source text can be cut behind without cutting a character. -/
def IsBoundary (source : String) (offset : Nat) : Prop :=
  ∃ before after : String, before ++ after = source ∧ before.utf8ByteSize = offset

theorem IsBoundary.le {source : String} {offset : Nat} (hoffset : IsBoundary source offset) :
    offset ≤ source.utf8ByteSize := by
  obtain ⟨before, after, rfl, rfl⟩ := hoffset
  rw [String.utf8ByteSize_append]
  exact Nat.le_add_right _ _

/-- A range of whole characters of a source text. -/
structure Span.LiesIn (source : String) (span : Span) : Prop where
  start : IsBoundary source span.start
  stop : IsBoundary source span.stop
  le : span.start ≤ span.stop

theorem Span.liesIn_append (before text after : String) :
    LiesIn (before ++ text ++ after)
      ⟨before.utf8ByteSize, before.utf8ByteSize + text.utf8ByteSize⟩ where
  start := ⟨before, text ++ after, String.append_assoc.symm, rfl⟩
  stop := ⟨before ++ text, after, rfl, String.utf8ByteSize_append⟩
  le := Nat.le_add_right _ _

/-- Between the two ends of such a range there is a piece of the text. The cut at its end is not
before the one at its start. -/
theorem Span.LiesIn.exists_piece {source : String} {span : Span} (hspan : span.LiesIn source) :
    ∃ before text after : String, before ++ text ++ after = source ∧
      span = ⟨before.utf8ByteSize, before.utf8ByteSize + text.utf8ByteSize⟩ := by
  obtain ⟨start, stop⟩ := span
  obtain ⟨⟨before, others, rfl, rfl⟩, ⟨whole, after, hsource, rfl⟩, hle⟩ := hspan
  have hlists := congrArg String.toList hsource
  rw [String.toList_append, String.toList_append] at hlists
  rcases List.append_eq_append_iff.mp hlists with ⟨text, hbefore, -⟩ | ⟨text, hwhole, hothers⟩
  · have hbytes := congrArg byteLength hbefore
    rw [byteLength_append, byteLength_toList, byteLength_toList] at hbytes
    obtain rfl : text = [] := by
      by_contra hne
      have := byteLength_pos hne
      simp only at hle
      omega
    rw [List.append_nil, String.toList_inj] at hbefore
    subst hbefore
    exact ⟨before, "", others, by rw [String.append_empty], by simp⟩
  · refine ⟨before, String.ofList text, after, ?_, ?_⟩
    · rw [← String.toList_inj]
      simp [hothers]
    · rw [← byteLength_toList whole, hwhole, byteLength_append, byteLength_toList,
        utf8ByteSize_ofList]

theorem Span.LiesIn.join {source : String} {first last : Span} (hfirst : first.LiesIn source)
    (hlast : last.LiesIn source) (hle : first.start ≤ last.stop) :
    LiesIn source ⟨first.start, last.stop⟩ :=
  ⟨hfirst.start, hlast.stop, hle⟩

theorem Span.LiesIn.union {source : String} {first last : Span} (hfirst : first.LiesIn source)
    (hlast : last.LiesIn source) : (first.union last).LiesIn source where
  start := by
    rw [Span.union]
    rcases min_choice first.start last.start with hmin | hmin <;> rw [hmin]
    · exact hfirst.start
    · exact hlast.start
  stop := by
    rw [Span.union]
    rcases max_choice first.stop last.stop with hmax | hmax <;> rw [hmax]
    · exact hfirst.stop
    · exact hlast.stop
  le := (min_le_left _ _).trans (hfirst.le.trans (le_max_left _ _))

/-- The start of the text is a range without characters. -/
theorem Span.liesIn_origin (source : String) : origin.LiesIn source :=
  have hstart : IsBoundary source 0 := ⟨"", source, String.empty_append, rfl⟩
  ⟨hstart, hstart, le_rfl⟩

theorem Token.StandsIn.liesIn {source : String} {token : Token} (hstands : token.StandsIn source) :
    token.span.LiesIn source := by
  obtain ⟨before, text, after, rfl, hspan, -⟩ := hstands
  rw [hspan]
  exact Span.liesIn_append before text after

theorem Span.liesIn_ofList (before text after : List Char) :
    LiesIn (String.ofList (before ++ text ++ after))
      ⟨byteLength before, byteLength before + byteLength text⟩ := by
  have hpiece := liesIn_append (.ofList before) (.ofList text) (.ofList after)
  rwa [utf8ByteSize_ofList, utf8ByteSize_ofList, ← String.ofList_append, ← String.ofList_append]
    at hpiece

/-- A scan reports errors on characters of the text. -/
theorem Scan.errors_lie (offset : Nat) (text : List Char) :
    ∀ passed : List Char, byteLength passed = offset → ∀ error ∈ (ofText offset text).errors,
      error.span.LiesIn (String.ofList (passed ++ text)) := by
  rintro passed rfl error herror
  rw [errors_eq_faults] at herror
  cases Region.mem_faults_iff.mp herror with
  | @stray before after character htext =>
    have hpiece := Span.liesIn_ofList (passed ++ before) [character] after
    rwa [List.append_assoc, List.append_assoc, List.singleton_append, ← htext, byteLength_append,
      byteLength_cons, byteLength_nil, Nat.add_zero] at hpiece
  | @openString before body htext =>
    have hpiece := Span.liesIn_ofList (passed ++ before) ('"' :: body) []
    rwa [List.append_nil, List.append_assoc, ← htext, byteLength_append, Nat.add_assoc,
      ← byteLength_append before, ← htext] at hpiece

/-! ### Errors of the parser -/

/-- Tokens in order that lie in a source text, as do the errors that have been reported. -/
structure Cursor.OnText (source : String) (cursor : Cursor) : Prop where
  inOrder : cursor.InOrder
  passed : ∀ token ∈ cursor.passed, token.span.LiesIn source
  rest : ∀ token ∈ cursor.rest, token.span.LiesIn source
  reported : ∀ error ∈ cursor.reported, error.span.LiesIn source

namespace Cursor.OnText

variable {source : String} {cursor : Cursor}

theorem place (hcursor : cursor.OnText source) : cursor.place.LiesIn source := by
  obtain ⟨passed, rest, reported, depth⟩ := cursor
  cases rest with
  | cons token rest => exact hcursor.rest token List.mem_cons_self
  | nil =>
    cases passed with
    | some token => exact hcursor.passed token rfl
    | none => exact Span.liesIn_origin source

theorem advance (hcursor : cursor.OnText source) : cursor.advance.OnText source := by
  have horder := hcursor.inOrder.advance
  obtain ⟨passed, rest, reported, depth⟩ := cursor
  cases rest with
  | nil => exact hcursor
  | cons token rest =>
    obtain ⟨htoken, hrest⟩ := List.forall_mem_cons.mp hcursor.rest
    exact ⟨horder, by rintro _ ⟨⟩; exact htoken, hrest, hcursor.reported⟩

/-- An error is reported where it lies in the text and the order is kept. -/
theorem report (hcursor : cursor.OnText source) {error : SyntaxError}
    (horder : (cursor.report error).InOrder) (herror : error.span.LiesIn source) :
    (cursor.report error).OnText source where
  inOrder := horder
  passed := hcursor.passed
  rest := hcursor.rest
  reported := List.forall_mem_append.mpr
    ⟨hcursor.reported, fun _ hmem ↦ (List.mem_singleton.mp hmem).symm ▸ herror⟩

end Cursor.OnText

namespace ReadingInvariant

/-- Errors and places that lie in a source text. -/
def onText (source : String) : ReadingInvariant where
  valid := Cursor.OnText source
  reaches := inOrder.reaches
  spans first span last := inOrder.spans first span last ∧ span.LiesIn source

theorem onText_heldBySteps (source : String) : (onText source).HeldBySteps where
  refl hcursor := inOrder_heldBySteps.refl hcursor.inOrder
  trans := inOrder_heldBySteps.trans
  advance hcursor := ⟨hcursor.advance, (inOrder_heldBySteps.advance hcursor.inOrder).2⟩
  token hcursor hkind := ⟨inOrder_heldBySteps.token hcursor.inOrder hkind, hcursor.place⟩
  extend hstart hspan hlast := ⟨inOrder_heldBySteps.extend hstart hspan.1 hlast, hspan.2⟩
  join hbefore hafter := by
    have hle := (hbefore.1.2.trans hafter.1.1).trans hafter.2.le
    exact ⟨inOrder_heldBySteps.join hbefore.1 hafter.1, hbefore.2.join hafter.2 hle⟩
  union hbefore hafter :=
    ⟨inOrder_heldBySteps.union hbefore.1 hafter.1, hbefore.2.union hafter.2⟩
  reportHere hcause hcursor :=
    have hreport := inOrder_heldBySteps.reportHere hcause hcursor.inOrder
    ⟨hcursor.report hreport.1 hcursor.place, hreport.2⟩
  reportTarget hcursor hspan :=
    have hreport := inOrder_heldBySteps.reportTarget hcursor.inOrder hspan.1
    ⟨hcursor.report hreport.1 hspan.2, hreport.2⟩
  reportReturn hcursor hkind :=
    have hreport := inOrder_heldBySteps.reportReturn hcursor.inOrder hkind
    ⟨hcursor.advance.report hreport.1 hcursor.place, hreport.2⟩
  valid_depth depth hcursor :=
    { hcursor with inOrder := inOrder_heldBySteps.valid_depth depth hcursor.inOrder }
  reaches_depth := inOrder_heldBySteps.reaches_depth

end ReadingInvariant

/-! ### The errors of a source text -/

theorem SyntaxCause.label_ne_empty (cause : SyntaxCause) : cause.label ≠ "" := by
  have happend {text : String} (others : String) (htext : text ≠ "") : text ++ others ≠ "" :=
    fun hempty ↦ htext (String.append_eq_empty_iff.mp hempty).1
  cases cause <;> rw [label]
  case unexpectedToken => exact happend _ (by decide)
  case tooManyParameters => exact happend _ (by decide)
  case tooManyArguments => exact happend _ (by decide)
  all_goals decide

/-- The tokens of a source text lie in it, the end of the input behind its last character. -/
theorem Cursor.onText_start {source : String} {tokens : List Token}
    (htokens : Token.ofSource source = .ok tokens) : (start tokens).OnText source where
  inOrder := ⟨Token.starts_ordered htokens, .nil, fun _ hmem ↦ absurd hmem List.not_mem_nil⟩
  passed := by rintro _ ⟨⟩
  rest token hmem := by
    obtain ⟨lexemes, rfl, hstands, -⟩ := exists_lexemes_of_ofSource htokens
    rcases List.mem_append.mp hmem with hmem | hmem
    · exact (hstands token hmem).liesIn
    · obtain rfl := List.mem_singleton.mp hmem
      have hend := Span.liesIn_append source "" ""
      rwa [String.append_empty, String.append_empty] at hend
  reported := fun _ hmem ↦ absurd hmem List.not_mem_nil

/-- A source text is rejected with the errors of its characters or with those of its tokens, and in
both cases there is one. -/
theorem Program.errors_of_ofSource {source : String} {errors : List SyntaxError}
    (hrejected : ofSource source = .error errors) :
    errors ≠ [] ∧ ∀ error ∈ errors, error.span.LiesIn source := by
  rw [ofSource] at hrejected
  cases htokens : Token.ofSource source with
  | error scanned =>
    rw [htokens] at hrejected
    obtain rfl : scanned = errors := Except.error.inj hrejected
    rw [Token.ofSource] at htokens
    split at htokens
    · cases htokens
    next hsome =>
      obtain rfl := Except.error.inj htokens
      refine ⟨by simpa using hsome, fun error hmem ↦ ?_⟩
      have hlies := Scan.errors_lie 0 source.toList [] rfl error hmem
      rwa [List.nil_append, String.ofList_toList] at hlies
  | ok tokens =>
    have herrors : ofTokens tokens = .error errors := by
      rwa [htokens] at hrejected
    refine ⟨ne_nil_of_ofTokens herrors, ?_⟩
    rcases (ReadingInvariant.onText_heldBySteps source).exists_of_ofTokens
      (Cursor.onText_start htokens) herrors with rfl | ⟨last, hlast, rfl⟩
    · exact fun _ hmem ↦ absurd hmem List.not_mem_nil
    · exact hlast.reported

/-- A source text that is rejected has errors, each with a note and a place within the text that
does not cut a character. The diagnostics come one for each error, in the same order, and each
labels exactly the piece of the text at the place of its error. -/
theorem errors_stand_on_pieces {source : String} {errors : List SyntaxError}
    (hrejected : Program.ofSource source = .error errors) :
    errors ≠ [] ∧ Diagnostic.ofSource source = errors.map Diagnostic.ofError ∧
      ∀ error ∈ errors, error.label ≠ "" ∧
        error.span.start ≤ error.span.stop ∧ error.span.stop ≤ source.utf8ByteSize ∧
        IsBoundary source error.span.start ∧ IsBoundary source error.span.stop ∧
        (Diagnostic.ofError error).label = error.label ∧
        (Diagnostic.ofError error).offset = error.span.start ∧
        error.span.start + (Diagnostic.ofError error).length = error.span.stop ∧
        ∃ before text after : String, before ++ text ++ after = source ∧
          (Diagnostic.ofError error).offset = before.utf8ByteSize ∧
          (Diagnostic.ofError error).length = text.utf8ByteSize := by
  obtain ⟨hne, hlies⟩ := Program.errors_of_ofSource hrejected
  refine ⟨hne, by rw [Diagnostic.ofSource, hrejected], fun error hmem ↦ ?_⟩
  have hspan := hlies error hmem
  refine ⟨error.cause.label_ne_empty, hspan.le, hspan.stop.le, hspan.start, hspan.stop, rfl, rfl,
    Nat.add_sub_of_le hspan.le, ?_⟩
  obtain ⟨before, text, after, hsource, hpiece⟩ := hspan.exists_piece
  refine ⟨before, text, after, hsource, congrArg Span.start hpiece, ?_⟩
  exact (congrArg Span.length hpiece).trans (Nat.add_sub_cancel_left _ _)

/-- A string with a character of two bytes as the target of an assignment, and a block that is
still open at the end of the text, where nothing is left to label. -/
theorem target_and_open_block :
    let source := "\"é\" = nil; \x7b"
    let errors : List SyntaxError := [⟨.invalidAssignmentTarget, 0, 4⟩,
      ⟨.unexpectedToken (.symbol .rightBrace) (some .endOfInput), 13, 13⟩]
    Program.ofSource source = .error errors ∧
      ∀ error ∈ errors, error.label ≠ "" ∧
        error.span.start ≤ error.span.stop ∧ error.span.stop ≤ source.utf8ByteSize := by
  intro source errors
  have hrejected : Program.ofSource source = .error errors := by
    rw [Program.ofSource, show Token.ofSource source =
      .ok [⟨.string "é", 0, 4⟩, ⟨.symbol .equal, 5, 6⟩, ⟨.keyword .nil, 7, 10⟩,
        ⟨.symbol .semicolon, 10, 11⟩, ⟨.symbol .leftBrace, 12, 13⟩,
        ⟨.endOfInput, 13, 13⟩] by decide +kernel]
    rfl
  refine ⟨hrejected, fun error hmem ↦ ?_⟩
  obtain ⟨-, -, hplaces⟩ := errors_stand_on_pieces hrejected
  obtain ⟨hlabel, hle, hsize, -⟩ := hplaces error hmem
  exact ⟨hlabel, hle, hsize⟩

end Lox
