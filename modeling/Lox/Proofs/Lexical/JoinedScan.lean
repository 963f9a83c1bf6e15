import Lox.Proofs.Lexical.Seam

/-!
# Source texts put together

A line feed between two source texts keeps their tokens apart. Behind a text that can be read and a
line feed, a scan goes on as from the start of a text, whether it finds errors there or not
(`Decomposes.ofText_append_newline`), and a scan that starts further on finds the same, moved by the
distance (`Scan.ofText_add`).

So if both texts can be read, the tokens of the whole are those of the first text without its end
and those of the second, moved behind it (`ofSource_append_newline`). If the second cannot, the
errors of the whole are its errors, moved as well (`ofSource_append_newline_of_error`).
-/

set_option autoImplicit false
set_option relaxedAutoImplicit false

namespace Lox

open Lexeme

/-- The same error in a source that has so many more bytes before it. -/
def SyntaxError.shift (distance : Nat) (error : SyntaxError) : SyntaxError :=
  ⟨error.cause, error.span.start + distance, error.span.stop + distance⟩

namespace Scan

/-- A gap before a text is passed first. -/
theorem ofText_gap_append {gap text : List Char} (hgap : Gap text gap) (offset : Nat) :
    ofText offset (gap ++ text) = ofText (offset + byteLength gap) text := by
  have hall := splitGap_append false text
  obtain ⟨hsecond, hends⟩ := Gap.from_splitGap false text
  rw [← hall] at hgap
  have hsplit := splitGap_eq_iff.mpr ⟨hgap.append hsecond, hends⟩
  rw [List.append_assoc, hall] at hsplit
  rw [ofText_eq_behindGap, hsplit, byteLength_append, ← Nat.add_assoc, ← ofText_eq_behindGap]

/-- A scan further on finds the same. -/
theorem ofText_add (offset distance : Nat) (text : List Char) :
    ofText (offset + distance) text =
      ⟨(ofText offset text).tokens.map (Token.shift distance),
        (ofText offset text).errors.map (SyntaxError.shift distance)⟩ := by
  fun_induction ofText offset text with
  | case1 offset text start hrest =>
    rw [ofText_eq_behindGap, hrest, behindGap, Nat.add_right_comm]
    rfl
  | case2 offset text start first tail hrest lexeme hread stop ih =>
    have hstop : start + distance + byteLength lexeme.text = stop + distance :=
      Nat.add_right_comm _ _ _
    rw [ofText_eq_behindGap, hrest, behindGap, hread, Nat.add_right_comm]
    simp only
    rw [hstop, ih]
    rfl
  | case3 offset text start tail hrest hread stop =>
    have hstop : start + distance + byteLength ('"' :: tail) = stop + distance :=
      Nat.add_right_comm _ _ _
    rw [ofText_eq_behindGap, hrest, behindGap, hread, Nat.add_right_comm]
    simp only [if_true]
    rw [hstop]
    rfl
  | case4 offset text start first tail hrest hread hquote stop ih =>
    have hstop : start + distance + first.utf8Size = stop + distance := Nat.add_right_comm _ _ _
    rw [ofText_eq_behindGap, hrest, behindGap, hread, Nat.add_right_comm]
    simp only
    rw [if_neg hquote, hstop, ih]
    rfl

end Scan

/-! ### Two texts -/

/-- Behind a text that can be read and a line feed, a scan goes on as from the start. -/
theorem Decomposes.ofText_append_newline {offset : Nat} {first : List Char} {tokens : List Token}
    (hfirst : Decomposes true offset first tokens) (second : List Char) :
    Scan.ofText offset (first ++ '\n' :: second) =
      ⟨tokens.dropLast ++ (Scan.ofText (offset + byteLength first + 1) second).tokens,
        (Scan.ofText (offset + byteLength first + 1) second).errors⟩ := by
  induction hfirst with
  | @finish offset gap hgap =>
    have hfeed : Gap second ['\n'] := .blank (by decide) .nil
    rw [Scan.ofText_gap_append (hgap.before_newline second)]
    exact Scan.ofText_gap_append hfeed _
  | @lexeme offset gap text rest kind tokens hgap hends hlongest hrest ih =>
    have hne : text ++ rest ≠ [] := by simp [hlongest.form.ne_nil]
    have hgap := hgap.before_append hne ('\n' :: second)
    have hfeed : ('\n' :: second).head? ≠ some '/' := by simp
    have hends := (hends rfl).append hne hfeed
    rw [List.append_assoc] at hgap hends
    have hlexeme := Scan.ofText_lexeme hgap hends (hlongest.append (by simp; decide)) offset
    rw [List.append_assoc, List.append_assoc, hlexeme, ih, byteLength_append, byteLength_append,
      List.dropLast_cons_of_ne_nil hrest.tokens_ne_nil]
    simp only [Scan.withToken, ← Nat.add_assoc, List.cons_append]

/-- The tokens of two texts with a line feed between them: those of the first without the end, and
those of the second. -/
theorem Decomposes.append_newline {offset : Nat} {first second : List Char}
    {tokens others : List Token} (hfirst : Decomposes true offset first tokens)
    (hsecond : Decomposes true (offset + byteLength first + 1) second others) :
    Decomposes true offset (first ++ '\n' :: second) (tokens.dropLast ++ others) := by
  rw [← ofText_eq_iff_decomposes] at hsecond ⊢
  rw [hfirst.ofText_append_newline, hsecond]

/-- The tokens of two source texts that can be read, with a line feed between them. -/
theorem ofSource_append_newline {first second : String} {tokens others : List Token}
    (hfirst : Token.ofSource first = .ok tokens) (hsecond : Token.ofSource second = .ok others) :
    Token.ofSource (first ++ "\n" ++ second)
      = .ok (tokens.dropLast ++ others.map (Token.shift (first.utf8ByteSize + 1))) := by
  rw [ofSource_eq_ok_iff_decomposes] at hfirst hsecond ⊢
  have hmoved : Decomposes true (0 + byteLength first.toList + 1) second.toList
      (others.map (Token.shift (first.utf8ByteSize + 1))) := by
    rw [byteLength_toList, Nat.add_assoc]
    exact hsecond.shift _
  have hboth := hfirst.append_newline hmoved
  simpa using hboth

/-- A source text that cannot be scanned has the same errors behind one that can, with a line feed
between them. -/
theorem ofSource_append_newline_of_error {first second : String} {tokens : List Token}
    {errors : List SyntaxError} (hfirst : Token.ofSource first = .ok tokens)
    (hsecond : Token.ofSource second = .error errors) :
    Token.ofSource (first ++ "\n" ++ second)
      = .error (errors.map (SyntaxError.shift (first.utf8ByteSize + 1))) := by
  rw [ofSource_eq_ok_iff_decomposes] at hfirst
  have hscan := hfirst.ofText_append_newline second.toList
  rw [byteLength_toList, Nat.add_assoc, Scan.ofText_add] at hscan
  have htext : (first ++ "\n" ++ second).toList = first.toList ++ '\n' :: second.toList := by simp
  rw [Token.ofSource] at hsecond
  rw [Token.ofSource, htext, hscan]
  split at hsecond
  · cases hsecond
  next hsome =>
    cases hsecond
    simp only [List.isEmpty_map]
    rw [if_neg hsome]

end Lox
