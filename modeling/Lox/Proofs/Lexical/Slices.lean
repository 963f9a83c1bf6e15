import Lox.Proofs.Lexical.Seam

/-!
# Slices of source texts

The tokens of a source text can be cut where one ends, and the text with them: `Scans` is the part
of a decomposition into gaps and lexemes that goes as far as some of the tokens. Such a part is left
alone if something else follows it, as long as it is nothing that its last lexeme could go on with
(`Scans.exchange`), and it may stand elsewhere in a source (`Scans.exists_unshift`).

So the piece of a source text that some of its tokens stand on can be scanned alone, with the same
tokens (`Slice.exists_alone`), and parentheses can be put around it (`Slice.exists_enclosed`).
`exists_sourceSlice` is the same for strings.
-/

set_option autoImplicit false
set_option relaxedAutoImplicit false

namespace Lox

open Lexeme

/-- A text that starts `offset` bytes into its source and that `rest` follows is made of whole gaps
and lexemes, the last one at its end, and these are its tokens. -/
inductive Scans (rest : List Char) : Nat → List Char → List Token → Prop
  | nil {offset : Nat} : Scans rest offset [] []
  | lexeme {offset : Nat} {gap text more : List Char} {kind : TokenKind} {tokens : List Token} :
    Gap (text ++ (more ++ rest)) gap → EndsGap (text ++ (more ++ rest)) →
    IsLongest text kind (text ++ (more ++ rest)) →
    Scans rest (offset + byteLength gap + byteLength text) more tokens →
    Scans rest offset (gap ++ (text ++ more))
      (⟨kind, offset + byteLength gap, offset + byteLength gap + byteLength text⟩ :: tokens)

/-- A text is cut behind some of its tokens. -/
theorem Decomposes.split {offset : Nat} {text : List Char} {before others : List Token}
    (hdecomposes : Decomposes true offset text (before ++ others)) (hne : others ≠ []) :
    ∃ start rest, text = start ++ rest ∧ Scans rest offset start before ∧
      Decomposes true (offset + byteLength start) rest others := by
  induction before generalizing offset text with
  | nil => exact ⟨[], text, rfl, .nil, hdecomposes⟩
  | cons token before ih =>
    rw [List.cons_append] at hdecomposes
    generalize htokens : token :: (before ++ others) = tokens at hdecomposes
    cases hdecomposes with
    | finish =>
      obtain ⟨-, hnil⟩ := List.cons.inj htokens
      exact absurd (List.append_eq_nil_iff.mp hnil).2 hne
    | @lexeme _ gap lexeme rest kind tokens hgap hends hlongest hrest =>
      obtain ⟨rfl, rfl⟩ := List.cons.inj htokens
      obtain ⟨start, rest, rfl, hstart, hothers⟩ := ih hrest
      refine ⟨gap ++ (lexeme ++ start), rest, by simp, ?_, ?_⟩
      · exact .lexeme hgap (hends rfl) hlongest hstart
      · simpa [Nat.add_assoc] using hothers

/-- A text stands for one kind of token at most. -/
theorem Lexeme.Form.unique {text : List Char} {kind kind' : TokenKind} (hform : Form text kind)
    (hform' : Form text kind') : kind = kind' := by
  have hread {kind : TokenKind} (hform : Form text kind) :
      read? (text ++ []) = some ⟨kind, text, []⟩ :=
    read?_eq_some_iff.mpr ⟨hform, List.prefix_append _ _, fun other _ _ hother ↦ by
      rw [List.append_nil] at hother
      exact hother.length_le⟩
  exact congrArg Lexeme.kind (Option.some.inj ((hread hform).symm.trans (hread hform')))

namespace Scans

variable {rest other text : List Char} {offset : Nat} {tokens : List Token}

/-- A text is put together again. -/
theorem append {others : List Token} (hscans : Scans rest offset text tokens)
    (hrest : Decomposes true (offset + byteLength text) rest others) :
    Decomposes true offset (text ++ rest) (tokens ++ others) := by
  induction hscans with
  | nil => simpa using hrest
  | lexeme hgap hends hlongest _ ih =>
    rw [byteLength_append, byteLength_append, ← Nat.add_assoc, ← Nat.add_assoc] at hrest
    rw [List.append_assoc, List.append_assoc, List.cons_append]
    exact .lexeme hgap (fun _ ↦ hends) hlongest (ih hrest)

theorem eq_nil_of_text_eq_nil (hscans : Scans rest offset [] tokens) : tokens = [] := by
  generalize htext : ([] : List Char) = text at hscans
  cases hscans with
  | nil => rfl
  | lexeme _ _ hlongest => exact absurd htext.symm (by simp [hlongest.form.ne_nil])

/-- Something else may follow, if the last lexeme cannot go on with it. A slash must not follow a
slash, which would start a comment. The last lexeme is the one that decides about this. -/
theorem exchange (hscans : Scans rest offset text tokens)
    (hother : ∀ next ∈ other.head?, Separates next ∧ (next = '/' →
      rest.head? = some '/' ∨ ∀ last ∈ tokens.getLast?, last.kind ≠ .symbol .slash)) :
    Scans other offset text tokens := by
  induction hscans with
  | nil => exact .nil
  | @lexeme offset gap text more kind tokens hgap hends hlongest hmore ih =>
    have hne : text ++ more ≠ [] := by simp [hlongest.form.ne_nil]
    have hseparates (next : Char) (hnext : next ∈ other.head?) := (hother next hnext).1
    refine .lexeme ?_ ?_ (hlongest.initial.append hseparates) (ih fun next hnext ↦ ?_)
    · rw [← List.append_assoc] at hgap ⊢
      obtain ⟨first, tail, hstart⟩ := List.exists_cons_of_ne_nil hne
      rw [hstart] at hgap ⊢
      have hhead : (first :: tail ++ other).head? = (first :: tail ++ rest).head? := rfl
      exact Gap.of_head?_eq hhead hgap
    · rw [← List.append_assoc] at hends ⊢
      refine hends.exchange hne fun hslash ↦ ((hother '/' hslash).2 rfl).imp_right ?_
      intro hlast heq
      rcases List.append_eq_singleton_iff.mp heq with ⟨hnil, -⟩ | ⟨rfl, rfl⟩
      · exact hlongest.form.ne_nil hnil
      · obtain rfl := hmore.eq_nil_of_text_eq_nil
        exact hlast _ rfl (hlongest.form.unique (.symbol .slash))
    · refine ⟨hseparates next hnext, fun hslash ↦ ((hother next hnext).2 hslash).imp_right ?_⟩
      intro hlast last hmem
      cases tokens with
      | nil => cases hmem
      | cons token tokens => exact hlast last (by rwa [List.getLast?_cons_cons])

/-- Behind more text the same tokens are scanned, so much further on. -/
theorem shift (hscans : Scans rest offset text tokens) (distance : Nat) :
    Scans rest (offset + distance) text (tokens.map (Token.shift distance)) := by
  induction hscans with
  | nil => exact .nil
  | lexeme hgap hends hlongest _ ih =>
    simp only [List.map_cons, Token.shift, Nat.add_right_comm _ _ distance] at ih ⊢
    exact .lexeme hgap hends hlongest ih

/-- The same text with fewer bytes before it. -/
theorem exists_unshift {distance : Nat} (hscans : Scans rest (offset + distance) text tokens) :
    ∃ moved, tokens = moved.map (Token.shift distance) ∧ Scans rest offset text moved := by
  generalize hstart : offset + distance = start at hscans
  induction hscans generalizing offset with
  | nil => exact ⟨[], rfl, .nil⟩
  | @lexeme _ gap text more kind tokens hgap hends hlongest _ ih =>
    subst hstart
    have hoffset : offset + byteLength gap + byteLength text + distance
        = offset + distance + byteLength gap + byteLength text := by omega
    obtain ⟨moved, rfl, hmoved⟩ := ih hoffset
    refine ⟨_, ?_, .lexeme hgap hends hlongest hmoved⟩
    simp only [List.map_cons, Token.shift, Nat.add_right_comm _ _ distance]

theorem getLast?_stop (hscans : Scans rest offset text tokens) (hne : tokens ≠ []) :
    tokens.getLast?.map (·.span.stop) = some (offset + byteLength text) := by
  induction hscans with
  | nil => exact absurd rfl hne
  | @lexeme offset gap text more kind tokens _ _ _ hmore ih =>
    cases tokens with
    | nil =>
      cases hmore
      simp [Nat.add_assoc]
    | cons next others =>
      rw [List.getLast?_cons_cons, ih (by simp)]
      simp [Nat.add_assoc]

end Scans

/-- A symbol before a text, unless it might start a comment or be read as a part of a longer one. -/
theorem Decomposes.after_symbol {offset : Nat} {text : List Char} {tokens : List Token}
    {character : Char} {mark : Symbol}
    (hread : read? (character :: text) = some ⟨.symbol mark, [character], text⟩)
    (hslash : character ≠ '/')
    (hdecomposes : Decomposes true (offset + byteLength [character]) text tokens) :
    Decomposes true offset (character :: text)
      (⟨.symbol mark, offset, offset + byteLength [character]⟩ :: tokens) := by
  have hlongest : IsLongest [character] (.symbol mark) ([character] ++ text) :=
    read?_eq_some_iff.mp hread
  refine .next (fun _ ↦ ?_) hlongest hdecomposes
  rintro first tail ⟨⟩
  exact ⟨(hlongest.form.endsGap character [] rfl).1, fun hcomment ↦ hslash hcomment.1⟩

/-! ### Slices -/

/-- The first character of a gap separates lexemes. -/
theorem Gap.separates {rest gap : List Char} (hgap : Gap rest gap) :
    ∀ next ∈ gap.head?, Separates next := by
  cases hgap with
  | nil => simp
  | blank hblank _ =>
    rintro _ ⟨⟩
    rename_i character _
    simp only [isBlank, Bool.or_eq_true, decide_eq_true_eq] at hblank
    rcases hblank with ((rfl | rfl) | rfl) | rfl <;> decide
  | comment =>
    rintro _ ⟨⟩
    decide

/-- A gap that is whole does not depend on what stands behind it: if it ends with a comment, then
with the line feed behind that. -/
theorem Gap.before {rest gap : List Char} (hgap : Gap rest gap) (hends : EndsGap rest)
    (hne : rest ≠ []) (other : List Char) : Gap other gap := by
  induction hgap with
  | nil => exact .nil
  | blank hblank _ ih => exact .blank hblank ih
  | @comment body gap hbody hnext _ ih =>
    refine .comment hbody ?_ ih
    cases gap with
    | nil =>
      obtain ⟨first, tail, rfl⟩ := List.exists_cons_of_ne_nil hne
      obtain rfl := hnext first rfl
      cases (hends '\n' tail rfl).1
    | cons next others => exact hnext

/-- A source text cut before and behind the piece of it that some of its tokens stand on. What comes
before the piece ends with a gap. -/
structure Slice (before own after : List Token) (start gap text rest : List Char) : Prop where
  scans_before : Scans (gap ++ (text ++ rest)) 0 start before
  isGap : Gap (text ++ rest) gap
  endsGap : EndsGap (text ++ rest)
  text_ne_nil : text ≠ []
  scans_own : Scans rest (byteLength (start ++ gap)) text own
  start_eq : own.head?.map (·.span.start) = some (byteLength (start ++ gap))
  decomposes_after : Decomposes true (byteLength (start ++ gap) + byteLength text) rest after

/-- Some successive tokens of a text cut it into what is before them, the gap in front of the first,
their own text and the rest. -/
theorem Decomposes.exists_slice {source : List Char} {before own after : List Token}
    (hdecomposes : Decomposes true 0 source (before ++ (own ++ after))) (hown : own ≠ [])
    (hafter : after ≠ []) :
    ∃ start gap text rest, source = start ++ gap ++ text ++ rest ∧
      Slice before own after start gap text rest := by
  obtain ⟨start, middle, rfl, hstart, hmiddle⟩ := hdecomposes.split (by simp [hown])
  obtain ⟨piece, rest, rfl, hpiece, hrest⟩ := hmiddle.split hafter
  cases hpiece with
  | nil => exact absurd rfl hown
  | @lexeme _ gap text more kind tokens hgap hends hlongest hmore =>
    refine ⟨start, gap, text ++ more, rest, by simp, ?_, ?_, ?_, ?_, ?_, ?_, ?_⟩
    · simpa using hstart
    · simpa using hgap
    · simpa using hends
    · simp [hlongest.form.ne_nil]
    · have hlength : 0 + byteLength start + byteLength gap = byteLength (start ++ gap) := by simp
      rw [hlength] at hmore ⊢
      simpa using Scans.lexeme .nil hends hlongest hmore
    · simp
    · simpa [Nat.add_assoc] using hrest

namespace Slice

variable {before own after : List Token} {start gap text rest : List Char}

/-- The last of them ends where their own text does. -/
theorem stop_eq (hslice : Slice before own after start gap text rest) :
    own.getLast?.map (·.span.stop) = some (byteLength (start ++ gap) + byteLength text) := by
  refine hslice.scans_own.getLast?_stop ?_
  rintro rfl
  exact hslice.text_ne_nil (by cases hslice.scans_own; rfl)

/-- The slice with something else behind it has the same tokens. -/
theorem exists_alone (hslice : Slice before own after start gap text rest) :
    ∃ moved, own = moved.map (Token.shift (byteLength (start ++ gap))) ∧
      ∀ later others, (∀ next ∈ later.head?, Separates next ∧ next ≠ '/') →
        Decomposes true (byteLength text) later others →
          Decomposes true 0 (text ++ later) (moved ++ others) := by
  have hown : Scans rest (0 + byteLength (start ++ gap)) text own := by
    rw [Nat.zero_add]
    exact hslice.scans_own
  obtain ⟨moved, hmoved, hscans⟩ := hown.exists_unshift
  refine ⟨moved, hmoved, fun later others hlater hothers ↦ ?_⟩
  refine (hscans.exchange fun next hnext ↦ ?_).append (by rwa [Nat.zero_add])
  exact ⟨(hlater next hnext).1, fun hslash ↦ absurd hslash (hlater next hnext).2⟩

/-- Parentheses can be put around the slice. -/
theorem exists_enclosed (hslice : Slice before own after start gap text rest) :
    ∃ tokens, Decomposes true 0 (start ++ gap ++ '(' :: (text ++ ')' :: rest)) tokens ∧
      tokens.map Token.kind = before.map Token.kind ++ .symbol .leftParenthesis ::
        (own.map Token.kind ++ .symbol .rightParenthesis :: after.map Token.kind) := by
  have hclosing : Decomposes true (byteLength (start ++ gap) + byteLength text + 1) (')' :: rest)
      (_ :: (after.map (Token.shift 1)).map (Token.shift 1)) :=
    .after_symbol rfl (by decide) ((hslice.decomposes_after.shift 1).shift 1)
  have hown : Scans (')' :: rest) (byteLength (start ++ gap) + 1) text (own.map (Token.shift 1)) :=
    (hslice.scans_own.shift 1).exchange (by simp; decide)
  rw [Nat.add_right_comm] at hclosing
  have hopening : Decomposes true (byteLength (start ++ gap)) ('(' :: (text ++ ')' :: rest)) _ :=
    .after_symbol rfl (by decide) (hown.append hclosing)
  have hne : text ++ rest ≠ [] := by simp [hslice.text_ne_nil]
  rw [byteLength_append, ← Nat.zero_add (byteLength start)] at hopening
  have hgap := Decomposes.after_gap (hslice.isGap.before hslice.endsGap hne _) hopening
  have hfollows : ∀ next ∈ (gap ++ '(' :: (text ++ ')' :: rest)).head?,
      Separates next ∧ (next = '/' → (gap ++ (text ++ rest)).head? = some '/' ∨
        ∀ last ∈ before.getLast?, last.kind ≠ .symbol .slash) := by
    have hseparates := hslice.isGap.separates
    intro next hnext
    cases gap with
    | nil =>
      obtain rfl : '(' = next := Option.some.inj hnext
      exact ⟨by decide, by simp⟩
    | cons first others =>
      obtain rfl : first = next := Option.some.inj hnext
      exact ⟨hseparates first rfl, by rintro rfl; exact .inl rfl⟩
  have hwhole := (hslice.scans_before.exchange hfollows).append hgap
  refine ⟨_, by simpa using hwhole, ?_⟩
  simp [Function.comp_def]

end Slice

/-! ### Slices of source texts -/

/-- A source text cut before and behind the piece of it that some of its tokens stand on: where they
start and stop, their tokens if the piece is scanned alone or with a semicolon, and what becomes of
all tokens if parentheses are put around it. -/
structure SourceSlice (before own after : List Token) (first piece rest : String) : Prop where
  start_eq : own.head?.map (·.span.start) = some first.utf8ByteSize
  stop_eq : own.getLast?.map (·.span.stop) = some (first.utf8ByteSize + piece.utf8ByteSize)
  exists_alone : ∃ moved stop closed close, own = moved.map (Token.shift first.utf8ByteSize) ∧
    Token.ofSource piece = .ok (moved ++ [⟨.endOfInput, stop⟩]) ∧
    Token.ofSource (piece ++ ";") = .ok (moved ++ [⟨.symbol .semicolon, close⟩] ++
      [⟨.endOfInput, closed⟩])
  exists_enclosed : ∃ tokens, Token.ofSource (first ++ "(" ++ piece ++ ")" ++ rest) = .ok tokens ∧
    tokens.map Token.kind = before.map Token.kind ++ .symbol .leftParenthesis ::
      (own.map Token.kind ++ .symbol .rightParenthesis :: after.map Token.kind)

/-- There is such a piece for all tokens that stand behind one another. -/
theorem exists_sourceSlice {source : String} {before own after : List Token}
    (htokens : Token.ofSource source = .ok (before ++ (own ++ after))) (hown : own ≠ [])
    (hafter : after ≠ []) :
    ∃ first piece rest : String, first ++ piece ++ rest = source ∧
      SourceSlice before own after first piece rest := by
  obtain ⟨start, gap, text, rest, hsource, hslice⟩ :=
    (ofSource_eq_ok_iff_decomposes.mp htokens).exists_slice hown hafter
  refine ⟨String.ofList (start ++ gap), String.ofList text, String.ofList rest, ?_, ?_, ?_, ?_, ?_⟩
  · rw [← String.ofList_append, ← String.ofList_append, ← hsource, String.ofList_toList]
  · rw [utf8ByteSize_ofList]
    exact hslice.start_eq
  · rw [utf8ByteSize_ofList, utf8ByteSize_ofList]
    exact hslice.stop_eq
  · obtain ⟨moved, hmoved, halone⟩ := hslice.exists_alone
    have hpiece := halone [] _ (by simp) (.finish .nil)
    have hclose : Decomposes true (byteLength text) [';']
        ([⟨.symbol .semicolon, byteLength text, byteLength text + 1⟩] ++
          [⟨.endOfInput, byteLength text + 1, byteLength text + 1⟩]) :=
      .after_symbol rfl (by decide) (.finish .nil)
    have hclosed := halone [';'] _ (by simp; decide) hclose
    rw [← List.append_assoc] at hclosed
    exact ⟨moved, _, _, _, by rwa [utf8ByteSize_ofList],
      ofSource_eq_ok_iff_decomposes.mpr (by simpa using hpiece),
      ofSource_eq_ok_iff_decomposes.mpr (by simpa using hclosed)⟩
  · obtain ⟨tokens, hdecomposes, hkinds⟩ := hslice.exists_enclosed
    refine ⟨tokens, ?_, hkinds⟩
    rw [ofSource_eq_ok_iff_decomposes]
    simpa using hdecomposes

end Lox
