import Lox.Proofs.Lexical.Placement

/-!
# The seam between two texts

What a text is made of stays so if something is put behind it that belongs to neither its last gap
nor its last lexeme. A line feed does: it ends a comment at the end of a text (`Gap.before_newline`)
and no lexeme goes on with it. The latter holds of other characters too, as of the parentheses and
of the semicolon: they separate lexemes as well (`Lexeme.IsLongest.append`).

A gap and a lexeme are passed at a seam by `Decomposes.after_gap` and `Decomposes.lexeme_append`.
-/

set_option autoImplicit false
set_option relaxedAutoImplicit false

namespace Lox

open Lexeme

/-- The same token in a source that has so many more bytes before it. -/
def Token.shift (distance : Nat) (token : Token) : Token :=
  ⟨token.kind, token.span.start + distance, token.span.stop + distance⟩

@[simp]
theorem Token.kind_shift (distance : Nat) (token : Token) :
    (token.shift distance).kind = token.kind := rfl

theorem Decomposes.shift {wholeGaps : Bool} {offset : Nat} {text : List Char}
    {tokens : List Token} (hdecomposes : Decomposes wholeGaps offset text tokens)
    (distance : Nat) :
    Decomposes wholeGaps (offset + distance) text (tokens.map (Token.shift distance)) := by
  induction hdecomposes with
  | @finish offset gap hgap =>
    simp only [List.map_cons, List.map_nil, Token.shift, Nat.add_right_comm _ _ distance]
    exact .finish hgap
  | lexeme hgap hends hlongest _ ih =>
    simp only [List.map_cons, Token.shift, Nat.add_right_comm _ _ distance] at ih ⊢
    exact .lexeme hgap hends hlongest ih

theorem Gap.of_head?_eq {rest other gap : List Char} (hhead : other.head? = rest.head?)
    (hgap : Gap rest gap) : Gap other gap := by
  induction hgap with
  | nil => exact .nil
  | blank hblank _ ih => exact .blank hblank ih
  | @comment body gap hbody hnext _ ih =>
    refine .comment hbody ?_ ih
    rwa [List.head?_append, hhead, ← List.head?_append]

/-- Two gaps that stand behind one another are a gap. -/
theorem Gap.append {first second rest : List Char} (hfirst : Gap (second ++ rest) first)
    (hsecond : Gap rest second) : Gap rest (first ++ second) := by
  induction hfirst with
  | nil => exact hsecond
  | blank hblank _ ih => exact .blank hblank ih
  | @comment body gap hbody hnext _ ih =>
    rw [List.append_assoc]
    exact .comment hbody (by rwa [List.append_assoc]) ih

/-- A gap at the end of a text stays one if a line feed follows, which ends a comment as well. -/
theorem Gap.before_newline {gap : List Char} (hgap : Gap [] gap) (later : List Char) :
    Gap ('\n' :: later) gap := by
  induction hgap with
  | nil => exact .nil
  | blank hblank _ ih => exact .blank hblank ih
  | @comment body gap hbody hnext _ ih =>
    refine .comment hbody ?_ ih
    cases gap with
    | nil => simp
    | cons next others => simpa using hnext

/-- Whether a gap has ended is seen from two characters, and from one if that is no slash. -/
theorem EndsGap.exchange {start rest other : List Char} (hends : EndsGap (start ++ rest))
    (hne : start ≠ [])
    (hother : other.head? = some '/' → rest.head? = some '/' ∨ start ≠ ['/']) :
    EndsGap (start ++ other) := by
  rintro first tail htail
  cases start with
  | nil => exact absurd rfl hne
  | cons first' others =>
    obtain ⟨rfl, rfl⟩ := List.cons.inj htail
    obtain ⟨hblank, hcomment⟩ := hends first' (others ++ rest) rfl
    refine ⟨hblank, fun ⟨hfirst, hslash⟩ ↦ ?_⟩
    cases others with
    | nil =>
      rcases hother hslash with hrest | hstart
      · exact hcomment ⟨hfirst, hrest⟩
      · exact hstart (by rw [hfirst])
    | cons next others => exact hcomment ⟨hfirst, hslash⟩

/-- A gap before something stays one whatever is put behind that. -/
theorem Gap.before_append {gap start : List Char} (hgap : Gap start gap) (hne : start ≠ [])
    (later : List Char) : Gap (start ++ later) gap := by
  obtain ⟨first, tail, rfl⟩ := List.exists_cons_of_ne_nil hne
  have hhead : (first :: tail ++ later).head? = (first :: tail).head? := rfl
  exact .of_head?_eq hhead hgap

/-- Something that ends a gap does so whatever is put behind it, but for a slash. -/
theorem EndsGap.append {start later : List Char} (hends : EndsGap start) (hne : start ≠ [])
    (hlater : later.head? ≠ some '/') : EndsGap (start ++ later) := by
  rw [← List.append_nil start] at hends
  exact hends.exchange hne fun hslash ↦ absurd hslash hlater

/-- A character that a lexeme may have at its start only, unless it is a string. -/
def Separates (character : Char) : Prop :=
  character.isDigit = false ∧ isWordPart character = false ∧ character ≠ '.' ∧
    ∀ mark ∈ Symbol.all, character ∉ mark.spelling.tail

instance : DecidablePred Separates := fun _ ↦ inferInstanceAs (Decidable (_ ∧ _))

/-- A lexeme is a string, or it goes on with no separating character and does not start with a
quote. -/
theorem Lexeme.Form.string_or {text : List Char} {kind : TokenKind} (hform : Form text kind)
    {separator : Char} (hseparates : Separates separator) :
    (∃ body, '"' ∉ body ∧ text = '"' :: body ++ ['"']) ∨
      (separator ∉ text.tail ∧ text.head? ≠ some '"') := by
  obtain ⟨hdigit, hpart, hdot, hmarks⟩ := hseparates
  have hdigits {digits : List Char} (hall : ∀ digit ∈ digits, digit.isDigit) :
      separator ∉ digits ∧ digits.head? ≠ some '"' := by
    refine ⟨fun hmem ↦ ?_, fun hhead ↦ ?_⟩
    · rw [hall _ hmem] at hdigit
      cases hdigit
    · exact absurd (hall _ (List.mem_of_mem_head? hhead)) (by decide)
  have hword {first : Char} {tail : List Char} (hfirst : isWordStart first)
      (htail : ∀ character ∈ tail, isWordPart character) :
      separator ∉ (first :: tail).tail ∧ (first :: tail).head? ≠ some '"' := by
    constructor
    · intro hmem
      rw [htail _ hmem] at hpart
      cases hpart
    · rintro ⟨⟩
      exact absurd hfirst (by decide)
  cases hform with
  | whole _ hall =>
    exact .inr ⟨fun hmem ↦ (hdigits hall).1 (List.mem_of_mem_tail hmem), (hdigits hall).2⟩
  | @fractional digits fraction hne hall _ hfraction =>
    obtain ⟨first, others, rfl⟩ := List.exists_cons_of_ne_nil hne
    refine .inr ⟨?_, (hdigits hall).2⟩
    have hfirst := (hdigits hall).1
    simp only [List.mem_cons, not_or] at hfirst
    simp [hfirst.2, hdot, (hdigits hfraction).1]
  | string hbody => exact .inl ⟨_, hbody, rfl⟩
  | keyword word =>
    obtain ⟨first, tail, htext, hfirst, htail⟩ := isWord_of_keyword word
    rw [htext]
    exact .inr (hword hfirst htail)
  | identifier hfirst htail => exact .inr (hword hfirst htail)
  | symbol mark => exact .inr ⟨hmarks mark mark.mem_all, by cases mark <;> decide⟩

/-- A string that starts with a string is no longer than it. -/
theorem length_le_of_strings {body other : List Char} (hother : '"' ∉ other)
    (hinitial : '"' :: body ++ ['"'] <+: '"' :: other ++ ['"']) : other.length ≤ body.length := by
  obtain ⟨rest, hrest⟩ := hinitial
  simp only [List.cons_append, List.append_assoc, List.nil_append, List.cons.injEq,
    true_and] at hrest
  by_contra hlt
  have hquote : '"' ∈ other := by
    have hget := congrArg (·[body.length]?) hrest
    simp only [List.getElem?_append_right (Nat.le_refl _), Nat.sub_self, List.getElem?_cons_zero,
      List.getElem?_append_left (Nat.lt_of_not_le hlt)] at hget
    exact List.mem_of_getElem? hget.symm
  exact hother hquote

/-- A lexeme that is the longest at the start of a text is so at the start of less of it. -/
theorem Lexeme.IsLongest.initial {text more rest : List Char} {kind : TokenKind}
    (hlongest : IsLongest text kind (text ++ (more ++ rest))) :
    IsLongest text kind (text ++ more) := by
  refine ⟨hlongest.form, List.prefix_append _ _, fun other otherKind hform hother ↦ ?_⟩
  refine hlongest.length_le other otherKind hform (hother.trans ?_)
  rw [← List.append_assoc]
  exact List.prefix_append _ _

/-- No lexeme that does not go over the whole text behind it goes over a separating character put
there. What goes on behind the text would go on with the separator, and so be a string that is not
closed before it. -/
theorem Lexeme.IsLongest.append {text rest later : List Char} {kind : TokenKind}
    (hlongest : IsLongest text kind (text ++ rest))
    (hlater : ∀ next ∈ later.head?, Separates next) :
    IsLongest text kind (text ++ (rest ++ later)) := by
  refine ⟨hlongest.form, List.prefix_append _ _, fun other otherKind hform hother ↦ ?_⟩
  rw [← List.append_assoc] at hother
  rcases List.prefix_or_prefix_of_prefix hother (List.prefix_append (text ++ rest) _) with
    hshort | ⟨more, hmore⟩
  · exact hlongest.length_le other otherKind hform hshort
  · cases more with
    | nil =>
      refine hlongest.length_le other otherKind hform ?_
      rw [List.append_nil] at hmore
      exact hmore ▸ List.prefix_refl _
    | cons next more =>
      have hnext : next ∈ later.head? := by
        rw [← hmore, List.prefix_append_right_inj] at hother
        obtain ⟨others, rfl⟩ := hother
        rfl
      obtain ⟨first, tail, rfl⟩ := List.exists_cons_of_ne_nil hlongest.form.ne_nil
      rcases hform.string_or (hlater next hnext) with ⟨otherBody, hotherBody, rfl⟩ | ⟨htail, -⟩
      · have hinitial : first :: tail <+: '"' :: otherBody ++ ['"'] := by
          rw [← hmore, List.append_assoc]
          exact List.prefix_append _ _
        rcases hlongest.form.string_or (hlater next hnext) with ⟨body, hbody, htext⟩ | ⟨-, hquote⟩
        · rw [htext] at hinitial ⊢
          have := length_le_of_strings hotherBody hinitial
          simpa using this
        · obtain ⟨rfl, -⟩ := List.cons_prefix_cons.mp hinitial
          exact absurd rfl hquote
      · exact absurd (by simp [← hmore]) htail

/-! ### Passing gaps and lexemes -/

/-- A text that decomposes still does so with a gap before it. -/
theorem Decomposes.after_gap {offset : Nat} {gap text : List Char} {tokens : List Token}
    (hgap : Gap text gap) (hdecomposes : Decomposes true (offset + byteLength gap) text tokens) :
    Decomposes true offset (gap ++ text) tokens := by
  generalize hstart : offset + byteLength gap = start at hdecomposes
  cases hdecomposes with
  | finish hend =>
    have hwhole : Gap [] (gap ++ text) := Gap.append (by rwa [List.append_nil]) hend
    have hfinish : Decomposes true offset _ _ := .finish hwhole
    rwa [byteLength_append, ← Nat.add_assoc, hstart] at hfinish
  | @lexeme _ second lexeme rest kind tokens hsecond hends hlongest hrest =>
    subst hstart
    have hwhole : Gap (lexeme ++ rest) (gap ++ second) := Gap.append hgap hsecond
    have hlength : offset + byteLength gap + byteLength second
        = offset + byteLength (gap ++ second) := by
      rw [byteLength_append, Nat.add_assoc]
    rw [hlength] at hrest ⊢
    rw [← List.append_assoc]
    exact .lexeme hwhole hends hlongest hrest

/-- A lexeme with its gap before a text that something more is put behind, if no lexeme goes on with
that. -/
theorem Decomposes.lexeme_append {offset : Nat} {gap text rest later : List Char}
    {kind : TokenKind} {tokens : List Token} (hgap : Gap (text ++ rest) gap)
    (hends : EndsGap (text ++ rest)) (hlongest : IsLongest text kind (text ++ rest))
    (hlater : ∀ next ∈ later.head?, Separates next ∧ next ≠ '/')
    (hmore : Decomposes true (offset + byteLength gap + byteLength text) (rest ++ later) tokens) :
    Decomposes true offset (gap ++ (text ++ rest) ++ later)
      (⟨kind, offset + byteLength gap, offset + byteLength gap + byteLength text⟩ :: tokens) := by
  have hne : text ++ rest ≠ [] := by simp [hlongest.form.ne_nil]
  have hgap := hgap.before_append hne later
  have hends := hends.append hne fun hslash ↦ (hlater '/' hslash).2 rfl
  rw [List.append_assoc] at hgap hends
  rw [List.append_assoc, List.append_assoc]
  exact .lexeme hgap (fun _ ↦ hends) (hlongest.append fun next hnext ↦ (hlater next hnext).1) hmore

theorem Decomposes.tokens_ne_nil {wholeGaps : Bool} {offset : Nat} {text : List Char}
    {tokens : List Token} (hdecomposes : Decomposes wholeGaps offset text tokens) :
    tokens ≠ [] := by
  cases hdecomposes <;> simp

end Lox
