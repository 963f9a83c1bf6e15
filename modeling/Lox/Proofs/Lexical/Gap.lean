import Lox.Token.Scan

/-!
# Gaps

A gap is made of blanks and comments, and a comment goes from two slashes up to a line feed or to
the end of the text: `Gap rest gap` says so of a gap that stands before `rest`. A gap is whole if
what stands behind it does not go on like a gap, `EndsGap`.

`splitGap_eq_iff` says that `splitGap` takes off the whole gap that a text starts with.
-/

set_option autoImplicit false
set_option relaxedAutoImplicit false

namespace Lox

/-- Blanks and comments before `rest`. A comment ends where a line feed or the end of the text comes
next. -/
inductive Gap (rest : List Char) : List Char → Prop
  | nil : Gap rest []
  | blank {character : Char} {gap : List Char} : isBlank character → Gap rest gap →
    Gap rest (character :: gap)
  | comment {body gap : List Char} : '\n' ∉ body →
    (∀ next ∈ (gap ++ rest).head?, next = '\n') → Gap rest gap →
    Gap rest ('/' :: '/' :: body ++ gap)

/-- A text that starts neither with a blank nor with a comment. -/
def EndsGap (rest : List Char) : Prop :=
  ∀ first tail, rest = first :: tail →
    isBlank first = false ∧ ¬(first = '/' ∧ tail.head? = some '/')

namespace Gap

variable {rest gap : List Char}

/-- What `splitGap` takes off, starting outside of a comment or inside one. -/
def From (rest gap : List Char) : Bool → Prop
  | false => Gap rest gap
  | true => ∃ body later, gap = body ++ later ∧ '\n' ∉ body ∧
      (∀ next ∈ (later ++ rest).head?, next = '\n') ∧ Gap rest later

/-- What is split off a text is a gap, and no longer one could be. In a comment the second slash is
part of what is read inside it. -/
theorem from_splitGap (inComment : Bool) (text : List Char) :
    From (splitGap inComment text).2 (splitGap inComment text).1 inComment ∧
      EndsGap (splitGap inComment text).2 := by
  fun_induction splitGap inComment text with
  | case1 inComment =>
    refine ⟨?_, by simp [EndsGap]⟩
    cases inComment with
    | false => exact .nil
    | true => exact ⟨[], [], rfl, by simp, by simp, .nil⟩
  | case2 first tail gap rest hsplit ih =>
    simp only [hsplit] at ih
    refine ⟨?_, ih.2⟩
    by_cases hfirst : first = '\n'
    · subst hfirst
      exact ⟨[], '\n' :: gap, rfl, by simp, by simp, .blank (by decide) ih.1⟩
    · rw [show decide (first ≠ '\n') = true by simpa using hfirst] at ih
      obtain ⟨⟨body, later, rfl, hbody, hnext, hlater⟩, -⟩ := ih
      exact ⟨first :: body, later, rfl, by simp [hbody, Ne.symm hfirst], hnext, hlater⟩
  | case3 first tail hblank gap rest hsplit ih =>
    simp only [hsplit] at ih
    exact ⟨.blank hblank ih.1, ih.2⟩
  | case4 first tail hblank hcomment gap rest hsplit ih =>
    simp only [hsplit] at ih
    refine ⟨?_, ih.2⟩
    obtain ⟨⟨body, later, rfl, hbody, hnext, hlater⟩, -⟩ := ih
    obtain ⟨rfl, hslash⟩ := hcomment
    have htail : (body ++ later) ++ rest = tail := by
      have := splitGap_append true tail
      rwa [hsplit] at this
    cases body with
    | nil =>
      rw [← htail, List.nil_append] at hslash
      simpa using hnext '/' hslash
    | cons second body =>
      rw [← htail] at hslash
      obtain rfl : second = '/' := by simpa using hslash
      exact .comment (fun hmem ↦ hbody (List.mem_cons_of_mem _ hmem)) hnext hlater
  | case5 first tail hblank hcomment =>
    refine ⟨.nil, fun other others hother ↦ ?_⟩
    obtain ⟨rfl, rfl⟩ := List.cons.inj hother
    exact ⟨by simpa using hblank, hcomment⟩

/-- Inside a comment everything is taken off up to a line feed, and then as outside of it. -/
theorem splitGap_true_append {body : List Char} (hbody : '\n' ∉ body) {later : List Char}
    (hnext : ∀ next ∈ later.head?, next = '\n') :
    splitGap true (body ++ later)
      = (body ++ (splitGap false later).1, (splitGap false later).2) := by
  induction body with
  | nil =>
    cases later with
    | nil => rfl
    | cons next others =>
      obtain rfl := hnext next rfl
      simp [splitGap, isBlank]
  | cons first body ih =>
    have hfirst : first ≠ '\n' := fun h ↦ hbody (h ▸ List.mem_cons_self)
    have hrest : '\n' ∉ body := fun h ↦ hbody (List.mem_cons_of_mem _ h)
    simp [splitGap, hfirst, ih hrest]

theorem splitGap_of_endsGap {rest : List Char} (hends : EndsGap rest) :
    splitGap false rest = ([], rest) := by
  cases rest with
  | nil => rfl
  | cons first tail =>
    obtain ⟨hblank, hcomment⟩ := hends first tail rfl
    simp [splitGap, hblank, hcomment]

theorem splitGap_append (hgap : Gap rest gap) (hends : EndsGap rest) :
    splitGap false (gap ++ rest) = (gap, rest) := by
  induction hgap with
  | nil => exact splitGap_of_endsGap hends
  | blank hblank _ ih => simp [splitGap, hblank, ih]
  | @comment body gap hbody hnext _ ih =>
    have hslash : '\n' ∉ '/' :: body := by simp [hbody]
    have hinside := splitGap_true_append hslash hnext
    rw [ih] at hinside
    simp only [List.cons_append, List.append_assoc] at hinside ⊢
    rw [splitGap, if_neg (by decide), if_pos (by simp), hinside]

end Gap

/-- What is taken off a text is a gap, and it is whole. -/
theorem splitGap_eq_iff {gap rest : List Char} :
    splitGap false (gap ++ rest) = (gap, rest) ↔ Gap rest gap ∧ EndsGap rest := by
  constructor
  · intro hsplit
    have hfrom := Gap.from_splitGap false (gap ++ rest)
    rwa [hsplit] at hfrom
  · rintro ⟨hgap, hends⟩
    exact hgap.splitGap_append hends

end Lox
