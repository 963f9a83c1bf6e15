import Lox.Parsing.Statement
import Lox.Proofs.Computation.Preservation
import Lox.Proofs.Syntax.CursorSteps
import Lox.Proofs.Syntax.Grammar

/-!
# What a parser reads without errors

A parser is *sound* if whatever it reads without reporting an error is what it should be.
`Parse.Sound` relates the tokens that it passes, those that remain and the value that it yields,
without looking at the cursor; the relation may depend on how many function bodies are open.

There is one lemma for each elementary step and for each way in which steps are put together. That
of a chain, `Parse.Sound.bind`, hands on what has been read first as a hypothesis about what is read
next, so that all that has been read is known where a value is yielded. Because an error that is
reported stays, a parser that reports one is sound for every relation.
-/

set_option autoImplicit false
set_option relaxedAutoImplicit false

namespace Lox

namespace Cursor

/-- The kinds of the tokens still to come. -/
def kinds (cursor : Cursor) : List TokenKind := cursor.rest.map Token.kind

/-- The last cursor is reached from the first by passing certain tokens, without an error. -/
structure Passes (read : List TokenKind) (first last : Cursor) : Prop where
  kinds_eq : first.kinds = read ++ last.kinds
  reported_eq : last.reported = first.reported
  depth_eq : last.depth = first.depth

theorem Passes.refl (cursor : Cursor) : Passes [] cursor cursor := ⟨rfl, rfl, rfl⟩

/-- What is passed in two steps is passed one after the other. -/
theorem Passes.trans {read more : List TokenKind} {first middle last : Cursor}
    (hfirst : Passes read first middle) (hsecond : Passes more middle last) :
    Passes (read ++ more) first last where
  kinds_eq := by rw [hfirst.kinds_eq, hsecond.kinds_eq, List.append_assoc]
  reported_eq := hsecond.reported_eq.trans hfirst.reported_eq
  depth_eq := hsecond.depth_eq.trans hfirst.depth_eq

theorem next?_eq_head? (cursor : Cursor) : cursor.next? = cursor.kinds.head? := by
  simp [next?, kinds]

theorem isAt_iff {cursor : Cursor} {kind : TokenKind} :
    cursor.isAt kind = true ↔ cursor.kinds.head? = some kind := by
  simp [isAt, next?_eq_head?]

theorem passes_advance (cursor : Cursor) :
    Passes cursor.kinds.head?.toList cursor cursor.advance := by
  obtain ⟨passed, rest, reported, depth⟩ := cursor
  cases rest <;> exact ⟨rfl, rfl, rfl⟩

/-- Resynchronization passes some tokens and reports nothing. -/
theorem exists_passes_resynchronize (cursor : Cursor) :
    ∃ read, Passes read cursor cursor.resynchronize := by
  obtain ⟨skipped, hskipped⟩ := skipStatement_suffix cursor.advance.passed cursor.advance.rest
  have hskip : Passes (skipped.map Token.kind) cursor.advance cursor.resynchronize := by
    refine ⟨?_, rfl, rfl⟩
    rw [kinds, ← hskipped, List.map_append]
    rfl
  exact ⟨_, cursor.passes_advance.trans hskip⟩

end Cursor

/-- How the tokens passed, those that remain and the value yielded are related, within so many open
function bodies. -/
abbrev Reading (α : Type) : Type := Nat → List TokenKind → List TokenKind → α → Prop

namespace Parse

variable {α β : Type}

/-! ### Soundness -/

/-- What is read without reporting an error is related as it should be. -/
def Sound (parse : Parse α) (reading : Reading α) : Prop :=
  ∀ ⦃first last value⦄, parse.run first = .done value last → last.reported = [] →
    ∃ read, first.Passes read last ∧ reading first.depth read last.kinds value

namespace Sound

variable {parse : Parse α} {reading other : Reading α} {next : α → Parse β}
  {result : Reading β}

/-- What is sound for a relation is sound for any weaker one. -/
theorem mono (hparse : Sound parse reading)
    (himp : ∀ depth read rest value, reading depth read rest value → other depth read rest value) :
    Sound parse other := by
  intro first last value hrun hreported
  obtain ⟨read, hpasses, hreading⟩ := hparse hrun hreported
  exact ⟨read, hpasses, himp _ _ _ _ hreading⟩

/-- With the weakest relation of all, a sound parser is known only to pass tokens. -/
theorem trivial (hparse : Sound parse reading) : Sound parse fun _ _ _ _ ↦ True :=
  hparse.mono fun _ _ _ _ _ ↦ True.intro

/-- A value that is yielded has to be related to no tokens at all, whatever remains. -/
theorem pure {value : α} (hvalue : ∀ depth rest, reading depth [] rest value) :
    Sound (Pure.pure value) reading := by
  rintro first last value' hrun -
  cases hrun
  exact ⟨[], .refl first, hvalue _ _⟩

/-- What comes second may assume of what it reads and leaves that the first has been read. As what
is reported stays, nothing has been reported in the middle if nothing has at the end. -/
theorem bind (hparse : Sound parse reading)
    (hnext : ∀ value, Sound (next value) fun depth read rest reached ↦
      ∀ before, reading depth before (read ++ rest) value →
        result depth (before ++ read) rest reached) :
    Sound (parse >>= next) result := by
  intro first last reached hrun hreported
  obtain ⟨value, middle, hfirst, hsecond⟩ := Bounded.run_bind_eq_done.mp hrun
  obtain ⟨read, hread, himp⟩ := hnext value hsecond hreported
  obtain ⟨before, hbefore, hvalue⟩ := hparse hfirst (by rw [← hread.reported_eq, hreported])
  rw [hread.kinds_eq] at hvalue
  rw [hbefore.depth_eq] at himp
  exact ⟨before ++ read, hbefore.trans hread, himp before hvalue⟩

/-- Converting the value makes no difference to the tokens. -/
theorem map {convert : α → β} (hparse : Sound parse fun depth read rest value ↦
      result depth read rest (convert value)) :
    Sound (convert <$> parse) result := by
  rw [← bind_pure_comp]
  refine .bind hparse fun value ↦ .pure fun depth rest before hbefore ↦ ?_
  rwa [List.append_nil]

/-- A look at the cursor passes nothing. What is seen has to be right for the tokens that remain. -/
theorem gets {view : Cursor → α} (hview : ∀ cursor, reading cursor.depth [] cursor.kinds
      (view cursor)) :
    Sound (Bounded.gets view) reading := by
  rintro first last value hrun -
  cases hrun
  exact ⟨[], .refl first, hview first⟩

/-- The next token is passed, unless there is none. -/
theorem advance : Sound advance fun _ read rest _ ↦ read = (read ++ rest).head?.toList := by
  rintro first last value hrun -
  cases hrun
  have hpasses := first.passes_advance
  exact ⟨_, hpasses, congrArg (·.head?.toList) hpasses.kinds_eq⟩

/-- Either the token that is looked for has been passed, or it does not come next. -/
theorem accept (kind : TokenKind) : Sound (accept kind) fun _ read rest found ↦
    (found = true ∧ read = [kind]) ∨ (found = false ∧ read = [] ∧ rest.head? ≠ some kind) := by
  rintro first last found hrun -
  rw [Parse.accept, Bounded.run_update] at hrun
  by_cases hkind : first.isAt kind
  · simp only [hkind, if_true, Outcome.done.injEq] at hrun
    obtain ⟨rfl, rfl⟩ := hrun
    have hpasses := first.passes_advance
    rw [Cursor.isAt_iff.mp hkind] at hpasses
    exact ⟨[kind], hpasses, .inl ⟨rfl, rfl⟩⟩
  · rw [if_neg hkind] at hrun
    simp only [Outcome.done.injEq] at hrun
    obtain ⟨rfl, rfl⟩ := hrun
    exact ⟨[], .refl first, .inr ⟨rfl, rfl, fun h ↦ hkind (Cursor.isAt_iff.mpr h)⟩⟩

/-- A failure yields no value that could be wrong. -/
theorem failHere (cause : SyntaxCause) : Sound (failHere cause : Parse α) reading := by
  intro first last value hrun
  cases hrun

theorem exhausted : Sound (.exhausted : Parse α) reading := by
  intro first last value hrun
  cases hrun

/-- An error that is reported stays, so nothing is read without errors by reporting one. -/
theorem report (error : SyntaxError) {reading : Reading Unit} : Sound (report error) reading := by
  rintro first last value hrun hreported
  cases hrun
  simp [Cursor.report] at hreported

theorem reportHere (cause : SyntaxCause) {reading : Reading Unit} :
    Sound (reportHere cause) reading := by
  rintro first last value hrun hreported
  cases hrun
  simp [Cursor.report] at hreported

/-- Behind something that cannot be read without an error, anything may follow. -/
theorem bind_of_false (hparse : Sound parse fun _ _ _ _ ↦ False)
    (hnext : ∀ value, Sound (next value) fun _ _ _ _ ↦ True) : Sound (parse >>= next) result :=
  .bind hparse fun value ↦ (hnext value).mono fun _ _ _ _ _ _ hfalse ↦ hfalse.elim

/-- Going on behind an error passes some tokens. -/
theorem resynchronize : Sound (.modify Cursor.resynchronize) fun _ _ _ _ ↦ True := by
  rintro first last value hrun -
  cases hrun
  obtain ⟨read, hpasses⟩ := first.exists_passes_resynchronize
  exact ⟨read, hpasses, True.intro⟩

/-- A view of the cursor, which passes nothing. -/
theorem view {view : Cursor → α} (hnext : ∀ value, Sound (next value) result) :
    Sound (.gets view >>= next) result :=
  fun first _ _ hrun hreported ↦ hnext (view first) hrun hreported

/-- The kind of the next token, which passes nothing. -/
theorem peek {next : Option TokenKind → Parse β}
    (hnext : ∀ kind, Sound (next kind) fun depth read rest reached ↦
      (read ++ rest).head? = kind → result depth read rest reached) :
    Sound (.gets Cursor.next? >>= next) result := by
  intro first last reached hrun hreported
  obtain ⟨read, hread, himp⟩ := hnext first.next? hrun hreported
  exact ⟨read, hread, himp (by rw [← hread.kinds_eq, first.next?_eq_head?])⟩

/-- Passing a token whose kind is known. -/
theorem pass {next : Unit → Parse β} {result : TokenKind → Reading β}
    (hnext : Sound (next ()) fun depth read rest reached ↦
      ∀ kind, result kind depth (kind :: read) rest reached) :
    Sound (Parse.advance >>= next) fun depth read rest reached ↦
      ∀ kind, (read ++ rest).head? = some kind → result kind depth read rest reached := by
  refine .bind .advance fun _ ↦ hnext.mono ?_
  intro depth read rest reached himp before hbefore kind hkind
  rw [List.append_assoc] at hkind
  rw [hkind] at hbefore
  rw [hbefore]
  exact himp kind

/-- A branch on whether the next token is of a given kind, in which case it is passed. -/
theorem ifAccept {kind : TokenKind} {yes no : Parse β}
    (hyes : Sound yes fun depth read rest reached ↦ result depth (kind :: read) rest reached)
    (hno : Sound no fun depth read rest reached ↦
      (read ++ rest).head? ≠ some kind → result depth read rest reached) :
    Sound (do if ← Parse.accept kind then yes else no) result := by
  refine .bind (.accept kind) fun found ↦ ?_
  cases found with
  | true =>
    refine hyes.mono ?_
    rintro depth read rest reached hresult before (⟨-, rfl⟩ | ⟨hfound, -⟩)
    · exact hresult
    · cases hfound
  | false =>
    refine hno.mono ?_
    rintro depth read rest reached hresult before (⟨hfound, -⟩ | ⟨-, rfl, hkind⟩)
    · cases hfound
    · exact hresult hkind

/-- A branch on whether the next token is of a given kind, which is not passed. -/
theorem ifAt {kind : TokenKind} {yes no : Parse β}
    (hyes : Sound yes fun depth read rest reached ↦
      (read ++ rest).head? = some kind → result depth read rest reached)
    (hno : Sound no fun depth read rest reached ↦
      (read ++ rest).head? ≠ some kind → result depth read rest reached) :
    Sound (do if ← Parse.isAt kind then yes else no) result := by
  intro first last reached hrun hreported
  change (if first.isAt kind = true then yes else no).run first = _ at hrun
  split at hrun
  · rename_i hkind
    obtain ⟨read, hread, himp⟩ := hyes hrun hreported
    exact ⟨read, hread, himp (by rw [← hread.kinds_eq, Cursor.isAt_iff.mp hkind])⟩
  · rename_i hkind
    obtain ⟨read, hread, himp⟩ := hno hrun hreported
    refine ⟨read, hread, himp ?_⟩
    rw [← hread.kinds_eq]
    exact fun h ↦ hkind (Cursor.isAt_iff.mpr h)

/-- A branch on whether the next token writes an operator. -/
theorem operator {ω : Type} {ofToken? : TokenKind → Option ω} {next : Option ω → Parse β}
    (hnone : Sound (next none) result)
    (hsome : ∀ operator, Sound (next (some operator)) fun depth read rest reached ↦
      ∀ kind, (read ++ rest).head? = some kind → ofToken? kind = some operator →
        result depth read rest reached) :
    Sound (operator? ofToken? >>= next) result := by
  intro first last reached hrun hreported
  change (next (first.next?.bind ofToken?)).run first = _ at hrun
  cases hoperator : first.next?.bind ofToken? with
  | none =>
    rw [hoperator] at hrun
    exact hnone hrun hreported
  | some operator =>
    rw [hoperator] at hrun
    obtain ⟨kind, hkind, hof⟩ := Option.bind_eq_some_iff.mp hoperator
    obtain ⟨read, hread, himp⟩ := hsome operator hrun hreported
    refine ⟨read, hread, himp kind ?_ hof⟩
    rw [← hread.kinds_eq, ← first.next?_eq_head?, hkind]

/-- If a token that has to come next is not there, this is reported. -/
theorem expect (kind : TokenKind) : Sound (expect kind) fun _ read _ _ ↦ read = [kind] := by
  refine .view fun found ↦ .ifAccept ?_ (.failHere _)
  exact .gets fun _ ↦ rfl

/-- The name that is yielded is the one of the token that has been passed. The token that was looked
at is the one that is passed. -/
theorem identifier (place : NamePlace) :
    Sound (identifier place) fun _ read _ value ↦ read = [.identifier value.name] := by
  refine .peek fun kind ↦ ?_
  split
  · rename_i name
    suffices hknown : Sound _ fun _ read rest (value : Identifier) ↦ ∀ found,
        (read ++ rest).head? = some found → found = .identifier name →
          read = [.identifier value.name] from
      hknown.mono fun _ _ _ _ himp hkind ↦ himp _ hkind rfl
    refine .pass (.view fun span ↦ .pure ?_)
    rintro _ _ _ rfl
    rfl
  · exact .failHere _

/-- What is not there has been read from no tokens. -/
theorem optionally {item : Parse α} (hitem : Sound item reading) (condition : Bool) :
    Sound (optionally condition item) fun depth read rest value ↦
      (condition = true ∧ ∃ present, value = some present ∧ reading depth read rest present) ∨
        (condition = false ∧ read = [] ∧ value = none) := by
  cases condition with
  | true =>
    refine .bind hitem fun present ↦ .pure fun depth rest read hread ↦ .inl ⟨rfl, present, rfl, ?_⟩
    rwa [List.append_nil]
  | false => exact .pure fun _ _ ↦ .inr ⟨rfl, rfl, rfl⟩

/-- What is read as the body of a function is related as it should be with one more function open.
-/
theorem insideFunction {body : Parse α} (hbody : Sound body reading) :
    Sound (insideFunction body) fun depth read rest value ↦
      reading (depth + 1) read rest value := by
  intro first last value hrun hreported
  rw [Parse.insideFunction, Bounded.run_within] at hrun
  cases hinner : body.run { first with depth := first.depth + 1 } with
  | done inner reached =>
    rw [hinner] at hrun
    obtain ⟨rfl, rfl⟩ := Outcome.done.inj hrun
    obtain ⟨read, hread, hreading⟩ := hbody hinner hreported
    refine ⟨read, ⟨hread.kinds_eq, hread.reported_eq, ?_⟩, hreading⟩
    exact congrArg (· - 1) hread.depth_eq
  | failed error reached =>
    rw [hinner] at hrun
    cases hrun
  | exhausted =>
    rw [hinner] at hrun
    cases hrun

/-- A failure may be caught where what follows it cannot be read without an error. -/
theorem attempt {next : Except SyntaxError α → Parse β} (hparse : Sound parse reading)
    (hok : ∀ value, Sound (next (.ok value)) fun depth read rest reached ↦
      ∀ before, reading depth before (read ++ rest) value →
        result depth (before ++ read) rest reached)
    (herror : ∀ error, Sound (next (.error error)) fun _ _ _ _ ↦ False) :
    Sound (parse.attempt >>= next) result := by
  intro first last reached hrun hreported
  obtain ⟨attempted, middle, hfirst, hsecond⟩ := Bounded.run_bind_eq_done.mp hrun
  rw [Bounded.run_attempt] at hfirst
  cases hinner : parse.run first with
  | done value state =>
    rw [hinner] at hfirst
    obtain ⟨rfl, rfl⟩ := Outcome.done.inj hfirst
    have hwhole : (parse >>= fun value ↦ next (.ok value)).run first = .done reached last :=
      Bounded.run_bind_eq_done.mpr ⟨value, state, hinner, hsecond⟩
    exact Sound.bind hparse hok hwhole hreported
  | failed error state =>
    rw [hinner] at hfirst
    obtain ⟨rfl, rfl⟩ := Outcome.done.inj hfirst
    obtain ⟨-, -, hfalse⟩ := herror error hsecond hreported
    exact hfalse.elim
  | exhausted =>
    rw [hinner] at hfirst
    cases hfirst

end Sound

end Parse

end Lox
