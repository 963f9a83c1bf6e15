import Lox.Proofs.Syntax.Reading
import Lox.Proofs.Syntax.SpanErasure

/-!
# What a parser takes

A parser *takes* certain tokens in front of others if it reads just these, reports nothing and
yields a value that is as it should be: `Parse.Takes`. The cursor is not looked at apart from the
number of function bodies that are open.

There is one lemma for each elementary step, and `Parse.Takes.bind` for chains of them.
`Parse.Takes.peek` and `Parse.Takes.token` are the cases of it in which the first step passes
nothing or a single token.
-/

set_option autoImplicit false
set_option relaxedAutoImplicit false

namespace Lox

namespace Parse

variable {α β : Type}

/-- Where certain tokens come next, and certain others behind them, just the former are passed. -/
def Takes (depth : Nat) (parse : Parse α) (read rest : List TokenKind) (good : α → Prop) : Prop :=
  ∀ first : Cursor, first.kinds = read ++ rest → first.depth = depth →
    ∃ value last, parse.run first = .done value last ∧ first.Passes read last ∧ good value

namespace Takes

variable {depth : Nat} {parse : Parse α} {next : α → Parse β} {read more rest : List TokenKind}
  {good other : α → Prop} {result : β → Prop}

/-- A value that is good is good in any weaker sense. -/
theorem mono (hparse : Takes depth parse read rest good)
    (himp : ∀ value, good value → other value) : Takes depth parse read rest other := by
  intro first hkinds hdepth
  obtain ⟨value, last, hrun, hpasses, hgood⟩ := hparse first hkinds hdepth
  exact ⟨value, last, hrun, hpasses, himp value hgood⟩

theorem pure {value : α} (hvalue : good value) : Takes depth (Pure.pure value) [] rest good :=
  fun first _ _ ↦ ⟨value, first, rfl, .refl first, hvalue⟩

/-- If the first parser takes its tokens in front of those of the second, which has to take them
whatever the first has yielded, then both together take all of them. -/
theorem bind (hparse : Takes depth parse read (more ++ rest) good)
    (hnext : ∀ value, good value → Takes depth (next value) more rest result) :
    Takes depth (parse >>= next) (read ++ more) rest result := by
  intro first hkinds hdepth
  rw [List.append_assoc] at hkinds
  obtain ⟨value, middle, hfirst, hread, hgood⟩ := hparse first hkinds hdepth
  have hmiddle : middle.kinds = more ++ rest := by
    rw [hread.kinds_eq] at hkinds
    exact List.append_cancel_left hkinds
  obtain ⟨reached, last, hsecond, hmore, hresult⟩ :=
    hnext value hgood middle hmiddle (hread.depth_eq.trans hdepth)
  refine ⟨reached, last, ?_, hread.trans hmore, hresult⟩
  rw [Bounded.run_bind_of_done hfirst, hsecond]

/-- A chain of which the first step passes nothing. -/
theorem peek (hparse : Takes depth parse [] (read ++ rest) good)
    (hnext : ∀ value, good value → Takes depth (next value) read rest result) :
    Takes depth (parse >>= next) read rest result :=
  bind hparse hnext

/-- A chain of which the first step passes a token. -/
theorem token {kind : TokenKind} (hparse : Takes depth parse [kind] (read ++ rest) good)
    (hnext : ∀ value, good value → Takes depth (next value) read rest result) :
    Takes depth (parse >>= next) (kind :: read) rest result :=
  bind hparse hnext

/-- A chain of which the last step passes nothing. -/
theorem last (hparse : Takes depth parse read rest good)
    (hnext : ∀ value, good value → Takes depth (next value) [] rest result) :
    Takes depth (parse >>= next) read rest result := by
  have hbind : Takes depth (parse >>= next) (read ++ []) rest result := bind hparse hnext
  rwa [List.append_nil] at hbind

/-- Converting the value makes no difference to the tokens. -/
theorem map {convert : α → β}
    (hparse : Takes depth parse read rest fun value ↦ result (convert value)) :
    Takes depth (convert <$> parse) read rest result := by
  rw [← bind_pure_comp]
  exact hparse.last fun _ ↦ pure

/-- A look at the cursor takes no tokens. -/
theorem view (view : Cursor → α) : Takes depth (.gets view) [] rest fun _ ↦ True :=
  fun first _ _ ↦ ⟨view first, first, rfl, .refl first, True.intro⟩

/-- It is known how many function bodies are open. -/
theorem depth? : Takes depth (.gets Cursor.depth) [] rest fun value ↦ value = depth :=
  fun first _ hdepth ↦ ⟨first.depth, first, rfl, .refl first, hdepth⟩

/-- The next token is the first of those that remain. -/
theorem next? : Takes depth (.gets Cursor.next?) [] rest fun kind ↦ kind = rest.head? := by
  intro first hkinds _
  refine ⟨first.next?, first, rfl, .refl first, ?_⟩
  rw [first.next?_eq_head?, hkinds]
  rfl

theorem isAt (kind : TokenKind) :
    Takes depth (isAt kind) [] rest fun found ↦ found = decide (rest.head? = some kind) := by
  intro first hkinds _
  refine ⟨first.isAt kind, first, rfl, .refl first, ?_⟩
  rw [Cursor.isAt, first.next?_eq_head?, hkinds]
  rfl

/-- Whether an operator comes next is known from the kind of the next token alone. -/
theorem operator? {ω : Type} (ofToken? : TokenKind → Option ω) :
    Takes depth (operator? ofToken?) [] rest fun found ↦ found = rest.head?.bind ofToken? := by
  intro first hkinds _
  refine ⟨first.next?.bind ofToken?, first, rfl, .refl first, ?_⟩
  rw [first.next?_eq_head?, hkinds]
  rfl

theorem advance (kind : TokenKind) : Takes depth advance [kind] rest fun _ ↦ True := by
  intro first hkinds _
  have hpasses := first.passes_advance
  rw [hkinds] at hpasses
  exact ⟨(), first.advance, rfl, hpasses, True.intro⟩

/-- A token that is looked for is passed if it comes next. -/
theorem accept (kind : TokenKind) :
    Takes depth (accept kind) [kind] rest fun found ↦ found = true := by
  intro first hkinds hdepth
  have hat : first.isAt kind = true := by
    rw [Cursor.isAt_iff, hkinds]
    rfl
  obtain ⟨_, last, hrun, hpasses, -⟩ := advance kind first hkinds hdepth
  cases hrun
  refine ⟨true, first.advance, ?_, hpasses, rfl⟩
  rw [Parse.accept, Bounded.run_update, if_pos hat]

/-- Otherwise nothing is passed. -/
theorem refuse {kind : TokenKind} (hkind : rest.head? ≠ some kind) :
    Takes depth (Parse.accept kind) [] rest fun found ↦ found = false := by
  intro first hkinds _
  have hat : ¬first.isAt kind = true := by
    rwa [Cursor.isAt_iff, hkinds]
  refine ⟨false, first, ?_, .refl first, rfl⟩
  rw [Parse.accept, Bounded.run_update, if_neg hat]

section Branches

variable {kind : TokenKind} {yes no : Parse α}

/-- If the token that decides comes next, the first branch follows behind it. -/
theorem ifAccepted (hyes : Takes depth yes read rest good) :
    Takes depth (do if ← Parse.accept kind then yes else no) (kind :: read) rest good := by
  refine .token (.accept kind) fun accepted haccepted ↦ ?_
  rwa [haccepted, if_pos rfl]

/-- If another one does, the second branch follows where the parser stands. -/
theorem ifRefused (hkind : (read ++ rest).head? ≠ some kind) (hno : Takes depth no read rest good) :
    Takes depth (do if ← Parse.accept kind then yes else no) read rest good := by
  refine .peek (.refuse hkind) fun accepted haccepted ↦ ?_
  rwa [haccepted, if_neg Bool.false_ne_true]

/-- The token may also decide without being passed. Then the first branch begins with it. -/
theorem ifAt (hkind : (read ++ rest).head? = some kind) (hyes : Takes depth yes read rest good) :
    Takes depth (do if ← Parse.isAt kind then yes else no) read rest good := by
  refine .peek (.isAt kind) fun found hfound ↦ ?_
  rwa [hfound, if_pos (decide_eq_true hkind)]

theorem ifNotAt (hkind : (read ++ rest).head? ≠ some kind) (hno : Takes depth no read rest good) :
    Takes depth (do if ← Parse.isAt kind then yes else no) read rest good := by
  refine .peek (.isAt kind) fun found hfound ↦ ?_
  rwa [hfound, decide_eq_false hkind, if_neg Bool.false_ne_true]

end Branches

/-- A token that has to come next is passed without an error. -/
theorem expect (kind : TokenKind) : Takes depth (expect kind) [kind] rest fun _ ↦ True := by
  refine .peek .next? fun found _ ↦ .last (accept kind) fun accepted haccepted ↦ ?_
  rw [haccepted]
  exact .view _

/-- A name is passed, wherever it is expected. -/
theorem identifier (place : NamePlace) (name : String) :
    Takes depth (identifier place) [.identifier name] rest fun value ↦
      value.eraseSpan = ⟨name, .origin⟩ := by
  refine .peek .next? fun kind hkind ↦ ?_
  obtain rfl : kind = some (.identifier name) := hkind
  refine .last (advance _) fun _ _ ↦ .peek (.view _) fun span _ ↦ .pure rfl

theorem optionally {item : Parse α} (hitem : Takes depth item read rest good) :
    Takes depth (optionally true item) read rest fun value ↦
      ∃ present, value = some present ∧ good present :=
  hitem.last fun present hpresent ↦ .pure ⟨present, rfl, hpresent⟩

/-- What is not there takes no tokens. -/
theorem omitted (item : Parse α) :
    Takes depth (Parse.optionally false item) [] rest fun value ↦ value = none :=
  .pure rfl

/-- The body of a function is taken with one more of them open, and afterwards there are as many as
before. -/
theorem insideFunction {body : Parse α} (hbody : Takes (depth + 1) body read rest good) :
    Takes depth (insideFunction body) read rest good := by
  intro first hkinds hdepth
  obtain ⟨value, last, hrun, hpasses, hgood⟩ :=
    hbody { first with depth := first.depth + 1 } hkinds (congrArg (· + 1) hdepth)
  refine ⟨value, { last with depth := last.depth - 1 }, ?_, ?_, hgood⟩
  · rw [Parse.insideFunction, Bounded.run_within, hrun]
  · exact ⟨hpasses.kinds_eq, hpasses.reported_eq, congrArg (· - 1) hpasses.depth_eq⟩

/-- A parser that takes its tokens has nothing for an attempt to catch. -/
theorem attempt (hparse : Takes depth parse read rest good) :
    Takes depth parse.attempt read rest fun attempted ↦
      ∃ value, attempted = .ok value ∧ good value := by
  intro first hkinds hdepth
  obtain ⟨value, last, hrun, hpasses, hgood⟩ := hparse first hkinds hdepth
  refine ⟨.ok value, last, ?_, hpasses, value, rfl, hgood⟩
  rw [Bounded.run_attempt, hrun]

end Takes

end Parse

end Lox
