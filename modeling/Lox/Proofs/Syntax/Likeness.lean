import Lox.Proofs.Syntax.Reading
import Mathlib.Data.List.Forall2

/-!
# Readings that are alike

Two readings may start from different cursors and have different bounds, and still go the same way.
A `Likeness` says which cursors, places, causes of errors and trees of the two count as alike, and
`Likeness.Agree` that two readings end alike: both are done or both fail, with values or errors that
are alike, and neither exhausts its bound. There is one lemma for each way in which readings are put
together, as with `Parse.Takes`.

`Likeness.HeldBySteps` asks that single steps lead from cursors that are alike to cursors that are,
and `Likeness.Congruent` that the trees put together from parts that are alike are alike.
-/

set_option autoImplicit false
set_option relaxedAutoImplicit false

namespace Lox

/-- What counts as alike in two readings. -/
structure Likeness where
  cursors : Cursor → Cursor → Prop
  spans : Span → Span → Prop
  causes : SyntaxCause → SyntaxCause → Prop
  expressions : Expr → Expr → Prop
  statements : Stmt → Stmt → Prop

namespace Likeness

variable (alike : Likeness) {α β ω : Type}

/-- Errors with causes and places that are alike. -/
structure Errors (error error' : SyntaxError) : Prop where
  causes : alike.causes error.cause error'.cause
  spans : alike.spans error.span error'.span

/-- The same name at places that are alike. -/
structure Identifiers (identifier identifier' : Identifier) : Prop where
  name_eq : identifier.name = identifier'.name
  spans : alike.spans identifier.span identifier'.span

/-- Two cursors that are alike, behind two others. -/
structure Follow (first first' last last' : Cursor) : Prop where
  cursors : alike.cursors last last'
  suffix : last.rest <:+ first.rest
  suffix' : last'.rest <:+ first'.rest

/-- Two cursors that are alike, with fewer tokens left than two limits say. -/
structure Fits (limit limit' : Nat) (first first' : Cursor) : Prop where
  cursors : alike.cursors first first'
  lt : first.rest.length < limit
  lt' : first'.rest.length < limit'

/-- From two cursors, two readings are done, with values of a certain kind. -/
def Finish (first first' : Cursor) (parse parse' : Parse α)
    (yields : α → α → Cursor → Cursor → Prop) : Prop :=
  ∃ value value' last last', parse.run first = .done value last ∧
    parse'.run first' = .done value' last' ∧ alike.Follow first first' last last' ∧
      yields value value' last last'

/-- From two cursors, two readings end alike: both are done, with values of a certain kind, or both
fail, with errors that are alike. -/
def Agree (first first' : Cursor) (parse parse' : Parse α)
    (yields : α → α → Cursor → Cursor → Prop) : Prop :=
  alike.Finish first first' parse parse' yields ∨
  ∃ error error' last last', parse.run first = .failed error last ∧
    parse'.run first' = .failed error' last' ∧ alike.Follow first first' last last' ∧
      alike.Errors error error'

/-- From cursors that are alike, with fewer tokens left than two limits say, two readings end alike.
-/
def Reads (limit limit' : Nat) (values : α → α → Prop) (parse parse' : Parse α) : Prop :=
  ∀ first first', alike.Fits limit limit' first first' →
    alike.Agree first first' parse parse' fun value value' _ _ ↦ values value value'

/-- Both readings have fewer tokens left than before. -/
structure Ahead (first first' last last' : Cursor) : Prop where
  lt : last.rest.length < first.rest.length
  lt' : last'.rest.length < first'.rest.length

/-- As `Reads`, and if the readings are done, they have passed tokens. -/
def Consumes (limit limit' : Nat) (values : α → α → Prop) (parse parse' : Parse α) : Prop :=
  ∀ first first', alike.Fits limit limit' first first' →
    alike.Agree first first' parse parse' fun value value' last last' ↦
      values value value' ∧ Ahead first first' last last'

/-- Expressions put together from parts that are alike are alike, and so are their places. -/
structure CongruentExpressions : Prop where
  join : ∀ {first first' last last'}, alike.spans first first' → alike.spans last last' →
    alike.spans ⟨first.start, last.stop⟩ ⟨first'.start, last'.stop⟩
  union : ∀ {first first' last last'}, alike.spans first first' → alike.spans last last' →
    alike.spans (first.union last) (first'.union last')
  span : ∀ {tree tree'}, alike.expressions tree tree' → alike.spans tree.span tree'.span
  isName : ∀ {tree tree'}, alike.expressions tree tree' →
    (∃ target target', tree = .name target ∧ tree' = .name target' ∧
      alike.Identifiers target target') ∨
    ((∀ target, tree ≠ .name target) ∧ ∀ target, tree' ≠ .name target)
  literal : ∀ {value span span'}, alike.spans span span' →
    alike.expressions (.literal value span) (.literal value span')
  grouping : ∀ {inner inner' span span'}, alike.expressions inner inner' →
    alike.spans span span' → alike.expressions (.grouping inner span) (.grouping inner' span')
  unary : ∀ {operator operand operand' span span'}, alike.expressions operand operand' →
    alike.spans span span' →
      alike.expressions (.unary operator operand span) (.unary operator operand' span')
  binary : ∀ {operator left left' right right' span span'}, alike.expressions left left' →
    alike.expressions right right' → alike.spans span span' →
      alike.expressions (.binary operator left right span) (.binary operator left' right' span')
  logical : ∀ {operator left left' right right' span span'}, alike.expressions left left' →
    alike.expressions right right' → alike.spans span span' →
      alike.expressions (.logical operator left right span) (.logical operator left' right' span')
  name : ∀ {identifier identifier'}, alike.Identifiers identifier identifier' →
    alike.expressions (.name identifier) (.name identifier')
  assign : ∀ {target target' value value' span span'}, alike.Identifiers target target' →
    alike.expressions value value' → alike.spans span span' →
      alike.expressions (.assign target value span) (.assign target' value' span')
  call : ∀ {callee callee' arguments arguments' span span'}, alike.expressions callee callee' →
    List.Forall₂ alike.expressions arguments arguments' → alike.spans span span' →
      alike.expressions (.call callee arguments span) (.call callee' arguments' span')

/-- Trees put together from parts that are alike are alike. -/
structure Congruent : Prop extends alike.CongruentExpressions where
  expression : ∀ {value value'}, alike.expressions value value' →
    alike.statements (.expression value) (.expression value')
  print : ∀ {value value'}, alike.expressions value value' →
    alike.statements (.print value) (.print value')
  declare : ∀ {target target' initializer initializer'}, alike.Identifiers target target' →
    Option.Rel alike.expressions initializer initializer' →
      alike.statements (.declare target initializer) (.declare target' initializer')
  block : ∀ {body body'}, List.Forall₂ alike.statements body body' →
    alike.statements (.block body) (.block body')
  conditional : ∀ {condition condition' thenBranch thenBranch' elseBranch elseBranch'},
    alike.expressions condition condition' → alike.statements thenBranch thenBranch' →
      Option.Rel alike.statements elseBranch elseBranch' →
        alike.statements (.conditional condition thenBranch elseBranch)
          (.conditional condition' thenBranch' elseBranch')
  loop : ∀ {condition condition' body body'}, alike.expressions condition condition' →
    alike.statements body body' → alike.statements (.loop condition body) (.loop condition' body')
  function : ∀ {identifier identifier' parameters parameters' body body' span span'},
    alike.Identifiers identifier identifier' →
      List.Forall₂ alike.Identifiers parameters parameters' →
        List.Forall₂ alike.statements body body' → alike.spans span span' →
          alike.statements (.function identifier parameters body span)
            (.function identifier' parameters' body' span')
  «return» : ∀ {value value' span span'}, Option.Rel alike.expressions value value' →
    alike.spans span span' → alike.statements (.return value span) (.return value' span')

/-- Single steps lead from cursors that are alike to cursors that are. The end of the input may be a
token or the lack of one. -/
structure HeldBySteps : Prop where
  congruent : alike.Congruent
  next_eq : ∀ {first first'}, alike.cursors first first' →
    first.next?.getD .endOfInput = first'.next?.getD .endOfInput
  depth_eq : ∀ {first first'}, alike.cursors first first' → first.depth = first'.depth
  place : ∀ {first first'}, alike.cursors first first' → alike.spans first.place first'.place
  cause : ∀ cause, alike.causes cause cause
  unexpected : ∀ {first first'} (kind : TokenKind), alike.cursors first first' →
    alike.causes (.unexpectedToken kind first.next?) (.unexpectedToken kind first'.next?)
  advance : ∀ {first first'}, alike.cursors first first' →
    alike.cursors first.advance first'.advance
  report : ∀ {first first' error error'}, alike.cursors first first' →
    alike.Errors error error' → alike.cursors (first.report error) (first'.report error')
  resynchronize : ∀ {first first'}, alike.cursors first first' →
    alike.cursors first.resynchronize first'.resynchronize
  within : ∀ {first first'} (depth : Nat), alike.cursors first first' →
    alike.cursors { first with depth } { first' with depth }

variable {alike} {first first' : Cursor} {limit limit' : Nat}

/-! ### Readings put together -/

/-- Cursors that follow others that follow the first ones follow these. -/
theorem Follow.trans {middle middle' last last' : Cursor}
    (hfirst : alike.Follow first first' middle middle')
    (hsecond : alike.Follow middle middle' last last') : alike.Follow first first' last last' :=
  ⟨hsecond.cursors, hsecond.suffix.trans hfirst.suffix, hsecond.suffix'.trans hfirst.suffix'⟩

/-- Cursors that are alike follow themselves. -/
theorem Follow.refl (hcursors : alike.cursors first first') :
    alike.Follow first first' first first' :=
  ⟨hcursors, List.suffix_refl _, List.suffix_refl _⟩

/-- Bounds that suffice suffice further on, as fewer tokens are left there. -/
theorem Fits.follow {last last' : Cursor} (hfits : alike.Fits limit limit' first first')
    (hfollow : alike.Follow first first' last last') : alike.Fits limit limit' last last' :=
  ⟨hfollow.cursors, Nat.lt_of_le_of_lt hfollow.suffix.length_le hfits.lt,
    Nat.lt_of_le_of_lt hfollow.suffix'.length_le hfits.lt'⟩

/-- Larger bounds do as well. -/
theorem Fits.mono {larger larger' : Nat} (hfits : alike.Fits limit limit' first first')
    (hle : limit ≤ larger) (hle' : limit' ≤ larger') : alike.Fits larger larger' first first' :=
  ⟨hfits.cursors, Nat.lt_of_lt_of_le hfits.lt hle, Nat.lt_of_lt_of_le hfits.lt' hle'⟩

theorem Fits.succ (hfits : alike.Fits limit limit' first first') :
    alike.Fits (limit + 1) (limit' + 1) first first' :=
  hfits.mono (Nat.le_succ _) (Nat.le_succ _)

/-- Limits that leave room for tokens are not zero. -/
theorem Fits.exists_succ (hfits : alike.Fits limit limit' first first') :
    ∃ smaller smaller', limit = smaller + 1 ∧ limit' = smaller' + 1 :=
  ⟨limit - 1, limit' - 1, by have := hfits.lt; omega, by have := hfits.lt'; omega⟩

namespace Finish

variable {parse parse' : Parse α} {yields : α → α → Cursor → Cursor → Prop}
  {next next' : α → Parse β} {result : β → β → Cursor → Cursor → Prop}

/-- Values that are alike are alike in every weaker sense. -/
theorem mono {wider : α → α → Cursor → Cursor → Prop}
    (hparse : alike.Finish first first' parse parse' yields)
    (himp : ∀ value value' last last', alike.Follow first first' last last' →
      yields value value' last last' → wider value value' last last') :
    alike.Finish first first' parse parse' wider := by
  obtain ⟨value, value', last, last', hrun, hrun', hfollow, hvalues⟩ := hparse
  exact ⟨value, value', last, last', hrun, hrun', hfollow, himp _ _ _ _ hfollow hvalues⟩

/-- Readings that go on as others do from later cursors. -/
theorem later {later later' : Parse α} {middle middle' : Cursor}
    (hrun : parse.run first = later.run middle) (hrun' : parse'.run first' = later'.run middle')
    (hsuffix : middle.rest <:+ first.rest) (hsuffix' : middle'.rest <:+ first'.rest)
    (hlater : alike.Finish middle middle' later later' yields) :
    alike.Finish first first' parse parse' yields := by
  obtain ⟨value, value', last, last', hdone, hdone', hlast, hvalues⟩ := hlater
  exact ⟨value, value', last, last', hrun.trans hdone, hrun'.trans hdone',
    ⟨hlast.cursors, hlast.suffix.trans hsuffix, hlast.suffix'.trans hsuffix'⟩, hvalues⟩

/-- Chains of which the first steps are known. -/
theorem behind {value value' : α} {middle middle' : Cursor}
    (hrun : parse.run first = .done value middle) (hrun' : parse'.run first' = .done value' middle')
    (hsuffix : middle.rest <:+ first.rest) (hsuffix' : middle'.rest <:+ first'.rest)
    (hnext : alike.Finish middle middle' (next value) (next' value') result) :
    alike.Finish first first' (parse >>= next) (parse' >>= next') result :=
  later (Bounded.run_bind_of_done hrun) (Bounded.run_bind_of_done hrun') hsuffix hsuffix' hnext

/-- If first parts finish alike, and second ones do from wherever the first may have come to, then
so do both together. -/
theorem bind (hparse : alike.Finish first first' parse parse' yields)
    (hnext : ∀ value value' middle middle', alike.Follow first first' middle middle' →
      yields value value' middle middle' →
        alike.Finish middle middle' (next value) (next' value') result) :
    alike.Finish first first' (parse >>= next) (parse' >>= next') result := by
  obtain ⟨value, value', middle, middle', hrun, hrun', hfollow, hvalues⟩ := hparse
  exact behind hrun hrun' hfollow.suffix hfollow.suffix'
    (hnext value value' middle middle' hfollow hvalues)

/-- Views of the cursors, which pass nothing. -/
theorem view {γ : Type} {view view' : Cursor → γ} {next next' : γ → Parse β}
    (hnext : alike.Finish first first' (next (view first)) (next' (view' first')) result) :
    alike.Finish first first' (.gets view >>= next) (.gets view' >>= next') result := hnext

/-- From cursors that are alike, values that are alike may be yielded. -/
theorem pure {value value' : α} (hcursors : alike.cursors first first')
    (hvalue : yields value value' first first') :
    alike.Finish first first' (Pure.pure value) (Pure.pure value') yields :=
  ⟨value, value', first, first', rfl, rfl, .refl hcursors, hvalue⟩

/-- Changes of the cursors may be made if they lead on to cursors that are alike. -/
theorem modify {change change' : Cursor → Cursor}
    (hfollow : alike.Follow first first' (change first) (change' first')) :
    alike.Finish first first' (.modify change) (.modify change') fun _ _ last last' ↦
      last = change first ∧ last' = change' first' :=
  ⟨(), (), _, _, rfl, rfl, hfollow, rfl, rfl⟩

end Finish

namespace Agree

variable {parse parse' : Parse α} {yields : α → α → Cursor → Cursor → Prop}
  {next next' : α → Parse β} {result : β → β → Cursor → Cursor → Prop}

theorem mono {wider : α → α → Cursor → Cursor → Prop}
    (hparse : alike.Agree first first' parse parse' yields)
    (himp : ∀ value value' last last', alike.Follow first first' last last' →
      yields value value' last last' → wider value value' last last') :
    alike.Agree first first' parse parse' wider := by
  exact hparse.imp_left fun hdone ↦ Finish.mono hdone himp

/-- Chains of which the first steps are known. -/
theorem behind {value value' : α} {middle middle' : Cursor}
    (hrun : parse.run first = .done value middle) (hrun' : parse'.run first' = .done value' middle')
    (hsuffix : middle.rest <:+ first.rest) (hsuffix' : middle'.rest <:+ first'.rest)
    (hnext : alike.Agree middle middle' (next value) (next' value') result) :
    alike.Agree first first' (parse >>= next) (parse' >>= next') result := by
  rcases hnext with hdone | ⟨error, error', last, last', hnext, hnext', hlast, herrors⟩
  · exact .inl (.behind hrun hrun' hsuffix hsuffix' hdone)
  · refine .inr ⟨error, error', last, last', ?_, ?_,
      ⟨hlast.cursors, hlast.suffix.trans hsuffix, hlast.suffix'.trans hsuffix'⟩, herrors⟩
    · rwa [Bounded.run_bind_of_done hrun]
    · rwa [Bounded.run_bind_of_done hrun']

/-- If first parts agree and second ones agree wherever the first have come to, then both together
agree. Where the first parts fail, the second ones are not looked at. -/
theorem bind (hparse : alike.Agree first first' parse parse' yields)
    (hnext : ∀ value value' middle middle', alike.Follow first first' middle middle' →
      yields value value' middle middle' →
        alike.Agree middle middle' (next value) (next' value') result) :
    alike.Agree first first' (parse >>= next) (parse' >>= next') result := by
  rcases hparse with ⟨value, value', middle, middle', hrun, hrun', hfollow, hvalues⟩ |
    ⟨error, error', last, last', hrun, hrun', hfollow, herrors⟩
  · exact behind hrun hrun' hfollow.suffix hfollow.suffix'
      (hnext value value' middle middle' hfollow hvalues)
  · refine .inr ⟨error, error', last, last', ?_, ?_, hfollow, herrors⟩
    · rw [Bounded.run_bind, hrun]
    · rw [Bounded.run_bind, hrun']

/-- Yielding values that are alike is the end of readings that agree. -/
theorem pure {value value' : α} (hcursors : alike.cursors first first')
    (hvalue : yields value value' first first') :
    alike.Agree first first' (Pure.pure value) (Pure.pure value') yields :=
  .inl (Finish.pure hcursors hvalue)

/-- What two readings see at cursors that are alike has to be alike as well. -/
theorem gets {view view' : Cursor → α} (hcursors : alike.cursors first first')
    (hview : yields (view first) (view' first') first first') :
    alike.Agree first first' (.gets view) (.gets view') yields :=
  .inl ⟨_, _, first, first', rfl, rfl, .refl hcursors, hview⟩

/-- Views of the cursors, which pass nothing. -/
theorem view {view view' : Cursor → α}
    (hnext : alike.Agree first first' (next (view first)) (next' (view' first')) result) :
    alike.Agree first first' (.gets view >>= next) (.gets view' >>= next') result := hnext

theorem modify {change change' : Cursor → Cursor}
    (hfollow : alike.Follow first first' (change first) (change' first')) :
    alike.Agree first first' (.modify change) (.modify change') fun _ _ last last' ↦
      last = change first ∧ last' = change' first' :=
  .inl (Finish.modify hfollow)

/-- Values may be converted if they are alike afterwards. -/
theorem map {convert convert' : α → β}
    (hparse : alike.Agree first first' parse parse' fun value value' last last' ↦
      result (convert value) (convert' value') last last') :
    alike.Agree first first' (convert <$> parse) (convert' <$> parse') result := by
  rw [← bind_pure_comp, ← bind_pure_comp]
  exact hparse.bind fun _ _ _ _ hfollow hvalues ↦ .pure hfollow.cursors hvalues

/-- Failures are handed on as values. -/
theorem attempt (hparse : alike.Agree first first' parse parse' yields) :
    alike.Finish first first' parse.attempt parse'.attempt fun attempted attempted' last last' ↦
      (∃ value value', attempted = .ok value ∧ attempted' = .ok value' ∧
        yields value value' last last') ∨
      ∃ error error', attempted = .error error ∧ attempted' = .error error' ∧
        alike.Errors error error' := by
  unfold Finish
  rw [Bounded.run_attempt, Bounded.run_attempt]
  rcases hparse with ⟨value, value', last, last', hrun, hrun', hfollow, hvalues⟩ |
    ⟨error, error', last, last', hrun, hrun', hfollow, herrors⟩
  · rw [hrun, hrun']
    exact ⟨_, _, last, last', rfl, rfl, hfollow, .inl ⟨value, value', rfl, rfl, hvalues⟩⟩
  · rw [hrun, hrun']
    exact ⟨_, _, last, last', rfl, rfl, hfollow, .inr ⟨error, error', rfl, rfl, herrors⟩⟩

/-- The body of a function is read with one more of them open in both of the readings. Leaving it
has to keep the cursors alike, and the values. -/
theorem insideFunction {result : α → α → Cursor → Cursor → Prop}
    (hinner : alike.Agree { first with depth := first.depth + 1 }
      { first' with depth := first'.depth + 1 } parse parse' yields)
    (hleave : ∀ {last last'}, alike.cursors last last' →
      alike.cursors { last with depth := last.depth - 1 } { last' with depth := last'.depth - 1 })
    (hresult : ∀ {value value' last last'}, yields value value' last last' → result value value'
      { last with depth := last.depth - 1 } { last' with depth := last'.depth - 1 }) :
    alike.Agree first first' (Parse.insideFunction parse) (Parse.insideFunction parse') result := by
  unfold Agree Finish
  rw [Parse.insideFunction, Parse.insideFunction, Bounded.run_within, Bounded.run_within]
  rcases hinner with ⟨value, value', last, last', hrun, hrun', hfollow, hvalues⟩ |
    ⟨error, error', last, last', hrun, hrun', hfollow, herrors⟩
  · rw [hrun, hrun']
    exact .inl ⟨value, value', _, _, rfl, rfl,
      ⟨hleave hfollow.cursors, hfollow.suffix, hfollow.suffix'⟩, hresult hvalues⟩
  · rw [hrun, hrun']
    exact .inr ⟨error, error', _, _, rfl, rfl,
      ⟨hleave hfollow.cursors, hfollow.suffix, hfollow.suffix'⟩, herrors⟩

/-- What is read behind a token of two readings has passed tokens. -/
theorem ahead {kind kind' : TokenKind} (hnext : first.next? = some kind)
    (hnext' : first'.next? = some kind')
    (hparse : alike.Agree first.advance first'.advance parse parse' yields) :
    alike.Agree first.advance first'.advance parse parse' fun value value' last last' ↦
      yields value value' last last' ∧ Ahead first first' last last' := by
  refine hparse.mono fun value value' last last' hfollow hvalues ↦ ⟨hvalues, ?_, ?_⟩
  · have hlength := Cursor.length_rest_advance hnext
    have hle := hfollow.suffix.length_le
    omega
  · have hlength := Cursor.length_rest_advance hnext'
    have hle := hfollow.suffix'.length_le
    omega

/-- What may be missing is there in both of the readings or in neither. -/
theorem optionally (condition : Bool) {values : α → α → Prop}
    (hparse : alike.Reads limit limit' values parse parse')
    (hfits : alike.Fits limit limit' first first') :
    alike.Agree first first' (Parse.optionally condition parse) (Parse.optionally condition parse')
      fun value value' _ _ ↦ Option.Rel values value value' := by
  unfold Parse.optionally
  split
  · exact (hparse _ _ hfits).bind fun _ _ _ _ hlast hvalues ↦ .pure hlast.cursors (.some hvalues)
  · exact .pure hfits.cursors .none

end Agree

end Likeness

end Lox
