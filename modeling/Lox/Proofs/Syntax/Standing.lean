import Lox.Proofs.Lexical.Seam
import Lox.Proofs.Syntax.Nodes
import Lox.Proofs.Syntax.SpanShift

/-!
# Where expressions stand

`Expr.StandsOn` relates the tokens of an expression to its tree with all its places: each place is
made of the places of the tokens in the way that is right for the node. Levels do not matter here,
so the relation is about places only, and the tokens leave one way for a tree that is known apart
from its places (`Expr.StandsOn.unique`).

A tree covers its tokens from the start of the first to the end of the last
(`Expr.StandsOn.covers`), so that the parts of a node lie in it one after the other
(`Expr.StandsOn.childSpans_ordered`). Each node stands on tokens of its own, and the other tokens
write the same with a parenthesis before and after those (`Expr.StandsOn.occurrence`).
-/

set_option autoImplicit false
set_option relaxedAutoImplicit false

namespace Lox

open Grammar

/-- Tokens, and the tree that stands on them. -/
structure Stretch (α : Type) where
  tokens : List Token
  tree : α

/-- The token of a name. -/
def Identifier.token (identifier : Identifier) : Token :=
  ⟨.identifier identifier.name, identifier.span⟩

@[simp]
theorem Identifier.kind_token (identifier : Identifier) :
    identifier.token.kind = .identifier identifier.name := rfl

/-- A name and its place are known from its token. -/
theorem Identifier.token_injective : Function.Injective token := by
  rintro ⟨name, span⟩ ⟨name', span'⟩ htoken
  injection htoken with hkind hspan
  injection hkind with hname
  exact (Identifier.mk.injEq ..).mpr ⟨hname, hspan⟩

/-- The same tree on the same tokens, so much further on. -/
def Stretch.shift (distance : Nat) (stretch : Stretch Expr) : Stretch Expr :=
  ⟨stretch.tokens.map (Token.shift distance), stretch.tree.shift distance⟩

/-- Items with commas between them. -/
inductive Separated : List (List Token) → List Token → Prop
  | none : Separated [] []
  | single (item : List Token) : Separated [item] item
  | cons {second tokens : List Token} {others : List (List Token)} (first : List Token)
    (comma : Span) : Separated (second :: others) tokens →
    Separated (first :: second :: others) (first ++ ⟨.symbol .comma, comma⟩ :: tokens)

/-- The kinds of separated items are what the grammar has for the kinds of the items. -/
theorem Separated.kinds_eq {items : List (List Token)} {tokens : List Token}
    (hseparated : Separated items tokens) :
    tokens.map Token.kind = Grammar.separated (items.map (List.map Token.kind)) := by
  induction hseparated with
  | none => rfl
  | single => rfl
  | cons first comma _ ih => simp [Grammar.separated, ih]

/-- Commas move along with the items between which they stand. -/
theorem Separated.shift (distance : Nat) {items : List (List Token)} {tokens : List Token}
    (hseparated : Separated items tokens) :
    Separated (items.map (List.map (Token.shift distance)))
      (tokens.map (Token.shift distance)) := by
  induction hseparated with
  | none => exact .none
  | single => exact .single _
  | cons first comma _ ih =>
    rw [List.map_append, List.map_cons]
    exact .cons _ _ ih

/-- An item may be exchanged for another. -/
theorem Separated.exchange {before after : List (List Token)} {item tokens : List Token}
    (hseparated : Separated (before ++ item :: after) tokens) :
    ∃ first last, tokens = first ++ item ++ last ∧
      ∀ other, Separated (before ++ other :: after) (first ++ other ++ last) := by
  induction before generalizing tokens with
  | nil =>
    cases hseparated with
    | single => exact ⟨[], [], by simp, fun other ↦ by simpa using .single other⟩
    | @cons _ tokens _ _ comma hothers =>
      exact ⟨[], ⟨.symbol .comma, comma⟩ :: tokens, by simp, fun other ↦ .cons other comma hothers⟩
  | cons next before ih =>
    rw [List.cons_append] at hseparated
    generalize hitems : before ++ item :: after = items at hseparated
    cases hseparated with
    | single => simp at hitems
    | cons _ comma hothers =>
      rw [← hitems] at hothers
      obtain ⟨first, last, rfl, hother⟩ := ih hothers
      refine ⟨next ++ ⟨.symbol .comma, comma⟩ :: first, last, by simp, fun other ↦ ?_⟩
      have hmore := hother other
      cases before with
      | nil => simpa using Separated.cons next comma hmore
      | cons second before => simpa using Separated.cons next comma hmore

/-- Lists that are converted to the same list agree in it item by item. -/
theorem forall₂_of_map_eq {α β γ : Type} {convert : α → γ} {convert' : β → γ} {items : List α}
    {items' : List β} (hmap : items.map convert = items'.map convert') :
    List.Forall₂ (fun item item' ↦ item ∈ items ∧ item' ∈ items' ∧ convert item = convert' item')
      items items' := by
  have hagree : List.Forall₂ (fun item item' ↦ convert item = convert' item') items items' := by
    rw [← List.forall₂_map_right_iff, ← List.forall₂_map_left_iff, hmap]
    exact List.forall₂_same.mpr fun _ _ ↦ rfl
  refine List.forall₂_iff_zip.mpr ⟨hagree.length_eq, fun hmem ↦ ?_⟩
  exact ⟨(List.of_mem_zip hmem).1, (List.of_mem_zip hmem).2, List.forall₂_zip hagree hmem⟩

/-- Of two lists that start a text, with items that are the same if one can stand for the other,
only one can be there. -/
theorem Separated.unique {α : Type} {items items' : List (Stretch α)}
    {list list' rest rest' : List Token}
    (hagree : List.Forall₂ (fun first second ↦ ∀ more more',
      first.tokens ++ more = second.tokens ++ more' → first = second) items items')
    (hseparated : Separated (items.map Stretch.tokens) list)
    (hseparated' : Separated (items'.map Stretch.tokens) list')
    (htokens : list ++ rest = list' ++ rest') : items = items' ∧ list = list' := by
  induction hagree generalizing list list' with
  | nil =>
    cases hseparated
    cases hseparated'
    exact ⟨rfl, rfl⟩
  | @cons first first' others others' hfirst hothers ih =>
    cases hothers with
    | nil =>
      cases hseparated
      cases hseparated'
      obtain rfl := hfirst _ _ htokens
      exact ⟨rfl, rfl⟩
    | cons hsecond hothers =>
      rw [List.map_cons, List.map_cons] at hseparated hseparated'
      cases hseparated with
      | cons _ comma hmore =>
        cases hseparated' with
        | cons _ comma' hmore' =>
          rw [List.append_assoc, List.append_assoc] at htokens
          obtain rfl := hfirst _ _ htokens
          obtain ⟨hcomma, htokens⟩ := List.cons.inj (List.append_cancel_left htokens)
          obtain ⟨hitems, rfl⟩ := ih hmore hmore' htokens
          exact ⟨congrArg _ hitems, by rw [hcomma]⟩

/-- The places of the tokens are not empty and stand behind one another. -/
structure Token.Ordered (tokens : List Token) : Prop where
  start_lt_stop : ∀ token ∈ tokens, token.span.start < token.span.stop
  pairwise : tokens.Pairwise fun first second ↦ first.span.stop ≤ second.span.start

namespace Token.Ordered

variable {first second : List Token}

/-- Some of the tokens stand behind one another as all of them do. -/
theorem sublist (hordered : Ordered second) (hsublist : first.Sublist second) : Ordered first :=
  ⟨fun token hmem ↦ hordered.start_lt_stop token (hsublist.subset hmem),
    hordered.pairwise.sublist hsublist⟩

theorem left (hordered : Ordered (first ++ second)) : Ordered first :=
  hordered.sublist (List.sublist_append_left _ _)

theorem right (hordered : Ordered (first ++ second)) : Ordered second :=
  hordered.sublist (List.sublist_append_right _ _)

theorem tail {token : Token} (hordered : Ordered (token :: second)) : Ordered second :=
  hordered.sublist (List.sublist_cons_self _ _)

end Token.Ordered

/-- A place that goes from the start of the first token to the end of the last one. -/
structure Span.Covers (span : Span) (tokens : List Token) : Prop where
  start_eq : tokens.head?.map (·.span.start) = some span.start
  stop_eq : tokens.getLast?.map (·.span.stop) = some span.stop

namespace Span.Covers

variable {span other : Span} {first second : List Token}

theorem single (token : Token) : token.span.Covers [token] := ⟨rfl, rfl⟩

/-- The place starts where one of the tokens does. -/
theorem exists_first (hcovers : span.Covers first) :
    ∃ token ∈ first, token.span.start = span.start := by
  obtain ⟨token, htoken, hstart⟩ := Option.map_eq_some_iff.mp hcovers.start_eq
  exact ⟨token, List.mem_of_mem_head? htoken, hstart⟩

/-- It stops where one of them does. -/
theorem exists_last (hcovers : span.Covers first) :
    ∃ token ∈ first, token.span.stop = span.stop := by
  obtain ⟨token, htoken, hstop⟩ := Option.map_eq_some_iff.mp hcovers.stop_eq
  exact ⟨token, List.mem_of_getLast? htoken, hstop⟩

/-- What covers tokens goes around all of them. -/
theorem bounds (hcovers : span.Covers first) (hordered : Token.Ordered first) (token : Token)
    (hmem : token ∈ first) : span.start ≤ token.span.start ∧ token.span.stop ≤ span.stop := by
  constructor
  · obtain ⟨start, others, rfl⟩ := List.exists_cons_of_ne_nil (List.ne_nil_of_mem hmem)
    obtain hstart : start.span.start = span.start := Option.some.inj hcovers.start_eq
    rcases List.mem_cons.mp hmem with rfl | hmem
    · omega
    · have hle := List.rel_of_pairwise_cons hordered.pairwise hmem
      have hlt := hordered.start_lt_stop start List.mem_cons_self
      omega
  · obtain ⟨others, stop, rfl⟩ :=
      (List.eq_nil_or_concat first).resolve_left (List.ne_nil_of_mem hmem)
    rw [List.concat_eq_append] at *
    have hstop := hcovers.stop_eq
    rw [List.getLast?_append] at hstop
    obtain hstop : stop.span.stop = span.stop := Option.some.inj hstop
    rcases List.mem_append.mp hmem with hmem | hmem
    · have hle := (List.pairwise_append.mp hordered.pairwise).2.2 token hmem stop (by simp)
      have hlt := hordered.start_lt_stop stop (by simp)
      omega
    · obtain rfl := List.mem_singleton.mp hmem
      omega

/-- The place of ordered tokens is not empty. -/
theorem start_lt_stop (hcovers : span.Covers first) (hordered : Token.Ordered first) :
    span.start < span.stop := by
  obtain ⟨token, hmem, hstart⟩ := hcovers.exists_first
  have hlt := hordered.start_lt_stop token hmem
  have hle := (hcovers.bounds hordered token hmem).2
  omega

/-- If tokens stand before others, then so do the places that cover them. -/
theorem stop_le_start (hcovers : span.Covers first) (hother : other.Covers second)
    (hordered : Token.Ordered (first ++ second)) : span.stop ≤ other.start := by
  obtain ⟨last, hlast, hstop⟩ := hcovers.exists_last
  obtain ⟨start, hstart, heq⟩ := hother.exists_first
  have hle := (List.pairwise_append.mp hordered.pairwise).2.2 last hlast start hstart
  omega

/-- From the start of one place to the end of another that stands behind it. -/
theorem append (hcovers : span.Covers first) (hother : other.Covers second)
    (between : List Token) :
    Covers ⟨span.start, other.stop⟩ (first ++ between ++ second) := by
  constructor
  · rw [List.append_assoc, List.head?_append]
    obtain ⟨token, htoken, hstart⟩ := Option.map_eq_some_iff.mp hcovers.start_eq
    rw [htoken]
    exact congrArg some hstart
  · rw [List.getLast?_append]
    obtain ⟨token, htoken, hstop⟩ := Option.map_eq_some_iff.mp hother.stop_eq
    rw [htoken]
    exact congrArg some hstop

/-- The place that reaches over both goes from the start of the first to the end of the second. -/
theorem union_eq (hcovers : span.Covers first) (hother : other.Covers second)
    (hordered : Token.Ordered (first ++ second)) :
    span.union other = ⟨span.start, other.stop⟩ := by
  have hfirst := hcovers.start_lt_stop hordered.left
  have hsecond := hother.start_lt_stop hordered.right
  have hle := hcovers.stop_le_start hother hordered
  rw [union, Nat.min_eq_left (by omega), Nat.max_eq_right (by omega)]

end Span.Covers

/-- Places that cover tokens of their own, one after the other. -/
inductive Span.CoverApart : List Span → List Token → Prop
  | nil (tokens : List Token) : CoverApart [] tokens
  | cons {span : Span} {spans : List Span} {own rest : List Token} (before : List Token) :
    span.Covers own → CoverApart spans rest → CoverApart (span :: spans) (before ++ own ++ rest)

namespace Span.CoverApart

variable {spans : List Span} {tokens : List Token}

/-- There may be other tokens before and behind those that are covered. -/
theorem extend (hapart : CoverApart spans tokens) (before after : List Token) :
    CoverApart spans (before ++ tokens ++ after) := by
  induction hapart generalizing before with
  | nil tokens => exact .nil _
  | cons between hcovers _ ih =>
    have hrest := ih []
    simpa using CoverApart.cons (before ++ between) hcovers hrest

/-- Each of the places has tokens of its own among all of them. -/
theorem exists_own (hapart : CoverApart spans tokens) :
    ∀ span ∈ spans, ∃ own, own.Sublist tokens ∧ span.Covers own := by
  induction hapart with
  | nil => simp
  | @cons span spans own rest before hcovers _ ih =>
    intro other hmem
    rcases List.mem_cons.mp hmem with rfl | hmem
    · refine ⟨own, ?_, hcovers⟩
      exact (List.sublist_append_right before own).trans (List.sublist_append_left _ _)
    · obtain ⟨part, hpart, hother⟩ := ih other hmem
      exact ⟨part, hpart.trans (List.sublist_append_right _ _), hother⟩

/-- Places that cover tokens one after the other are themselves one after the other. -/
theorem pairwise (hapart : CoverApart spans tokens) (hordered : Token.Ordered tokens) :
    spans.Pairwise fun first second ↦ first.stop ≤ second.start := by
  induction hapart with
  | nil => exact .nil
  | @cons span spans own rest before hcovers hrest ih =>
    refine List.pairwise_cons.mpr ⟨fun other hmem ↦ ?_, ih hordered.right⟩
    obtain ⟨part, hpart, hother⟩ := hrest.exists_own other hmem
    refine hcovers.stop_le_start hother (hordered.sublist ?_)
    rw [List.append_assoc]
    exact ((List.Sublist.refl own).append hpart).trans (List.sublist_append_right _ _)

/-- They lie in whatever covers all the tokens. -/
theorem bounds (hapart : CoverApart spans tokens) {whole : Span} (hwhole : whole.Covers tokens)
    (hordered : Token.Ordered tokens) (span : Span) (hmem : span ∈ spans) :
    whole.start ≤ span.start ∧ span.stop ≤ whole.stop := by
  obtain ⟨own, hown, hcovers⟩ := hapart.exists_own span hmem
  obtain ⟨first, hfirst, hstart⟩ := hcovers.exists_first
  obtain ⟨last, hlast, hstop⟩ := hcovers.exists_last
  have hbefore := (hwhole.bounds hordered first (hown.subset hfirst)).1
  have hafter := (hwhole.bounds hordered last (hown.subset hlast)).2
  omega

end Span.CoverApart

/-! ### Trees on their tokens -/

/-- The tokens that write an expression, and its tree with the places that they give it. -/
inductive Expr.StandsOn : List Token → Expr → Prop
  | literal (value : Literal) (span : Span) :
    StandsOn [⟨value.kind, span⟩] (.literal value span)
  | grouping {tokens : List Token} {inner : Expr} (opening closing : Span) :
    StandsOn tokens inner →
    StandsOn (⟨.symbol .leftParenthesis, opening⟩ :: tokens ++
        [⟨.symbol .rightParenthesis, closing⟩])
      (.grouping inner ⟨opening.start, closing.stop⟩)
  | unary {tokens : List Token} {operand : Expr} (operator : UnaryOperator) (mark : Span) :
    StandsOn tokens operand →
    StandsOn (⟨operator.kind, mark⟩ :: tokens)
      (.unary operator operand ⟨mark.start, operand.span.stop⟩)
  | binary {first second : List Token} {left right : Expr} (operator : BinaryOperator)
    (mark : Span) : StandsOn first left → StandsOn second right →
    StandsOn (first ++ ⟨operator.kind, mark⟩ :: second)
      (.binary operator left right (left.span.union right.span))
  | logical {first second : List Token} {left right : Expr} (operator : LogicalOperator)
    (mark : Span) : StandsOn first left → StandsOn second right →
    StandsOn (first ++ ⟨operator.kind, mark⟩ :: second)
      (.logical operator left right (left.span.union right.span))
  | name (identifier : Identifier) :
    StandsOn [identifier.token] (.name identifier)
  | assign {tokens : List Token} {value : Expr} (target : Identifier) (mark : Span) :
    StandsOn tokens value →
    StandsOn (target.token :: ⟨.symbol .equal, mark⟩ :: tokens)
      (.assign target value (target.span.union value.span))
  | call {tokens list : List Token} {callee : Expr} {arguments : List (Stretch Expr)}
    (opening closing : Span) : StandsOn tokens callee →
    (∀ argument ∈ arguments, StandsOn argument.tokens argument.tree) →
    Separated (arguments.map Stretch.tokens) list →
    StandsOn (tokens ++ (⟨.symbol .leftParenthesis, opening⟩ :: list ++
        [⟨.symbol .rightParenthesis, closing⟩]))
      (.call callee (arguments.map Stretch.tree) ⟨callee.span.start, closing.stop⟩)

/-- The places of the parts of an expression, in the order of the text. -/
def Expr.childSpans : Expr → List Span
  | .literal _ _ | .name _ => []
  | .grouping inner _ => [inner.span]
  | .unary _ operand _ => [operand.span]
  | .binary _ left right _ | .logical _ left right _ => [left.span, right.span]
  | .assign target value _ => [target.span, value.span]
  | .call callee arguments _ => callee.span :: arguments.map Expr.span

/-- The kinds of the tokens of arguments. -/
theorem Separated.kinds_eq_kindsAll {arguments : List (Stretch Expr)} {list : List Token}
    (hseparated : Separated (arguments.map Stretch.tokens) list)
    (hkinds : ∀ argument ∈ arguments, argument.tokens.map Token.kind = argument.tree.kinds) :
    list.map Token.kind = Grammar.separated (Expr.kindsAll (arguments.map Stretch.tree)) := by
  have hreads : (arguments.map Stretch.tokens).map (List.map Token.kind)
      = (arguments.map Stretch.tree).map Expr.kinds := by
    rw [List.map_map, List.map_map]
    exact List.map_congr_left hkinds
  rw [hseparated.kinds_eq, hreads, Expr.kindsAll_eq_map]

namespace Expr.StandsOn

variable {tokens : List Token} {tree : Expr}

/-- Without their places, the tokens are the ones that write the tree. -/
theorem kinds_eq (hstands : StandsOn tokens tree) : tokens.map Token.kind = tree.kinds := by
  induction hstands with
  | literal => rfl
  | grouping _ _ _ ih => simp [Expr.kinds, ih]
  | unary _ _ _ ih => simp [Expr.kinds, ih]
  | binary _ _ _ _ ihleft ihright => simp [Expr.kinds, ihleft, ihright]
  | logical _ _ _ _ ihleft ihright => simp [Expr.kinds, ihleft, ihright]
  | name => rfl
  | assign _ _ _ ih => simp [Expr.kinds, ih]
  | call _ _ _ _ hseparated ihcallee iharguments =>
    simp [Expr.kinds, parenthesized, ihcallee, hseparated.kinds_eq_kindsAll iharguments]

/-- There is no expression without tokens. -/
theorem ne_nil (hstands : StandsOn tokens tree) : tokens ≠ [] := by
  cases hstands <;> simp

/-- A tree covers its tokens. -/
theorem covers (hstands : StandsOn tokens tree) (hordered : Token.Ordered tokens) :
    tree.span.Covers tokens := by
  induction hstands with
  | literal => exact ⟨rfl, rfl⟩
  | grouping opening closing _ _ =>
    exact (Span.Covers.single ⟨_, opening⟩).append (.single ⟨_, closing⟩) _
  | unary _ mark _ ih => exact (Span.Covers.single ⟨_, mark⟩).append (ih hordered.tail) []
  | @binary first second _ _ operator mark _ _ ihleft ihright =>
    have hleft := ihleft hordered.left
    have hright := ihright hordered.right.tail
    have hboth : Token.Ordered (first ++ second) :=
      hordered.sublist ((List.Sublist.refl _).append (List.sublist_cons_self _ _))
    rw [Expr.span, hleft.union_eq hright hboth]
    simpa using hleft.append hright [⟨operator.kind, mark⟩]
  | @logical first second _ _ operator mark _ _ ihleft ihright =>
    have hleft := ihleft hordered.left
    have hright := ihright hordered.right.tail
    have hboth : Token.Ordered (first ++ second) :=
      hordered.sublist ((List.Sublist.refl _).append (List.sublist_cons_self _ _))
    rw [Expr.span, hleft.union_eq hright hboth]
    simpa using hleft.append hright [⟨operator.kind, mark⟩]
  | name => exact ⟨rfl, rfl⟩
  | @assign tokens _ target mark _ ih =>
    have htarget : target.span.Covers [target.token] := .single target.token
    have hvalue := ih hordered.tail.tail
    have hboth : Token.Ordered ([target.token] ++ tokens) :=
      hordered.sublist (.cons_cons _ (List.sublist_cons_self _ _))
    rw [Expr.span, htarget.union_eq hvalue hboth]
    exact htarget.append hvalue [⟨.symbol .equal, mark⟩]
  | call opening closing _ _ _ ihcallee _ =>
    have hcallee := ihcallee hordered.left
    simpa [Expr.span] using hcallee.append (.single ⟨.symbol .rightParenthesis, closing⟩) (_ :: _)

end Expr.StandsOn

/-- Items with commas between them lie behind one another. -/
theorem Separated.coverApart {arguments : List (Stretch Expr)} {list : List Token}
    (hseparated : Separated (arguments.map Stretch.tokens) list)
    (harguments : ∀ argument ∈ arguments, argument.tree.span.Covers argument.tokens) :
    Span.CoverApart ((arguments.map Stretch.tree).map Expr.span) list := by
  induction arguments generalizing list with
  | nil => exact .nil list
  | cons first others ih =>
    have hfirst := harguments first List.mem_cons_self
    have hothers (other : Stretch Expr) (hmem : other ∈ others) :=
      harguments other (List.mem_cons_of_mem _ hmem)
    cases others with
    | nil =>
      cases hseparated
      simpa using Span.CoverApart.cons [] hfirst (.nil [])
    | cons second others =>
      rw [List.map_cons, List.map_cons] at hseparated
      cases hseparated with
      | cons _ comma hmore =>
        have hrest := (ih hmore hothers).extend [⟨.symbol .comma, comma⟩] []
        rw [List.append_nil] at hrest
        simpa using Span.CoverApart.cons [] hfirst hrest

namespace Expr.StandsOn

variable {tokens : List Token} {tree : Expr}

/-- The parts of a node lie behind one another. -/
theorem coverApart (hstands : StandsOn tokens tree) (hordered : Token.Ordered tokens) :
    Span.CoverApart tree.childSpans tokens := by
  have htwo {first second : Span} {own rest : List Token} (hfirst : first.Covers own)
      (mark : Token) (hsecond : second.Covers rest) :
      Span.CoverApart [first, second] (own ++ mark :: rest) := by
    have hlast : Span.CoverApart [second] (mark :: rest) := by
      simpa using Span.CoverApart.cons [mark] hsecond (.nil [])
    simpa using Span.CoverApart.cons [] hfirst hlast
  cases hstands with
  | literal => exact .nil _
  | grouping opening closing hinner =>
    exact .cons [⟨.symbol .leftParenthesis, opening⟩] (hinner.covers hordered.left.tail) (.nil _)
  | unary operator mark hoperand =>
    have hcovers := hoperand.covers hordered.tail
    simpa [Expr.childSpans] using Span.CoverApart.cons [⟨operator.kind, mark⟩] hcovers (.nil [])
  | binary operator mark hleft hright =>
    exact htwo (hleft.covers hordered.left) _ (hright.covers hordered.right.tail)
  | logical operator mark hleft hright =>
    exact htwo (hleft.covers hordered.left) _ (hright.covers hordered.right.tail)
  | name => exact .nil _
  | assign target mark hvalue =>
    have htarget : target.span.Covers [target.token] := .single target.token
    exact htwo htarget _ (hvalue.covers hordered.tail.tail)
  | @call own list callee arguments opening closing hcallee harguments hseparated =>
    have hlist : Token.Ordered list := hordered.right.tail.left
    have hwithin (argument : Stretch Expr) (hmem : argument ∈ arguments) :
        argument.tree.span.Covers argument.tokens := by
      obtain ⟨before, after, rfl⟩ := List.append_of_mem hmem
      rw [List.map_append, List.map_cons] at hseparated
      obtain ⟨first, last, rfl, -⟩ := hseparated.exchange
      exact (harguments argument hmem).covers hlist.left.right
    have hrest := (hseparated.coverApart hwithin).extend [⟨.symbol .leftParenthesis, opening⟩]
      [⟨.symbol .rightParenthesis, closing⟩]
    simpa [Expr.childSpans] using
      Span.CoverApart.cons [] (hcallee.covers hordered.left) hrest

/-- The parts of a node lie in it, one after the other. -/
theorem childSpans_ordered (hstands : StandsOn tokens tree) (hordered : Token.Ordered tokens) :
    (∀ child ∈ tree.childSpans, tree.span.start ≤ child.start ∧ child.stop ≤ tree.span.stop) ∧
      tree.childSpans.Pairwise fun first second ↦ first.stop ≤ second.start :=
  ⟨(hstands.coverApart hordered).bounds (hstands.covers hordered) hordered,
    (hstands.coverApart hordered).pairwise hordered⟩

/-! ### Other places -/

/-- Where a tree stands on tokens, the tree and the tokens may be moved by the same distance. The
induction is on the way in which the tree stands on them. -/
theorem shift (distance : Nat) (hstands : StandsOn tokens tree) :
    StandsOn (tokens.map (Token.shift distance)) (tree.shift distance) := by
  induction hstands with
  | literal value span => exact .literal value (span.shift distance)
  | grouping opening closing _ ih =>
    rw [List.map_append]
    exact .grouping (opening.shift distance) (closing.shift distance) ih
  | unary operator mark _ ih =>
    have hunary := unary operator (mark.shift distance) ih
    rw [Expr.span_shift] at hunary
    exact hunary
  | binary operator mark _ _ ihleft ihright =>
    have hbinary := binary operator (mark.shift distance) ihleft ihright
    rw [Expr.span_shift, Expr.span_shift, Span.union_shift] at hbinary
    rw [List.map_append]
    exact hbinary
  | logical operator mark _ _ ihleft ihright =>
    have hlogical := logical operator (mark.shift distance) ihleft ihright
    rw [Expr.span_shift, Expr.span_shift, Span.union_shift] at hlogical
    rw [List.map_append]
    exact hlogical
  | name identifier => exact .name (identifier.shift distance)
  | assign target mark _ ih =>
    have hassign := assign (target.shift distance) (mark.shift distance) ih
    rw [Expr.span_shift, Identifier.span_shift, Span.union_shift] at hassign
    exact hassign
  | @call tokens list callee arguments opening closing _ _ hseparated ihcallee iharguments =>
    have hlist := hseparated.shift distance
    have htokens : (arguments.map Stretch.tokens).map (List.map (Token.shift distance))
        = (arguments.map (Stretch.shift distance)).map Stretch.tokens := by
      rw [List.map_map, List.map_map]
      rfl
    have htrees : Expr.shiftAll distance (arguments.map Stretch.tree)
        = (arguments.map (Stretch.shift distance)).map Stretch.tree := by
      rw [Expr.shiftAll_eq_map, List.map_map, List.map_map]
      rfl
    rw [htokens] at hlist
    have hcall := call (opening.shift distance) (closing.shift distance) ihcallee
      (by simpa [Stretch.shift] using iharguments) hlist
    rw [Expr.span_shift, ← htrees] at hcall
    rw [List.map_append, List.map_append]
    exact hcall

/-- The tokens leave one way to put a tree on them that is known apart from its places, and they
are as many as it needs. -/
theorem unique {tokens' rest rest' : List Token} {tree' : Expr} (hstands : StandsOn tokens tree)
    (hstands' : StandsOn tokens' tree') (herase : tree.eraseSpans = tree'.eraseSpans)
    (htokens : tokens ++ rest = tokens' ++ rest') : tokens = tokens' ∧ tree = tree' := by
  induction hstands generalizing tokens' tree' rest rest' with
  | literal value span =>
    cases hstands' <;> injection herase
    rename_i hvalue _
    injection htokens with htoken
    injection htoken with _ hspan
    exact ⟨by rw [hvalue, hspan], by rw [hvalue, hspan]⟩
  | grouping opening closing _ ih =>
    cases hstands' <;> injection herase
    rename_i hstands' hinner _
    simp only [List.append_assoc, List.cons_append] at htokens
    injection htokens with hopening htokens
    obtain ⟨rfl, rfl⟩ := ih hstands' hinner htokens
    injection List.append_cancel_left htokens with hclosing
    injection hopening with _ hopening
    injection hclosing with _ hclosing
    exact ⟨by rw [hopening, hclosing], by rw [hopening, hclosing]⟩
  | unary operator mark _ ih =>
    cases hstands' <;> injection herase
    rename_i hstands' hoperator hoperand _
    injection htokens with hmark htokens
    obtain ⟨rfl, rfl⟩ := ih hstands' hoperand htokens
    injection hmark with _ hmark
    exact ⟨by rw [hoperator, hmark], by rw [hoperator, hmark]⟩
  | binary operator mark _ _ ihleft ihright =>
    cases hstands' <;> injection herase
    rename_i hstands' hstands'' hoperator hleft hright _
    simp only [List.append_assoc, List.cons_append] at htokens
    obtain ⟨rfl, rfl⟩ := ihleft hstands' hleft htokens
    injection List.append_cancel_left htokens with hmark htokens
    obtain ⟨rfl, rfl⟩ := ihright hstands'' hright htokens
    exact ⟨by rw [hmark], by rw [hoperator]⟩
  | logical operator mark _ _ ihleft ihright =>
    cases hstands' <;> injection herase
    rename_i hstands' hstands'' hoperator hleft hright _
    simp only [List.append_assoc, List.cons_append] at htokens
    obtain ⟨rfl, rfl⟩ := ihleft hstands' hleft htokens
    injection List.append_cancel_left htokens with hmark htokens
    obtain ⟨rfl, rfl⟩ := ihright hstands'' hright htokens
    exact ⟨by rw [hmark], by rw [hoperator]⟩
  | name identifier =>
    cases hstands' <;> injection herase
    injection htokens with htoken
    obtain rfl := Identifier.token_injective htoken
    exact ⟨rfl, rfl⟩
  | assign target mark _ ih =>
    cases hstands' <;> injection herase
    rename_i target' mark' hstands' _ hvalue _
    injection htokens with htarget htokens
    injection htokens with hmark htokens
    obtain ⟨rfl, rfl⟩ := ih hstands' hvalue htokens
    obtain rfl := Identifier.token_injective htarget
    exact ⟨by rw [hmark], rfl⟩
  | @call tokens list callee arguments opening closing _ _ hseparated ihcallee iharguments =>
    cases hstands' <;> injection herase
    rename_i arguments' _ closing' hcallee' harguments' hseparated' hcallee harguments _
    simp only [List.append_assoc, List.cons_append] at htokens
    obtain ⟨rfl, rfl⟩ := ihcallee hcallee' hcallee htokens
    injection List.append_cancel_left htokens with hopening htokens
    rw [Expr.mapSpansAll_eq_map, Expr.mapSpansAll_eq_map, List.map_map, List.map_map]
      at harguments
    have hagree : List.Forall₂ (fun first second : Stretch Expr ↦ ∀ more more',
        first.tokens ++ more = second.tokens ++ more' → first = second) arguments arguments' := by
      refine (forall₂_of_map_eq harguments).imp ?_
      rintro ⟨tokens, tree⟩ ⟨tokens', tree'⟩ ⟨hmem, hmem', herase⟩ more more' htokens
      obtain ⟨rfl, rfl⟩ := iharguments _ hmem (harguments' _ hmem') herase htokens
      rfl
    obtain ⟨rfl, rfl⟩ := hseparated.unique hagree hseparated' htokens
    injection List.append_cancel_left htokens with hclosing
    injection hclosing with _ hclosing
    exact ⟨by rw [hopening, hclosing], by rw [hclosing]⟩

end Expr.StandsOn

/-! ### Nodes on their tokens -/

/-- The kinds of tokens with parentheses around some of them. -/
def enclosed (before own after : List Token) : List TokenKind :=
  before.map Token.kind ++ (.symbol .leftParenthesis :: own.map Token.kind ++
    [.symbol .rightParenthesis]) ++ after.map Token.kind

/-- A node of a tree stands on tokens of its own, and the other tokens write the same tree with the
node in parentheses around them. It is the tree itself or in one of its parts, on whose tokens the
induction puts the parentheses. -/
theorem Expr.StandsOn.occurrence {tokens : List Token} {tree node : Expr}
    (hstands : StandsOn tokens tree) (hnode : node ∈ tree.nodes) :
    ∃ before own after edited, tokens = before ++ own ++ after ∧ StandsOn own node ∧
      Expr.Wraps node tree edited ∧ edited.kinds = enclosed before own after := by
  have hself {tokens : List Token} {tree : Expr} (hstands : StandsOn tokens tree) :
      ∃ before own after edited, tokens = before ++ own ++ after ∧ StandsOn own tree ∧
        Expr.Wraps tree tree edited ∧ edited.kinds = enclosed before own after :=
    ⟨[], tokens, [], _, by simp, hstands, .here .origin, by
      simp [Expr.kinds, enclosed, hstands.kinds_eq]⟩
  induction hstands with
  | literal value span =>
    obtain rfl := List.mem_singleton.mp hnode
    exact hself (.literal value span)
  | name identifier =>
    obtain rfl := List.mem_singleton.mp hnode
    exact hself (.name identifier)
  | grouping opening closing hinner ih =>
    rcases List.mem_cons.mp hnode with rfl | hnode
    · exact hself (.grouping opening closing hinner)
    · obtain ⟨before, own, after, edited, rfl, hown, hwraps, hkinds⟩ := ih hnode
      refine ⟨⟨.symbol .leftParenthesis, opening⟩ :: before, own,
        after ++ [⟨.symbol .rightParenthesis, closing⟩], _, by simp, hown, .grouping hwraps, ?_⟩
      simp [Expr.kinds, hkinds, enclosed]
  | unary operator mark hoperand ih =>
    rcases List.mem_cons.mp hnode with rfl | hnode
    · exact hself (.unary operator mark hoperand)
    · obtain ⟨before, own, after, edited, rfl, hown, hwraps, hkinds⟩ := ih hnode
      refine ⟨⟨operator.kind, mark⟩ :: before, own, after, _, by simp, hown, .unary hwraps, ?_⟩
      simp [Expr.kinds, hkinds, enclosed]
  | @binary first second _ _ operator mark hleft hright ihleft ihright =>
    rcases List.mem_cons.mp hnode with rfl | hnode
    · exact hself (.binary operator mark hleft hright)
    rcases List.mem_append.mp hnode with hnode | hnode
    · obtain ⟨before, own, after, edited, rfl, hown, hwraps, hkinds⟩ := ihleft hnode
      refine ⟨before, own, after ++ ⟨operator.kind, mark⟩ :: second, _, by simp, hown,
        .binaryLeft hwraps, ?_⟩
      simp [Expr.kinds, hkinds, enclosed, hright.kinds_eq]
    · obtain ⟨before, own, after, edited, rfl, hown, hwraps, hkinds⟩ := ihright hnode
      refine ⟨first ++ ⟨operator.kind, mark⟩ :: before, own, after, _, by simp, hown,
        .binaryRight hwraps, ?_⟩
      simp [Expr.kinds, hkinds, enclosed, hleft.kinds_eq]
  | @logical first second _ _ operator mark hleft hright ihleft ihright =>
    rcases List.mem_cons.mp hnode with rfl | hnode
    · exact hself (.logical operator mark hleft hright)
    rcases List.mem_append.mp hnode with hnode | hnode
    · obtain ⟨before, own, after, edited, rfl, hown, hwraps, hkinds⟩ := ihleft hnode
      refine ⟨before, own, after ++ ⟨operator.kind, mark⟩ :: second, _, by simp, hown,
        .logicalLeft hwraps, ?_⟩
      simp [Expr.kinds, hkinds, enclosed, hright.kinds_eq]
    · obtain ⟨before, own, after, edited, rfl, hown, hwraps, hkinds⟩ := ihright hnode
      refine ⟨first ++ ⟨operator.kind, mark⟩ :: before, own, after, _, by simp, hown,
        .logicalRight hwraps, ?_⟩
      simp [Expr.kinds, hkinds, enclosed, hleft.kinds_eq]
  | assign target mark hvalue ih =>
    rcases List.mem_cons.mp hnode with rfl | hnode
    · exact hself (.assign target mark hvalue)
    · obtain ⟨before, own, after, edited, rfl, hown, hwraps, hkinds⟩ := ih hnode
      refine ⟨target.token :: ⟨.symbol .equal, mark⟩ :: before, own, after, _, by simp, hown,
        .assign hwraps, ?_⟩
      simp [Expr.kinds, hkinds, enclosed]
  | @call tokens list callee arguments opening closing hcallee harguments hseparated ihcallee
      iharguments =>
    rcases List.mem_cons.mp hnode with rfl | hnode
    · exact hself (.call opening closing hcallee harguments hseparated)
    rcases List.mem_append.mp hnode with hnode | hnode
    · obtain ⟨before, own, after, edited, rfl, hown, hwraps, hkinds⟩ := ihcallee hnode
      refine ⟨before, own, after ++ (⟨.symbol .leftParenthesis, opening⟩ :: list ++
        [⟨.symbol .rightParenthesis, closing⟩]), _, by simp, hown, .callee hwraps, ?_⟩
      have hlist := hseparated.kinds_eq_kindsAll fun other hmem ↦ (harguments other hmem).kinds_eq
      simp [Expr.kinds, hkinds, enclosed, parenthesized, hlist]
    · rw [Expr.nodesAll_eq_flatMap] at hnode
      obtain ⟨argument, hargument, hnode⟩ := List.mem_flatMap.mp hnode
      obtain ⟨argument, hmem, rfl⟩ := List.mem_map.mp hargument
      obtain ⟨before, own, after, edited, htokens, hown, hwraps, hkinds⟩ :=
        iharguments argument hmem hnode
      obtain ⟨others, more, rfl⟩ := List.append_of_mem hmem
      rw [List.map_append, List.map_cons] at hseparated
      obtain ⟨first, last, rfl, hother⟩ := hseparated.exchange
      have hedited := hother (before ++ (⟨.symbol .leftParenthesis, .origin⟩ :: own ++
        [⟨.symbol .rightParenthesis, .origin⟩]) ++ after)
      have hlist := @Separated.kinds_eq_kindsAll (others ++ ⟨_, edited⟩ :: more) _
        (by simpa using hedited) (fun other hmem ↦ by
          rcases List.mem_append.mp hmem with hmem | hmem
          · exact (harguments other (by simp [hmem])).kinds_eq
          · rcases List.mem_cons.mp hmem with rfl | hmem
            · simp [hkinds, enclosed]
            · exact (harguments other (by simp [hmem])).kinds_eq)
      rw [htokens, List.map_append]
      refine ⟨tokens ++ ⟨.symbol .leftParenthesis, opening⟩ :: first ++ before, own,
        after ++ last ++ [⟨.symbol .rightParenthesis, closing⟩], _, by simp, hown,
        .argument _ _ hwraps, ?_⟩
      simp only [List.map_append, List.map_cons] at hlist
      rw [Expr.kinds, parenthesized, ← hlist, ← hcallee.kinds_eq]
      simp [enclosed]

end Lox
