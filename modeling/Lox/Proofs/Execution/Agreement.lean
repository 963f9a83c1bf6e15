import Lox.Proofs.Execution.Following
import Lox.Proofs.Scoping.Reachability
import Lox.Proofs.Scoping.Steps

/-!
# States that agree on what can be reached

Two runs from states that agree on what is reachable make scopes and functions side by side, but
their names differ if different numbers of them were there before. So what is made k-th in the one
run stands for what is made k-th in the other, and what was there and can be reached stands for
itself (`Correspondence.since`). Values stand for each other if they are the same apart from these
names (`Value.Same`).

`Interpreter.Agreeing` is what holds of the two states at any time: scopes that stand for each other
bind the same names to values that do so too, and the scopes that could not be reached are what they
were. Every step of a run keeps this.
-/

set_option autoImplicit false
set_option relaxedAutoImplicit false

namespace Lox

variable {between grown : Correspondence}

/-- Functions from one declaration, in scopes that stand for each other, or with the same operation
of the host. -/
inductive FunctionValue.Same (between : Correspondence) : FunctionValue → FunctionValue → Prop
  | declared {identity identity' : Nat} {captured captured' : ScopeId}
    (declaration : FunctionDeclaration) : between.functions identity identity' →
    between.scopes captured captured' →
    Same between ⟨identity, .declared declaration captured⟩
      ⟨identity', .declared declaration captured'⟩
  | native {identity identity' : Nat} (name : String) (arity : Nat) (operation : Native) :
    between.functions identity identity' →
    Same between ⟨identity, .native name arity operation⟩
      ⟨identity', .native name arity operation⟩

/-- The same values, but for the names of scopes and functions. -/
inductive Value.Same (between : Correspondence) : Value → Value → Prop
  | number (value : Float) : Same between (.number value) (.number value)
  | string (text : String) : Same between (.string text) (.string text)
  | boolean (value : Bool) : Same between (.boolean value) (.boolean value)
  | nil : Same between .nil .nil
  | function {callee callee' : FunctionValue} : FunctionValue.Same between callee callee' →
    Same between (.function callee) (.function callee')

/-- The same names in the same order, with values that are the same. -/
def Bindings.Same (between : Correspondence) : Bindings → Bindings → Prop :=
  List.Forall₂ fun binding binding' ↦
    binding.1 = binding'.1 ∧ Value.Same between binding.2 binding'.2

theorem FunctionDeclaration.Alike.refl (leeway : Leeway) (declaration : FunctionDeclaration) :
    declaration.Alike leeway declaration :=
  ⟨rfl, rfl, Stmt.alikeAll_of_eraseSpansAll_eq _ _ rfl⟩

theorem FunctionValue.Same.toMatches {callee callee' : FunctionValue}
    (hcallee : FunctionValue.Same between callee callee') :
    FunctionValue.Matches .none between callee callee' := by
  cases hcallee with
  | declared declaration hidentity hcaptured =>
    exact .declared hidentity (.refl _ _) hcaptured
  | native name arity operation hidentity => exact .native _ _ _ hidentity

namespace Value.Same

variable {value value' : Value}

theorem grow (hvalue : Value.Same between value value') (hgrown : between ≤ grown) :
    Value.Same grown value value' := by
  cases hvalue with
  | function hcallee =>
    cases hcallee with
    | declared declaration hidentity hcaptured =>
      exact .function (.declared _ (hgrown.2 _ _ hidentity) (hgrown.1 _ _ hcaptured))
    | native name arity operation hidentity =>
      exact .function (.native _ _ _ (hgrown.2 _ _ hidentity))
  | _ => constructor

/-- Programs cannot tell such values apart. -/
theorem toMatches (hvalue : Value.Same between value value') :
    Value.Matches .none between value value' := by
  cases hvalue with
  | function hcallee => exact .function hcallee.toMatches
  | _ => constructor

/-- Whatever is no function stands for itself. It matches itself even if no identity stands for
itself, and no function does so then. -/
theorem of_matches (hvalue : ∀ between, Value.Matches .none between value value) :
    Value.Same between value value := by
  cases hvalue ⟨fun _ _ ↦ False, fun _ _ ↦ False, fun h ↦ h.elim⟩ with
  | function hcallee => exact hcallee.identity.elim
  | _ => constructor

theorem captured? (hvalue : Value.Same between value value') :
    Option.Rel between.scopes value.captured? value'.captured? := by
  cases hvalue with
  | function hcallee =>
    cases hcallee with
    | declared declaration hidentity hcaptured => exact .some hcaptured
    | native => exact .none
  | _ => exact .none

end Value.Same

/-! ### What has been made since -/

/-- What is kept stands for itself, and what has been made k-th since the first of two states for
what has been made k-th since the second. -/
def Correspondence.since (first second : Interpreter) (kept : ScopeId → Prop)
    (scopes functions : Nat) : Correspondence where
  scopes scope scope' := (kept scope ∧ scope' = scope) ∨ ∃ made < scopes,
    scope = first.store.scopes.size + made ∧ scope' = second.store.scopes.size + made
  functions function function' :=
    (function < first.functions ∧ function < second.functions ∧ function' = function) ∨
      ∃ made < functions, function = first.functions + made ∧ function' = second.functions + made
  functions_iff := by
    rintro _ _ _ _ (⟨_, _, rfl⟩ | ⟨_, _, rfl, rfl⟩) (⟨_, _, rfl⟩ | ⟨_, _, rfl, rfl⟩) <;> omega

theorem Correspondence.since_le {first second : Interpreter} {kept : ScopeId → Prop}
    {scopes functions scopes' functions' : Nat} (hscopes : scopes ≤ scopes')
    (hfunctions : functions ≤ functions') :
    since first second kept scopes functions ≤ since first second kept scopes' functions' := by
  constructor
  · rintro scope scope' (hkept | ⟨made, hmade, hscope⟩)
    · exact .inl hkept
    · exact .inr ⟨made, Nat.lt_of_lt_of_le hmade hscopes, hscope⟩
  · rintro function function' (hkept | ⟨made, hmade, hfunction⟩)
    · exact .inl hkept
    · exact .inr ⟨made, Nat.lt_of_lt_of_le hmade hfunctions, hfunction⟩

/-- What is related, if there is anything, is related in every wider sense. -/
theorem rel_imp {α β : Type} {related wider : α → β → Prop} {first : Option α} {second : Option β}
    (hrelated : Option.Rel related first second)
    (himp : ∀ value value', related value value' → wider value value') :
    Option.Rel wider first second := by
  cases hrelated with
  | some hvalue => exact .some (himp _ _ hvalue)
  | none => exact .none

/-- What is related, if there is anything, is so the other way round. -/
theorem rel_flip {α β : Type} {related : α → β → Prop} {first : Option α} {second : Option β}
    (hrelated : Option.Rel related first second) :
    Option.Rel (fun value' value ↦ related value value') second first := by
  cases hrelated with
  | some hvalue => exact .some hvalue
  | none => exact .none

/-- A name has values that are related if its owners have. -/
theorem Store.rel_get? {store store' : Store} {owns : ScopeId → ScopeId → Prop}
    {related : Value → Value → Prop} {name : String} {scope scope' : ScopeId}
    (howner : Option.Rel owns (store.owner? name scope) (store'.owner? name scope'))
    (hvalue : ∀ owner owner', owns owner owner' →
      Option.Rel related (store.valueAt? name owner) (store'.valueAt? name owner')) :
    Option.Rel related (store.get? name scope) (store'.get? name scope') := by
  change Option.Rel _ ((store.owner? name scope).bind (store.valueAt? name))
    ((store'.owner? name scope').bind (store'.valueAt? name))
  generalize store.owner? name scope = owner at howner
  generalize store'.owner? name scope' = owner' at howner
  cases howner with
  | some howner => exact hvalue _ _ howner
  | none => exact .none

/-- Names that are bound one after the other to values that are related end up with such values. -/
theorem Bindings.rel_lookup_ofPairs {related : Value → Value → Prop}
    {pairs pairs' : List (String × Value)}
    (hpairs : List.Forall₂ (fun pair pair' ↦ pair.1 = pair'.1 ∧ related pair.2 pair'.2)
      pairs pairs') (name : String) :
    Option.Rel related ((ofPairs pairs).lookup name) ((ofPairs pairs').lookup name) := by
  have hmade (made made' : Bindings)
      (hvalue : Option.Rel related (made.lookup name) (made'.lookup name)) :
      Option.Rel related
        ((pairs.foldl (fun made pair ↦ made.insert pair.1 pair.2) made).lookup name)
        ((pairs'.foldl (fun made pair ↦ made.insert pair.1 pair.2) made').lookup name) := by
    induction hpairs generalizing made made' with
    | nil => exact hvalue
    | @cons pair pair' pairs pairs' hpair _ ih =>
      refine ih _ _ ?_
      rw [Bindings.lookup_insert, Bindings.lookup_insert, hpair.1]
      split
      · exact .some hpair.2
      · exact hvalue
  exact hmade [] [] .none

namespace Interpreter

/-- What holds at any time of two runs that started in states that agree on what is kept: equally
many scopes and functions have been made, the same has been printed, scopes that stand for each
other have the same names, with values that do so too, and are inside of scopes that do so too, and
everything else that was there has been left alone. -/
structure Agreeing (first second : Interpreter) (kept : ScopeId → Prop) (between : Correspondence)
    (state state' : Interpreter) : Prop where
  existed : ∀ scope, kept scope →
    scope < first.store.scopes.size ∧ scope < second.store.scopes.size
  made : ∃ scopes functions, between = .since first second kept scopes functions ∧
    state.store.scopes.size = first.store.scopes.size + scopes ∧
    state'.store.scopes.size = second.store.scopes.size + scopes ∧
    state.functions = first.functions + functions ∧
    state'.functions = second.functions + functions
  globals : between.scopes state.globals state'.globals
  output : state.output = state'.output
  values : ∀ {scope scope'}, between.scopes scope scope' → ∀ name,
    Option.Rel (Value.Same between) (state.store.valueAt? name scope)
      (state'.store.valueAt? name scope')
  enclosing : ∀ {scope scope'}, between.scopes scope scope' →
    Option.Rel between.scopes (state.store.enclosing? scope) (state'.store.enclosing? scope')
  untouched : ∀ scope < first.store.scopes.size, ¬kept scope →
    state.store.scopes[scope]? = first.store.scopes[scope]?
  untouched' : ∀ scope < second.store.scopes.size, ¬kept scope →
    state'.store.scopes[scope]? = second.store.scopes[scope]?

namespace Agreeing

variable {first second state state' : Interpreter} {kept : ScopeId → Prop}

/-- Scopes that stand for each other exist. -/
theorem lt_size (hagree : first.Agreeing second kept between state state') {scope scope' : ScopeId}
    (hscope : between.scopes scope scope') :
    scope < state.store.scopes.size ∧ scope' < state'.store.scopes.size := by
  obtain ⟨scopes, functions, rfl, hsize, hsize', -, -⟩ := hagree.made
  rw [hsize, hsize']
  obtain ⟨hkept, rfl⟩ | ⟨made, hmade, rfl, rfl⟩ := hscope
  · obtain ⟨hlt, hlt'⟩ := hagree.existed _ hkept
    exact ⟨Nat.lt_add_right scopes hlt, Nat.lt_add_right scopes hlt'⟩
  · exact ⟨Nat.add_lt_add_left hmade _, Nat.add_lt_add_left hmade _⟩

/-- No scope stands for two others. -/
theorem scopes_iff (hagree : first.Agreeing second kept between state state')
    {scope scope' other other' : ScopeId} (hscope : between.scopes scope scope')
    (hother : between.scopes other other') : scope = other ↔ scope' = other' := by
  obtain ⟨scopes, functions, rfl, -⟩ := hagree.made
  obtain ⟨hkept, rfl⟩ | ⟨made, -, rfl, rfl⟩ := hscope <;>
    obtain ⟨hkept', rfl⟩ | ⟨made', -, rfl, rfl⟩ := hother
  · rfl
  · obtain ⟨hlt, hlt'⟩ := hagree.existed _ hkept
    exact iff_of_false (Nat.ne_of_lt (Nat.lt_add_right made' hlt))
      (Nat.ne_of_lt (Nat.lt_add_right made' hlt'))
  · obtain ⟨hlt, hlt'⟩ := hagree.existed _ hkept'
    exact iff_of_false (Nat.ne_of_gt (Nat.lt_add_right made hlt))
      (Nat.ne_of_gt (Nat.lt_add_right made hlt'))
  · rw [Nat.add_left_cancel_iff, Nat.add_left_cancel_iff]

/-- Scopes that stand for each other are none of those that have to be left alone. -/
theorem ne_untouched (hagree : first.Agreeing second kept between state state')
    {scope scope' other : ScopeId} (hscope : between.scopes scope scope') (hother : ¬kept other) :
    (other < first.store.scopes.size → scope ≠ other) ∧
      (other < second.store.scopes.size → scope' ≠ other) := by
  obtain ⟨scopes, functions, rfl, -⟩ := hagree.made
  obtain ⟨hkept, rfl⟩ | ⟨made, -, rfl, rfl⟩ := hscope
  · exact ⟨fun _ hsame ↦ hother (hsame ▸ hkept), fun _ hsame ↦ hother (hsame ▸ hkept)⟩
  · exact ⟨fun hlt ↦ Nat.ne_of_gt (Nat.lt_add_right made hlt),
      fun hlt ↦ Nat.ne_of_gt (Nat.lt_add_right made hlt)⟩

theorem binds_eq (hagree : first.Agreeing second kept between state state')
    {scope scope' : ScopeId} (hscope : between.scopes scope scope') (name : String) :
    state.store.binds name scope = state'.store.binds name scope' := by
  rw [Store.binds_eq_isSome, Store.binds_eq_isSome]
  exact isSome_eq_of_rel (hagree.values hscope name)

/-- A name belongs to scopes that stand for each other. The induction goes outwards. -/
theorem owner? (hagree : first.Agreeing second kept between state state')
    {scope scope' : ScopeId} (hscope : between.scopes scope scope') (name : String) :
    Option.Rel between.scopes (state.store.owner? name scope)
      (state'.store.owner? name scope') := by
  induction scope using Nat.strongRecOn generalizing scope' with
  | ind scope ih =>
    rw [Store.owner?_eq, Store.owner?_eq, hagree.binds_eq hscope]
    split
    · exact .some hscope
    · have houter := hagree.enclosing hscope
      have hlt (outer : ScopeId) : state.store.enclosing? scope = some outer → outer < scope :=
        Store.lt_of_enclosing?
      generalize state.store.enclosing? scope = outer? at houter hlt
      generalize state'.store.enclosing? scope' = outer?' at houter
      cases houter with
      | some houter => exact ih _ (hlt _ rfl) houter
      | none => exact .none

theorem get? (hagree : first.Agreeing second kept between state state') {scope scope' : ScopeId}
    (hscope : between.scopes scope scope') (name : String) :
    Option.Rel (Value.Same between) (state.store.get? name scope)
      (state'.store.get? name scope') :=
  Store.rel_get? (hagree.owner? hscope name) fun _ _ howner ↦ hagree.values howner name

/-! ### Steps -/

theorem printLine (hagree : first.Agreeing second kept between state state') (line : String) :
    first.Agreeing second kept between (state.printLine line) (state'.printLine line) :=
  { hagree with output := congrArg (· ++ line ++ "\n") hagree.output }

/-- A name is bound in scopes that stand for each other. -/
theorem define (hagree : first.Agreeing second kept between state state') {scope scope' : ScopeId}
    (hscope : between.scopes scope scope') {value value' : Value}
    (hvalue : Value.Same between value value') (name : String) :
    first.Agreeing second kept between (state.define name value scope)
      (state'.define name value' scope') := by
  obtain ⟨hlt, hlt'⟩ := hagree.lt_size hscope
  refine { hagree with
    made := ?_, values := ?_, enclosing := ?_, untouched := ?_, untouched' := ?_ }
  · simpa only [Interpreter.define, Store.size_define] using hagree.made
  · intro inner inner' hinner other
    rw [Interpreter.define, Interpreter.define, Store.valueAt?_define _ _ _ _ _ _ hlt,
      Store.valueAt?_define _ _ _ _ _ _ hlt']
    simp only [hagree.scopes_iff hinner hscope]
    split
    · exact .some hvalue
    · exact hagree.values hinner other
  · intro inner inner' hinner
    simpa only [Interpreter.define, Store.enclosing?_define] using hagree.enclosing hinner
  · intro other hother hkept
    have hne := (hagree.ne_untouched hscope hkept).1 hother
    rw [Interpreter.define, Store.getElem?_define, if_neg hne]
    exact hagree.untouched other hother hkept
  · intro other hother hkept
    have hne := (hagree.ne_untouched hscope hkept).2 hother
    rw [Interpreter.define, Store.getElem?_define, if_neg hne]
    exact hagree.untouched' other hother hkept

/-- A function is made by each side, and it is made from the same declaration in scopes that stand
for each other. -/
theorem newFunction (hagree : first.Agreeing second kept between state state')
    {captured captured' : ScopeId} (hcaptured : between.scopes captured captured')
    (declaration : FunctionDeclaration) : ∃ grown, between ≤ grown ∧
      Value.Same grown (state.newFunction (.declared declaration captured)).1
        (state'.newFunction (.declared declaration captured')).1 ∧
      first.Agreeing second kept grown (state.newFunction (.declared declaration captured)).2
        (state'.newFunction (.declared declaration captured')).2 := by
  obtain ⟨scopes, functions, rfl, hsize, hsize', hfunctions, hfunctions'⟩ := hagree.made
  have hgrown : Correspondence.since first second kept scopes functions
      ≤ .since first second kept scopes (functions + 1) :=
    Correspondence.since_le (Nat.le_refl _) (Nat.le_succ _)
  refine ⟨_, hgrown, ?_, ?_⟩
  · refine .function (.declared declaration ?_ hcaptured)
    exact .inr ⟨functions, Nat.lt_succ_self _, hfunctions, hfunctions'⟩
  · exact {
      existed := hagree.existed
      made := ⟨scopes, functions + 1, rfl, hsize, hsize', congrArg (· + 1) hfunctions,
        congrArg (· + 1) hfunctions'⟩
      globals := hagree.globals
      output := hagree.output
      values := fun hscope name ↦
        rel_imp (hagree.values hscope name) fun _ _ hvalue ↦ hvalue.grow hgrown
      enclosing := hagree.enclosing
      untouched := hagree.untouched
      untouched' := hagree.untouched' }

/-- A scope is made by each side, inside of scopes that stand for each other. The new scopes stand
for each other from then on, and nothing else is new. -/
theorem push (hagree : first.Agreeing second kept between state state') {found found' : Scope}
    (hvalues : ∀ name, Option.Rel (Value.Same between) (found.value? name) (found'.value? name))
    (henclosing : Option.Rel between.scopes found.enclosing found'.enclosing) :
    ∃ grown, between ≤ grown ∧
      grown.scopes state.store.scopes.size state'.store.scopes.size ∧
      first.Agreeing second kept grown
        { state with store := ⟨state.store.scopes.push found⟩ }
        { state' with store := ⟨state'.store.scopes.push found'⟩ } := by
  have hlt {scope scope' : ScopeId} (hscope : between.scopes scope scope') := hagree.lt_size hscope
  obtain ⟨scopes, functions, rfl, hsize, hsize', hfunctions, hfunctions'⟩ := hagree.made
  let grown := Correspondence.since first second kept (scopes + 1) functions
  have hgrown : Correspondence.since first second kept scopes functions ≤ grown :=
    Correspondence.since_le (Nat.le_succ _) (Nat.le_refl _)
  have hscopes {scope scope' : ScopeId} (hscope : grown.scopes scope scope') :
      (Correspondence.since first second kept scopes functions).scopes scope scope' ∨
        scope = state.store.scopes.size ∧ scope' = state'.store.scopes.size := by
    obtain hkept | ⟨made, hmade, rfl, rfl⟩ := hscope
    · exact .inl (.inl hkept)
    · obtain hmade | rfl := Nat.lt_succ_iff_lt_or_eq.mp hmade
      · exact .inl (.inr ⟨made, hmade, rfl, rfl⟩)
      · exact .inr ⟨hsize.symm, hsize'.symm⟩
  have hmade : ∃ scopes' functions', grown = .since first second kept scopes' functions' ∧
      (state.store.scopes.push found).size = first.store.scopes.size + scopes' ∧
      (state'.store.scopes.push found').size = second.store.scopes.size + scopes' ∧
      state.functions = first.functions + functions' ∧
      state'.functions = second.functions + functions' := by
    refine ⟨scopes + 1, functions, rfl, ?_, ?_, hfunctions, hfunctions'⟩
    · rw [Array.size_push, hsize, Nat.add_assoc]
    · rw [Array.size_push, hsize', Nat.add_assoc]
  refine ⟨_, hgrown, .inr ⟨scopes, Nat.lt_succ_self _, hsize, hsize'⟩, ⟨hagree.existed, hmade,
    hgrown.1 _ _ hagree.globals, hagree.output, fun hscope name ↦ ?_, fun hscope ↦ ?_,
    fun scope hscope hkept ↦ ?_, fun scope hscope hkept ↦ ?_⟩⟩
  · rw [Store.valueAt?_push, Store.valueAt?_push]
    obtain hscope | ⟨rfl, rfl⟩ := hscopes hscope
    · obtain ⟨hlt, hlt'⟩ := hlt hscope
      rw [if_neg (Nat.ne_of_lt hlt), if_neg (Nat.ne_of_lt hlt')]
      exact rel_imp (hagree.values hscope name) fun _ _ hvalue ↦ hvalue.grow hgrown
    · rw [if_pos rfl, if_pos rfl]
      exact rel_imp (hvalues name) fun _ _ hvalue ↦ hvalue.grow hgrown
  · rw [Store.enclosing?_push, Store.enclosing?_push]
    obtain hscope | ⟨rfl, rfl⟩ := hscopes hscope
    · obtain ⟨hlt, hlt'⟩ := hlt hscope
      rw [if_neg (Nat.ne_of_lt hlt), if_neg (Nat.ne_of_lt hlt')]
      exact rel_imp (hagree.enclosing hscope) hgrown.1
    · rw [if_pos rfl, if_pos rfl]
      generalize found.enclosing = outer? at henclosing
      generalize found'.enclosing = outer?' at henclosing
      cases henclosing with
      | none => exact .none
      | some houter =>
        obtain ⟨hlt, hlt'⟩ := hlt houter
        rw [Option.filter_some, Option.filter_some, if_pos (decide_eq_true hlt),
          if_pos (decide_eq_true hlt')]
        exact .some (hgrown.1 _ _ houter)
  · have hne : scope ≠ state.store.scopes.size := by
      rw [hsize]
      exact Nat.ne_of_lt (Nat.lt_add_right scopes hscope)
    rw [← hagree.untouched scope hscope hkept]
    exact (Array.getElem?_push ..).trans (if_neg hne)
  · have hne : scope ≠ state'.store.scopes.size := by
      rw [hsize']
      exact Nat.ne_of_lt (Nat.lt_add_right scopes hscope)
    rw [← hagree.untouched' scope hscope hkept]
    exact (Array.getElem?_push ..).trans (if_neg hne)

end Agreeing

/-- The two states also have current scopes that stand for each other. -/
structure AgreeingAt (first second : Interpreter) (kept : ScopeId → Prop)
    (between : Correspondence) (state state' : Interpreter) : Prop
    extends first.Agreeing second kept between state state' where
  current : between.scopes state.current state'.current

theorem Agreeing.enter {first second state state' : Interpreter} {kept : ScopeId → Prop}
    (hagree : first.Agreeing second kept between state state') {scope scope' : ScopeId}
    (hscope : between.scopes scope scope') :
    first.AgreeingAt second kept between (state.enter scope).2 (state'.enter scope').2 :=
  { hagree with current := hscope }

/-- Which scopes are current afterwards is of no account. -/
theorem Agreeing.leave {first second state state' : Interpreter} {kept : ScopeId → Prop}
    (hagree : first.Agreeing second kept between state state') {scope scope' : ScopeId} :
    first.Agreeing second kept between (state.enter scope).2 (state'.enter scope').2 :=
  { hagree with }

/-- A value that can be come by in both states stands for itself. -/
theorem Holds.same {roots : ScopeId → Prop} {first second : Interpreter} {value : Value}
    (hfirst : first.Holds roots value) (hsecond : second.Holds roots value) :
    Value.Same (.since first second (first.store.Reaches roots) 0 0) value value := by
  cases value with
  | function callee =>
    have hidentity : (Correspondence.since first second (first.store.Reaches roots) 0 0).functions
        callee.identity callee.identity :=
      .inl ⟨hfirst.knows.identity _ rfl, hsecond.knows.identity _ rfl, rfl⟩
    obtain ⟨identity, body⟩ := callee
    cases body with
    | declared declaration captured =>
      exact .function (.declared declaration hidentity (.inl ⟨hfirst.reaches _ rfl, rfl⟩))
    | native name arity operation => exact .function (.native name arity operation hidentity)
  | _ => constructor

/-- Two states that agree on what is reachable agree at the beginning. -/
theorem AgreeOn.agreeing {roots : ScopeId → Prop} {first second : Interpreter}
    (hagree : first.AgreeOn roots second) (hfirst : first.WellFormed) (hsecond : second.WellFormed)
    (hroots : ∀ scope, roots scope → scope < first.store.scopes.size)
    (hglobals : first.store.Reaches roots first.globals) :
    first.Agreeing second (first.store.Reaches roots)
      (.since first second (first.store.Reaches roots) 0 0) first second where
  existed scope hscope := by
    have hlt := hfirst.lt_of_reaches hroots hscope
    exact ⟨hlt, (hagree.lt_size_iff hscope).mp hlt⟩
  made := ⟨0, 0, rfl, rfl, rfl, rfl, rfl⟩
  globals := .inl ⟨hglobals, hagree.globals.symm⟩
  output := hagree.output
  values := by
    rintro _ scope (⟨hscope, rfl⟩ | ⟨_, hmade, _⟩) name
    · have hsame := hagree.valueAt?_eq hscope name
      rw [← hsame]
      cases hvalue : first.store.valueAt? name scope with
      | none => exact .none
      | some value =>
        have hheld := hfirst.holds hscope hvalue
        exact .some (hheld.same (hsecond.holds (hagree.symm.reaches hscope) (hsame ▸ hvalue)))
    · exact absurd hmade (Nat.not_lt_zero _)
  enclosing := by
    rintro _ scope (⟨hscope, rfl⟩ | ⟨_, hmade, _⟩)
    · rw [← hagree.enclosing?_eq hscope]
      cases houter : first.store.enclosing? scope with
      | none => exact .none
      | some outer => exact .some (.inl ⟨hscope.enclosing houter, rfl⟩)
    · exact absurd hmade (Nat.not_lt_zero _)
  untouched _ _ _ := rfl
  untouched' _ _ _ := rfl

end Interpreter

end Lox
