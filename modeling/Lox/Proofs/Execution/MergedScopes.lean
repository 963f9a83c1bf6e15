import Lox.Proofs.Execution.Tandem

/-!
# Two scopes in the place of one

Top-level statements are executed in the global scope, next to the functions of the host. Within a
block they are executed in a scope of their own, inside of the global one. `Interpreter.Merged` is
what then holds of the two states at any time: the one with the block has one scope more, so that
every scope stands for the one that was made one scope later, and a name that is bound in the global
scope of the other state is bound in the scope of the block or, if not there, in the global scope.
In the latter case it is the name of a function of the host, and these are the only names that are
ever bound there.

Nothing that a program does can tell the two states apart (`Interpreter.MergedIn.tandem`), as long
as no function of the host looks anything up in the global scope (`Native.OnlyReadsClock`).
-/

set_option autoImplicit false
set_option relaxedAutoImplicit false

namespace Lox

/-- Binding a name in a scope, which need not exist. -/
theorem Store.valueAt?_define_ite (store : Store) (name other : String) (value : Value)
    (scope inner : ScopeId) : (store.define name value scope).valueAt? other inner =
      if inner = scope ∧ other = name ∧ scope < store.scopes.size then some value
      else store.valueAt? other inner := by
  by_cases hscope : scope < store.scopes.size
  · simp only [Store.valueAt?_define _ _ _ _ _ _ hscope, hscope, and_true]
  · have hnone : store.scopes[scope]? = none := Array.getElem?_eq_none (Nat.le_of_not_lt hscope)
    rw [if_neg fun h ↦ hscope h.2.2, valueAt?, valueAt?, Store.getElem?_define]
    split
    · next hinner => rw [← hinner, hnone, Option.map_none]
    · rfl

/-- Binding a name anew leaves the names as they are. -/
theorem Bindings.map_fst_insert {name : String} {bindings : Bindings}
    (hbound : (bindings.lookup name).isSome) (value : Value) :
    (bindings.insert name value).map Prod.fst = bindings.map Prod.fst := by
  induction bindings with
  | nil => cases hbound
  | cons binding others ih =>
    obtain ⟨bound, former⟩ := binding
    rw [Bindings.insert]
    split
    · next hname => rw [hname, List.map_cons, List.map_cons]
    · next hname =>
      have hother : (others.lookup name).isSome := by
        rwa [List.lookup_cons, beq_eq_false_iff_ne.mpr (Ne.symm hname)] at hbound
      rw [List.map_cons, List.map_cons, ih hother]

/-- Every scope stands for the one that was made one scope later. -/
def Correspondence.behind : Correspondence := .ofScopes fun scope scope' ↦ scope = scope' + 1

/-- Operations of the host that look at nothing but the clock. -/
inductive Native.OnlyReadsClock : Native → Prop
  | clock (now : Instant) : OnlyReadsClock (.clock now)
  | date (now : Instant) : OnlyReadsClock (.date now)

/-- Values that stand for each other, and if they are functions of the host, they look at nothing
but the clock. -/
structure Value.SameReadingClock (between : Correspondence) (value value' : Value) : Prop where
  same : Value.Same between value value'
  native : ∀ identity name arity operation,
    value = .function ⟨identity, .native name arity operation⟩ → operation.OnlyReadsClock

/-- Such values cannot be told apart by a program. One that stands for itself in every way is no
function, as nothing may stand for its identity. -/
theorem Value.SameReadingClock.indiscernible : Indiscernible id Value.SameReadingClock where
  between_le hmore := hmore
  grow hmore hvalue := ⟨hvalue.same.grow hmore, hvalue.native⟩
  same hvalue := hvalue.same
  data {_ value} hvalue := by
    refine ⟨.of_matches hvalue, ?_⟩
    rintro identity name arity operation rfl
    cases hvalue ⟨fun _ _ ↦ False, fun _ _ ↦ False, False.elim⟩ with
    | function hcallee =>
      cases hcallee with
      | native _ _ _ hidentity => exact hidentity.elim

/-- Values in two states of which the first one has one scope more. -/
abbrev Value.Behind : Value → Value → Prop := Value.SameReadingClock .behind

/-- The value that a name has in a scope, where the two outermost scopes count as one. -/
def Store.mergedAt? (store : Store) (name : String) (scope : ScopeId) : Option Value :=
  if scope = 1 then (store.valueAt? name 1).or (store.valueAt? name 0)
  else store.valueAt? name scope

/-- The global scope is looked at for names only that are not bound in the block. -/
theorem Store.mergedAt?_of_isSome {store : Store} {name : String} {scope : ScopeId}
    (hbound : (store.valueAt? name scope).isSome) :
    store.mergedAt? name scope = store.valueAt? name scope := by
  rw [mergedAt?]
  split
  · next hone =>
    rw [← hone]
    obtain ⟨value, hvalue⟩ := Option.isSome_iff_exists.mp hbound
    rw [hvalue, Option.some_or]
  · rfl

namespace Interpreter

/-- A state within a block at top level, and a state at top level. -/
structure Merged (natives : List String) (state state' : Interpreter) : Prop where
  positive : 0 < state'.store.scopes.size
  size : state.store.scopes.size = state'.store.scopes.size + 1
  current : state.current = state'.current + 1
  globals : state.globals = 0
  names : (state.store.bindings 0).map Prod.fst = natives
  output : state.output = state'.output
  functions : state.functions = state'.functions
  outermost : state.store.enclosing? 1 = some 0
  enclosing : ∀ scope : ScopeId, scope ≠ 0 →
    state.store.enclosing? (scope + 1) = (state'.store.enclosing? scope).map (· + 1)
  values : ∀ scope name, Option.Rel Value.Behind (state.store.mergedAt? name (scope + 1))
    (state'.store.valueAt? name scope)

/-- The scopes that a name belongs to: one stands for the other, or both are global and the name is
not bound in the block. -/
inductive OwnedBy (state : Interpreter) (name : String) : ScopeId → ScopeId → Prop
  | behind (owner : ScopeId) : OwnedBy state name (owner + 1) owner
  | global : state.store.valueAt? name 1 = none → (state.store.valueAt? name 0).isSome →
    OwnedBy state name 0 0

namespace Merged

variable {natives : List String} {state state' : Interpreter}

/-- The scopes that bind a name belong to it in both states. -/
theorem owner? (h : Merged natives state state') (name : String) (scope : ScopeId) :
    Option.Rel (fun owner owner' ↦
        state.OwnedBy name owner owner' ∧ (state.store.valueAt? name owner).isSome)
      (state.store.owner? name (scope + 1)) (state'.store.owner? name scope) := by
  induction scope using Nat.strongRecOn with
  | ind scope ih =>
    have hvalue := isSome_eq_of_rel (h.values scope name)
    rw [Store.owner?_eq, Store.owner?_eq state'.store, Store.binds_eq_isSome, Store.binds_eq_isSome,
      ← hvalue, Store.mergedAt?]
    by_cases hscope : scope = 0
    · subst hscope
      have houter' : state'.store.enclosing? 0 = none := by simp [Store.enclosing?]
      have houter : state.store.enclosing? 0 = none := by simp [Store.enclosing?]
      rw [houter', Nat.zero_add, h.outermost, if_pos rfl, Option.bind_some, Store.owner?_eq,
        Store.binds_eq_isSome, houter]
      cases hblock : state.store.valueAt? name 1 with
      | some value => exact .some ⟨.behind 0, by rw [hblock, Option.isSome_some]⟩
      | none =>
        cases hglobal : state.store.valueAt? name 0 with
        | some value =>
          have hbound : (state.store.valueAt? name 0).isSome := by rw [hglobal, Option.isSome_some]
          exact .some ⟨.global hblock hbound, hbound⟩
        | none => exact .none
    · rw [h.enclosing scope hscope, if_neg fun hone ↦ hscope (Nat.succ.inj hone)]
      split
      · next hbound => exact .some ⟨.behind scope, hbound⟩
      · cases houter : state'.store.enclosing? scope with
        | none => exact .none
        | some outer => exact ih outer (Store.lt_of_enclosing? houter)

/-- The values of a name in scopes that it belongs to. -/
theorem rel_valueAt? (h : Merged natives state state') {name : String} {owner owner' : ScopeId}
    (howned : state.OwnedBy name owner owner') (hbound : (state.store.valueAt? name owner).isSome) :
    Option.Rel Value.Behind (state.store.valueAt? name owner)
      (state'.store.valueAt? name owner') := by
  have hvalue := h.values owner' name
  cases howned with
  | behind => rwa [Store.mergedAt?_of_isSome hbound] at hvalue
  | global hblock _ => rwa [Store.mergedAt?, if_pos rfl, hblock, Option.none_or] at hvalue

theorem get? (h : Merged natives state state') (name : String) (scope : ScopeId) :
    Option.Rel Value.Behind (state.store.get? name (scope + 1))
      (state'.store.get? name scope) :=
  Store.rel_get? (h.owner? name scope) fun _ _ howner ↦ h.rel_valueAt? howner.1 howner.2

/-! ### Steps -/

theorem printLine (h : Merged natives state state') (line : String) :
    Merged natives (state.printLine line) (state'.printLine line) :=
  { h with output := congrArg (· ++ line ++ "\n") h.output }

/-- A name is bound in scopes that it belongs to. -/
theorem define (h : Merged natives state state') {name : String} {owner owner' : ScopeId}
    (howned : state.OwnedBy name owner owner') {value value' : Value}
    (hvalue : Value.Behind value value') :
    Merged natives (state.define name value owner) (state'.define name value' owner') := by
  refine { h with
    positive := ?_, size := ?_, names := ?_, outermost := ?_, enclosing := ?_, values := ?_ }
  · simpa only [Interpreter.define, Store.size_define] using h.positive
  · simpa only [Interpreter.define, Store.size_define] using h.size
  · rw [← h.names, Interpreter.define, Store.bindings, Store.bindings, Store.getElem?_define]
    cases howned with
    | behind => rw [if_neg (Nat.succ_ne_zero _)]
    | global _ hbound =>
      rw [if_pos rfl]
      rw [Store.valueAt?] at hbound
      cases hfound : state.store.scopes[0]? with
      | none => rfl
      | some found =>
        rw [hfound] at hbound
        exact Bindings.map_fst_insert hbound value
  · simpa only [Interpreter.define, Store.enclosing?_define] using h.outermost
  · simpa only [Interpreter.define, Store.enclosing?_define] using h.enclosing
  · intro scope other
    have hsize := h.size
    have hpositive := h.positive
    have hmerged : (state.store.define name value owner).mergedAt? other (scope + 1) =
        if scope = owner' ∧ other = name ∧ owner' < state'.store.scopes.size then some value
        else state.store.mergedAt? other (scope + 1) := by
      simp only [Store.mergedAt?, Store.valueAt?_define_ite]
      cases howned with
      | behind => grind
      | global hblock _ => grind
    rw [Interpreter.define, Interpreter.define, hmerged, Store.valueAt?_define_ite]
    split
    · exact .some hvalue
    · exact h.values scope other

theorem newFunction (h : Merged natives state state') (declaration : FunctionDeclaration)
    (captured : ScopeId) :
    Value.Behind (state.newFunction (.declared declaration (captured + 1))).1
        (state'.newFunction (.declared declaration captured)).1 ∧
      Merged natives (state.newFunction (.declared declaration (captured + 1))).2
        (state'.newFunction (.declared declaration captured)).2 := by
  refine ⟨⟨.function (.declared declaration h.functions rfl), ?_⟩,
    { h with functions := congrArg (· + 1) h.functions }⟩
  rintro _ _ _ _ ⟨⟩

theorem nested (h : Merged natives state state') {pairs pairs' : List (String × Value)}
    (hpairs : List.Forall₂ (fun pair pair' ↦ pair.1 = pair'.1 ∧ Value.Behind pair.2 pair'.2)
      pairs pairs') (enclosing : ScopeId) :
    Merged natives (state.nested (enclosing + 1) pairs) (state'.nested enclosing pairs') := by
  have hsize := h.size
  have hpositive := h.positive
  have hglobal : 0 ≠ state.store.scopes.size := by omega
  have hblock : 1 ≠ state.store.scopes.size := by omega
  refine { h with
    positive := ?_, size := ?_, current := h.size, names := ?_, outermost := ?_,
    enclosing := fun scope hscope ↦ ?_, values := fun scope name ↦ ?_ }
  · simp [Interpreter.nested]
  · simp only [Interpreter.nested, Array.size_push, hsize]
  · simp only [Interpreter.nested, Store.bindings, Array.getElem?_push, if_neg hglobal]
    exact h.names
  · simp only [Interpreter.nested, Store.enclosing?_push, if_neg hblock]
    exact h.outermost
  · simp only [Interpreter.nested, Store.enclosing?_push, hsize, Nat.add_right_cancel_iff]
    split
    · simp only [Option.filter_some, Nat.add_lt_add_iff_right]
      split <;> rfl
    · exact h.enclosing scope hscope
  · have hvalues := h.values scope name
    simp only [Store.mergedAt?] at hvalues ⊢
    simp only [Interpreter.nested, Store.valueAt?_push, if_neg hglobal, if_neg hblock]
    by_cases hscope : scope = state'.store.scopes.size
    · have hinner : scope + 1 = state.store.scopes.size := by rw [hscope, hsize]
      rw [if_neg fun hone ↦ hblock (hone.symm.trans hinner), if_pos hinner, if_pos hscope]
      exact Bindings.rel_lookup_ofPairs hpairs name
    · have hinner : scope + 1 ≠ state.store.scopes.size :=
        fun hinner ↦ hscope (Nat.succ.inj (hinner.trans hsize))
      rw [if_neg hinner, if_neg hscope]
      exact hvalues

/-- Which scopes are current, as long as they stand for each other, is of no account. -/
theorem enter (h : Merged natives state state') {scope scope' : ScopeId}
    (hscope : scope = scope' + 1) :
    Merged natives (state.enter scope).2 (state'.enter scope').2 :=
  { h with current := hscope }

end Merged

/-- Every scope stands for the one that was made one scope later, and the states are merged. -/
def MergedIn (natives : List String) (between : Correspondence) (state state' : Interpreter) :
    Prop :=
  between = .behind ∧ Merged natives state state'

namespace MergedIn

variable {natives : List String}

/-- Whatever is run within the block and at top level is in tandem. In both, names may be bound. -/
theorem tandem (natives : List String) :
    Tandem .standard id Value.SameReadingClock (fun _ : Unit ↦ True)
      fun _ ↦ MergedIn natives where
  toIndiscernible := Value.SameReadingClock.indiscernible
  current := by
    rintro _ _ _ _ ⟨rfl, h⟩
    exact h.current
  lookups _ := by
    rintro _ _ _ ⟨rfl, h⟩ _ scope rfl name
    exact h.get? name scope
  printLine := by
    rintro _ _ _ _ ⟨rfl, h⟩ line
    exact ⟨rfl, h.printLine line⟩
  define := by
    rintro _ _ state state' _ _ - ⟨rfl, h⟩ hvalue name
    have howned : state.OwnedBy name state.current state'.current := by
      rw [h.current]
      exact .behind _
    exact ⟨rfl, h.define howned hvalue⟩
  owners := by
    rintro _ _ state state' ⟨rfl, h⟩ name
    have howner := h.owner? name state'.current
    rw [← h.current] at howner
    exact rel_imp howner fun _ _ howned _ _ hvalue ↦ ⟨rfl, h.define howned.1 hvalue⟩
  newFunction := by
    rintro _ _ state state' _ captured ⟨rfl, h⟩ rfl declaration
    obtain ⟨hvalue, hmade⟩ := h.newFunction declaration captured
    exact ⟨.behind, le_rfl, hvalue, rfl, hmade⟩
  nested := by
    rintro _ _ state state' _ enclosing _ _ ⟨rfl, h⟩ rfl hpairs
    refine ⟨(), .behind, trivial, le_rfl, ⟨rfl, h.nested hpairs enclosing⟩, ?_⟩
    rintro _ - _ _ ⟨rfl, hreached⟩
    exact ⟨rfl, hreached.enter h.current⟩
  perform := by
    intro _ _ _ calls calls' _ identity _ name arity operation hvalue arguments arguments' _
    cases hvalue.native identity name arity operation rfl with
    | clock now =>
      exact .pure fun _ _ ↦ Value.SameReadingClock.indiscernible.data fun _ ↦ .string _
    | date now =>
      exact .pure fun _ _ ↦ Value.SameReadingClock.indiscernible.data fun _ ↦ .string _

theorem inTandem_executeAll {bound : Nat} (statements : List Stmt) :
    InTandem (MergedIn natives) (fun between ↦ Flow.Related (Value.SameReadingClock between))
      .behind bound (executeAll .standard · statements) (executeAll .standard · statements) := by
  have hupTo := (tandem natives).upTo bound
  exact @hupTo.executeAll () .behind statements trivial

end MergedIn

end Interpreter

end Lox
