import Lox.Proofs.Scoping.Steps

/-!
# Which lookups see a write

Scopes are shared: several names of scopes may lead to one of them, and a name may be bound anywhere
along a chain. A scope is *exposed* to a lookup of a name from a handle if it lies on the handle's
chain and no scope before it there binds the name (`Store.Exposes`). Binding a name is seen by
exactly the lookups of this name to which the scope is exposed, whether or not it was bound there
before (`Store.get?_define_of_exposes`, `Store.get?_define_of_not_exposes`).

An assignment binds the name anew in its owner, and an owner is exposed to a handle exactly if it is
what the handle itself finds (`Store.exposes_iff_find?`). So `writes_visible_exactly` follows for
both ways of writing, over every store that can be built.
-/

set_option autoImplicit false
set_option relaxedAutoImplicit false

namespace Lox

namespace Store

/-- The stores that come about by making scopes, inside of another one or not, and by binding and
assigning names in those that were made. -/
inductive Built : Store → Prop
  | empty : Built .empty
  | root {store : Store} : Built store → Built (store.allocate none).2
  | child {store : Store} {scope : ScopeId} : Built store → scope < store.scopes.size →
    Built (store.allocate (some scope)).2
  | define {store : Store} {scope : ScopeId} (name : String) (value : Value) : Built store →
    scope < store.scopes.size → Built (store.define name value scope)
  | assign {store : Store} {scope : ScopeId} (name : String) (value : Value) : Built store →
    scope < store.scopes.size → Built (store.assign name value scope).2

/-- A scope lies on the chain of a handle, and no scope before it there binds the name. -/
def Exposes (store : Store) (name : String) (scope handle : ScopeId) : Prop :=
  ∃ nearer farther, store.chain handle = nearer ++ scope :: farther ∧
    ∀ inner ∈ nearer, store.binds name inner = false

theorem Built.linksBack {store : Store} (hbuilt : store.Built) : store.LinksBack := by
  induction hbuilt with
  | empty => simp [LinksBack, Store.empty]
  | root _ ih => exact ih.allocate (by simp)
  | child _ hscope ih => exact ih.allocate (by simpa using hscope)
  | define name value _ _ ih => exact ih.define name value _
  | assign name value _ _ ih => exact ih.assign name value _

variable {store : Store} {name other : String} {scope handle : ScopeId}

theorem get?_define_of_exposes (hscope : scope < store.scopes.size)
    (hexposes : store.Exposes name scope handle) (value : Value) :
    (store.define name value scope).get? name handle = some value := by
  obtain ⟨nearer, farther, hchain, hnearer⟩ := hexposes
  rw [get?_eq_findSome?, chain_define, hchain]
  clear hchain
  induction nearer with
  | nil => simp [valueAt?_define _ _ _ _ _ _ hscope]
  | cons inner nearer ih =>
    have hinner := hnearer inner List.mem_cons_self
    have hothers := ih fun other hother ↦ hnearer other (List.mem_cons_of_mem _ hother)
    rw [List.cons_append, List.findSome?_cons, valueAt?_define _ _ _ _ _ _ hscope]
    by_cases hsame : inner = scope
    · simp [hsame]
    · rw [binds_eq_isSome, Option.isSome_eq_false_iff, Option.isNone_iff_eq_none] at hinner
      simpa [hsame, hinner] using hothers

/-- A name keeps its value wherever the new one is not exposed. The induction is on the chain, and a
scope that does not bind the name exposes what is behind it. -/
theorem get?_define_of_not_exposes (hscope : scope < store.scopes.size)
    (hhidden : ¬(other = name ∧ store.Exposes name scope handle)) (value : Value) :
    (store.define name value scope).get? other handle = store.get? other handle := by
  rw [get?_eq_findSome?, get?_eq_findSome?, chain_define]
  by_cases hother : other = name
  · subst hother
    have hchain : ¬∃ nearer farther, store.chain handle = nearer ++ scope :: farther ∧
        ∀ inner ∈ nearer, store.binds other inner = false := fun h ↦ hhidden ⟨rfl, h⟩
    generalize store.chain handle = chain at hchain
    induction chain with
    | nil => rfl
    | cons inner chain ih =>
      have hinner : inner ≠ scope := by
        intro h
        exact hchain ⟨[], chain, by rw [h, List.nil_append], by simp⟩
      rw [List.findSome?_cons, List.findSome?_cons, valueAt?_define _ _ _ _ _ _ hscope,
        if_neg fun h ↦ hinner h.1]
      cases hvalue : store.valueAt? other inner with
      | some found => rfl
      | none =>
        refine ih ?_
        rintro ⟨nearer, farther, rfl, hnearer⟩
        refine hchain ⟨inner :: nearer, farther, rfl, ?_⟩
        have hunbound : store.binds other inner = false := by rw [binds_eq_isSome, hvalue]; rfl
        simpa [hunbound] using hnearer
  · congr 1
    funext inner
    rw [valueAt?_define _ _ _ _ _ _ hscope, if_neg fun h ↦ hother h.2]

/-! ### Assigning to a name -/

/-- A scope that binds a name is exposed to a handle exactly if it is what the handle finds. -/
theorem exposes_iff_find? (hbinds : store.binds name scope = true) :
    store.Exposes name scope handle ↔
      (store.chain handle).find? (store.binds name) = some scope := by
  rw [List.find?_eq_some_iff_append]
  simp [Exposes, hbinds]

/-- A name that is bound already adds nothing to the names of a scope. -/
theorem binds_define_of_binds (hbinds : store.binds name scope = true) (value : Value)
    (other : String) (inner : ScopeId) :
    (store.define name value scope).binds other inner = store.binds other inner := by
  rw [Bool.eq_iff_iff, binds_define, or_iff_left_iff_imp]
  rintro ⟨rfl, rfl, -⟩
  exact hbinds

end Store

/-- In every store that can be built, binding a name is seen by exactly the lookups of it to which
the scope is exposed. An assignment succeeds if the name has a value, is then seen by exactly the
lookups of it that end in the same scope, and leaves the names of all scopes alone; otherwise it
fails and changes no lookup. -/
theorem writes_visible_exactly {interpreter : Interpreter} (hbuilt : interpreter.store.Built)
    {scope : ScopeId} (hscope : scope < interpreter.store.scopes.size) (name : String)
    (value : Value) :
    let store := interpreter.store
    let nearest? (handle : ScopeId) := (store.chain handle).find? (store.binds name)
    (∀ handle found, store.scopes[handle]? = some found →
      store.chain handle = handle :: (found.enclosing.map store.chain).getD []) ∧
    (∀ handle other,
      (other = name ∧ store.Exposes name scope handle →
        (store.define name value scope).get? other handle = some value) ∧
      (¬(other = name ∧ store.Exposes name scope handle) →
        (store.define name value scope).get? other handle = store.get? other handle)) ∧
    ((store.get? name scope).isSome → ∃ after,
      (Run.assignIn name value scope).run interpreter = .done () after ∧
      (∀ handle other,
        (other = name ∧ nearest? handle = nearest? scope →
          after.store.get? other handle = some value) ∧
        (¬(other = name ∧ nearest? handle = nearest? scope) →
          after.store.get? other handle = store.get? other handle)) ∧
      ∀ other inner, after.store.binds other inner = store.binds other inner) ∧
    (store.get? name scope = none → ∃ after,
      (Run.assignIn name value scope).run interpreter
        = .failed (.undefinedVariable name) after ∧
      ∀ handle other, after.store.get? other handle = store.get? other handle) := by
  intro store nearest?
  refine ⟨fun handle found ↦ hbuilt.linksBack.chain_eq, fun handle other ↦ ⟨?_, fun hhidden ↦ ?_⟩,
    fun hvalue ↦ ?_, fun hvalue ↦ ?_⟩
  · rintro ⟨rfl, hexposes⟩
    exact Store.get?_define_of_exposes hscope hexposes value
  · exact Store.get?_define_of_not_exposes hscope hhidden value
  · rw [Store.isSome_get?] at hvalue
    obtain ⟨owner, howner⟩ := Option.isSome_iff_exists.mp hvalue
    have hbinds := Store.binds_of_owner? howner
    have hexposes (handle : ScopeId) :
        store.Exposes name owner handle ↔ nearest? handle = nearest? scope := by
      rw [Store.exposes_iff_find? hbinds, ← howner, Store.owner?_eq_find?]
    refine ⟨_, by rw [Run.run_assignIn, howner, Option.elim_some], fun handle other ↦ ⟨?_, ?_⟩, ?_⟩
    · rintro ⟨rfl, hnearest⟩
      have hexposed := (hexposes handle).mpr hnearest
      exact Store.get?_define_of_exposes (Store.lt_of_binds hbinds) hexposed value
    · intro hhidden
      rw [← hexposes] at hhidden
      exact Store.get?_define_of_not_exposes (Store.lt_of_binds hbinds) hhidden value
    · exact Store.binds_define_of_binds hbinds value
  · have howner : store.owner? name scope = none := by
      rw [← Option.isNone_iff_eq_none, ← Option.not_isSome, ← Store.isSome_get?, hvalue]
      rfl
    exact ⟨_, by rw [Run.run_assignIn, howner, Option.elim_none], fun _ _ ↦ rfl⟩

/-- Two scopes inside a third one see it together. -/
theorem assignment_seen_from_beside :
    let store := (((Store.empty.allocate none).2.allocate (some 0)).2.allocate (some 0)).2.define
      "x" .nil 0
    let interpreter : Interpreter := ⟨store, 0, 0, "", 0⟩
    store.Built ∧ 1 < store.scopes.size ∧ ∃ after,
      (Run.assignIn "x" (.boolean true) 1).run interpreter = .done () after ∧
        after.store.get? "x" 2 = some (.boolean true) ∧
        after.store.binds "x" 1 = false := by
  intro store interpreter
  have hbuilt : interpreter.store.Built := by
    refine .define _ _ (.child (.child (.root .empty) ?_) ?_) ?_ <;> decide
  have hscope : 1 < store.scopes.size := by decide
  obtain ⟨-, -, hassign, -⟩ :=
    writes_visible_exactly hbuilt hscope "x" (.boolean true)
  obtain ⟨after, hrun, hseen, hnames⟩ := hassign (by decide +kernel)
  refine ⟨hbuilt, hscope, after, hrun, (hseen 2 "x").1 ⟨rfl, ?_⟩, ?_⟩
  · decide +kernel
  · rw [hnames]
    decide +kernel

end Lox
