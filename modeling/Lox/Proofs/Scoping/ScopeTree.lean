import Lox.Proofs.Execution.KnownValues
import Lox.Proofs.Scoping.Reachability

/-!
# The tree of scopes

Functions are bound in the scopes that they have captured, so that from scopes to values and back
one may go round in circles. But the links from scopes to the scopes that enclose them form a tree.
Its root is the global scope, since a scope is only ever made inside one that exists, and no link
changes later (`Interpreter.Rooted`). That holds whenever something comes up in a session, in the
middle of a run too, and then every scope that is in use exists (`scopes_form_tree`).

`Store.enclosing?` leaves out links that do not lead back. Here the links are taken as they stand:
`Store.Outwards` says what following them visits, and `Store.search` is the loop that looks a name
up by following them. The links of a rooted tree all lead back, so that both come to the same as
`Store.chain` and `Store.owner?`.
-/

set_option autoImplicit false
set_option relaxedAutoImplicit false

namespace Lox

namespace Store

/-- What following the links from a scope visits, up to a scope that nothing encloses. -/
inductive Outwards (store : Store) : ScopeId → List ScopeId → Prop
  | outermost {scope : ScopeId} {found : Scope} : store.scopes[scope]? = some found →
    found.enclosing = none → Outwards store scope [scope]
  | enclosed {scope outer : ScopeId} {found : Scope} {path : List ScopeId} :
    store.scopes[scope]? = some found → found.enclosing = some outer →
    Outwards store outer path → Outwards store scope (scope :: path)

/-- Searches for the scope that a name belongs to in so many turns: as long as there is a scope and
it does not bind the name, the next turn is about the enclosing one. It is none if the turns do not
suffice. -/
def search (store : Store) (name : String) : Nat → Option ScopeId → Option (Option ScopeId)
  | _, none => some none
  | 0, some _ => none
  | turns + 1, some scope =>
    if store.binds name scope then some (some scope)
    else store.search name turns (store.scopes[scope]?.bind Scope.enclosing)

namespace Outwards

variable {store : Store} {scope : ScopeId} {path : List ScopeId} (hlinks : store.LinksBack)
  (hpath : store.Outwards scope path)

include hlinks hpath

theorem eq_chain : path = store.chain scope := by
  induction hpath with
  | outermost hfound hnone => rw [hlinks.chain_eq hfound, hnone, Option.map_none, Option.getD_none]
  | enclosed hfound houter _ ih =>
    rw [hlinks.chain_eq hfound, houter, Option.map_some, Option.getD_some, ih]

theorem le_of_mem : ∀ visited ∈ path, visited ≤ scope := by
  induction hpath with
  | outermost => simp
  | enclosed hfound houter _ ih =>
    refine List.forall_mem_cons.mpr ⟨le_rfl, fun visited hvisited ↦ ?_⟩
    exact (ih visited hvisited).trans (hlinks _ _ _ hfound houter).le

theorem nodup : path.Nodup := by
  induction hpath with
  | outermost => simp
  | enclosed hfound houter houtwards ih =>
    refine List.nodup_cons.mpr ⟨fun hmem ↦ ?_, ih⟩
    have hle := houtwards.le_of_mem hlinks _ hmem
    exact absurd (hlinks _ _ _ hfound houter) (Nat.not_lt.mpr hle)

theorem length_le : path.length ≤ scope + 1 := by
  induction hpath with
  | outermost => simp
  | enclosed hfound houter _ ih =>
    have hlt := hlinks _ _ _ hfound houter
    exact Nat.succ_le_succ (ih.trans hlt)

/-- As many turns as there are scopes to visit suffice to find out whom a name belongs to. -/
theorem search_eq (name : String) {turns : Nat} (hturns : path.length ≤ turns) :
    store.search name turns (some scope) = some (store.owner? name scope) := by
  induction hpath generalizing turns with
  | outermost hfound hnone =>
    obtain ⟨turns, rfl⟩ := Nat.exists_eq_add_of_le' hturns
    rw [List.length_singleton, search, owner?_eq, enclosing?, hfound, Option.bind_some, hnone]
    split <;> simp [search]
  | enclosed hfound houter _ ih =>
    obtain ⟨turns, rfl⟩ := Nat.exists_eq_add_of_le' hturns
    have hback := hlinks _ _ _ hfound houter
    rw [List.length_cons, ← Nat.add_assoc, search, owner?_eq, enclosing?, hfound, Option.bind_some,
      houter, Option.filter_some, if_pos (decide_eq_true hback), Option.bind_some,
      ih (Nat.le_add_left _ _)]
    split <;> rfl

end Outwards

end Store

/-! ### Rooted trees -/

/-- The scope that a value has captured, if any, is among the first so many. -/
def Value.CapturedBelow (count : Nat) (value : Value) : Prop :=
  ∀ captured, value.captured? = some captured → captured < count

theorem Value.CapturedBelow.mono {count more : Nat} {value : Value}
    (hvalue : value.CapturedBelow count) (hmore : count ≤ more) : value.CapturedBelow more :=
  fun captured hcaptured ↦ (hvalue captured hcaptured).trans_le hmore

namespace Interpreter

/-- Nothing encloses the global scope, and every other scope is enclosed by one that was made before
it. The current scope and the scopes that are captured by what is bound anywhere exist. -/
structure Rooted (interpreter : Interpreter) : Prop where
  root : ∃ found, interpreter.store.scopes[interpreter.globals]? = some found ∧
    found.enclosing = none
  linked : ∀ scope found, interpreter.store.scopes[scope]? = some found →
    scope ≠ interpreter.globals → ∃ outer, found.enclosing = some outer ∧ outer < scope
  current : interpreter.current < interpreter.store.scopes.size
  captured : ∀ scope name value, interpreter.store.valueAt? name scope = some value →
    value.CapturedBelow interpreter.store.scopes.size

/-- The scopes that are in use in a state with values in hand: those that were made, the current
one, and those that are captured by values that are bound somewhere or are in hand. -/
inductive InUse (interpreter : Interpreter) (held : List Value) : ScopeId → Prop
  | made {scope : ScopeId} : scope < interpreter.store.scopes.size → InUse interpreter held scope
  | current : InUse interpreter held interpreter.current
  | captured {scope captured : ScopeId} {name : String} {value : Value} :
    interpreter.store.valueAt? name scope = some value → value.captured? = some captured →
    InUse interpreter held captured
  | held {value : Value} {captured : ScopeId} : value ∈ held → value.captured? = some captured →
    InUse interpreter held captured

namespace Rooted

variable {interpreter : Interpreter} (hrooted : interpreter.Rooted)

include hrooted

theorem globals : interpreter.globals < interpreter.store.scopes.size := by
  obtain ⟨found, hfound, -⟩ := hrooted.root
  exact (Array.getElem?_eq_some_iff.mp hfound).1

theorem linksBack : interpreter.store.LinksBack := by
  intro scope outer found hfound houter
  by_cases hscope : scope = interpreter.globals
  · obtain ⟨root, hroot, hnone⟩ := hrooted.root
    rw [hscope, hroot] at hfound
    rw [← Option.some.inj hfound, hnone] at houter
    cases houter
  · obtain ⟨outer', houter', hlt⟩ := hrooted.linked scope found hfound hscope
    exact Option.some.inj (houter'.symm.trans houter) ▸ hlt

/-- From every scope the links lead to the global one. -/
theorem exists_outwards {scope : ScopeId} (hscope : scope < interpreter.store.scopes.size) :
    ∃ path, interpreter.store.Outwards scope path ∧ path.getLast? = some interpreter.globals := by
  induction scope using Nat.strongRecOn with
  | ind scope ih =>
    by_cases hglobals : scope = interpreter.globals
    · obtain ⟨root, hroot, hnone⟩ := hrooted.root
      exact ⟨[scope], .outermost (hglobals ▸ hroot) hnone, by rw [hglobals]; rfl⟩
    · have hfound := Array.getElem?_eq_getElem hscope
      obtain ⟨outer, houter, hlt⟩ := hrooted.linked scope _ hfound hglobals
      obtain ⟨path, hpath, hlast⟩ := ih outer hlt (hlt.trans hscope)
      refine ⟨scope :: path, .enclosed hfound houter hpath, ?_⟩
      rw [List.getLast?_cons, hlast, Option.getD_some]

/-! ### What steps make of the tree -/

theorem define {value : Value} (hvalue : value.CapturedBelow interpreter.store.scopes.size)
    (name : String) {scope : ScopeId} (hscope : scope < interpreter.store.scopes.size) :
    (interpreter.define name value scope).Rooted where
  root := by
    obtain ⟨root, hroot, hnone⟩ := hrooted.root
    refine ⟨if scope = interpreter.globals then root.define name value else root, ?_, ?_⟩
    · rw [Interpreter.define, Store.getElem?_define, hroot, Option.map_some]
      split <;> rfl
    · split <;> exact hnone
  linked inner found hfound hinner := by
    rw [Interpreter.define, Store.getElem?_define] at hfound
    split at hfound
    · obtain ⟨former, hformer, rfl⟩ := Option.map_eq_some_iff.mp hfound
      exact hrooted.linked inner former hformer hinner
    · exact hrooted.linked inner found hfound hinner
  current := by
    rw [Interpreter.define, Store.size_define]
    exact hrooted.current
  captured inner other found hfound := by
    rw [Interpreter.define, Store.size_define]
    rw [Interpreter.define, Store.valueAt?_define _ _ _ _ _ _ hscope] at hfound
    split at hfound
    · exact Option.some.inj hfound ▸ hvalue
    · exact hrooted.captured inner other found hfound

/-- A scope that is made in one that exists is a new leaf. -/
theorem newScope {enclosing : ScopeId} (henclosing : enclosing < interpreter.store.scopes.size) :
    (interpreter.newScope enclosing).2.Rooted where
  root := by
    obtain ⟨root, hroot, hnone⟩ := hrooted.root
    refine ⟨root, ?_, hnone⟩
    rw [Interpreter.newScope, Store.allocate, Array.getElem?_push, if_neg hrooted.globals.ne, hroot]
  linked inner found hfound hinner := by
    rw [Interpreter.newScope, Store.allocate, Array.getElem?_push] at hfound
    split at hfound
    · next hnew =>
      obtain rfl := Option.some.inj hfound
      exact ⟨enclosing, rfl, hnew ▸ henclosing⟩
    · exact hrooted.linked inner found hfound hinner
  current := by
    rw [Interpreter.newScope, Store.allocate, Array.size_push]
    exact hrooted.current.trans (Nat.lt_succ_self _)
  captured inner name value hvalue := by
    rw [Interpreter.newScope, Store.allocate, Array.size_push]
    rw [Interpreter.newScope, Store.allocate, Store.valueAt?_push] at hvalue
    split at hvalue
    · cases hvalue
    · exact (hrooted.captured inner name value hvalue).mono (Nat.le_succ _)

end Rooted

/-- The scopes form a tree of a certain size, and the scopes that values have captured are in it. -/
def scopeTree : Invariant Nat where
  valid size interpreter := interpreter.store.scopes.size = size ∧ interpreter.Rooted
  value size value := value.CapturedBelow size
  scope size scope := scope < size

theorem scopeTree_heldBySteps : scopeTree.HeldBySteps where
  value_mono hlater hvalue := hvalue.mono hlater
  scope_mono hlater hscope := hscope.trans_le hlater
  plain size value hplain captured hcaptured := by
    cases value with
    | function callee => exact absurd rfl (hplain callee)
    | _ => cases hcaptured
  captured hvalue := hvalue _ rfl
  current hvalid := hvalid.1 ▸ hvalid.2.current
  globals hvalid := hvalid.1 ▸ hvalid.2.globals
  made hvalid hscope := hvalid.1 ▸ hscope
  found hvalid hvalue := hvalid.1 ▸ hvalid.2.captured _ _ _ hvalue
  output text hvalid :=
    ⟨hvalid.1, hvalid.2.root, hvalid.2.linked, hvalid.2.current, hvalid.2.captured⟩
  define name hvalid hscope hvalue := by
    obtain ⟨rfl, hrooted⟩ := hvalid
    exact ⟨Store.size_define .., hrooted.define hvalue name hscope⟩
  newFunction {size interpreter} body hvalid hbody := by
    obtain ⟨hsize, hroot, hlinked, hcurrent, hcaptured⟩ := hvalid
    refine ⟨size, le_rfl, ⟨hsize, hroot, hlinked, hcurrent, hcaptured⟩, fun captured hcaptured ↦ ?_⟩
    cases body with
    | declared declaration scope =>
      obtain rfl := Option.some.inj hcaptured
      exact hbody declaration scope rfl
    | native => cases hcaptured
  newScope {size interpreter enclosing} hvalid henclosing := by
    obtain ⟨rfl, hrooted⟩ := hvalid
    exact ⟨_, Nat.le_succ _, ⟨Array.size_push _, hrooted.newScope henclosing⟩, Nat.lt_succ_self _⟩
  enter hvalid hscope := by
    obtain ⟨rfl, hrooted⟩ := hvalid
    exact ⟨rfl, hrooted.root, hrooted.linked, hscope, hrooted.captured⟩

theorem rooted_bare : bare.Rooted where
  root := ⟨_, rfl, rfl⟩
  linked scope found hfound hscope := by
    have hlt : scope < 1 := (Array.getElem?_eq_some_iff.mp hfound).1
    exact absurd (Nat.lt_one_iff.mp hlt) hscope
  current := Nat.one_pos
  captured scope name value hvalue := by
    change Store.valueAt? ⟨#[].push ⟨[], none⟩⟩ name scope = some value at hvalue
    rw [Store.valueAt?_push] at hvalue
    split at hvalue <;> cases hvalue

end Interpreter

/-- The operations of a host leave the scopes as a rooted tree and yield functions that have
captured scopes in it, if they are called with such functions and the calls that they make do so. -/
def Host.KeepsScopeTree (host : Host) : Prop :=
  ∀ size call, Interpreter.scopeTree.SafeCalls size call → ∀ name operation arguments,
    Interpreter.scopeTree.values size arguments →
      Interpreter.scopeTree.Safe size Interpreter.scopeTree.value
        (host.perform call name operation arguments)

theorem Host.standard_keepsScopeTree : Host.standard.KeepsScopeTree :=
  Interpreter.scopeTree_heldBySteps.heldByStandard.perform

open Interpreter

/-- Whatever comes up in a session, the scopes form a rooted tree, and all scopes in use are in it.
-/
theorem Interpreter.ComesUp.rooted {host : Host} (hhost : host.KeepsScopeTree)
    {interpreter : Interpreter} {held : List Value} (hcomes : ComesUp host interpreter held) :
    interpreter.Rooted ∧
      ∀ scope, interpreter.InUse held scope → scope < interpreter.store.scopes.size := by
  have hheld : scopeTree.HeldByHost host := ⟨scopeTree_heldBySteps, hhost⟩
  obtain ⟨_, ⟨rfl, hrooted⟩, hvalues⟩ := hheld.exists_valid ⟨rfl, rooted_bare⟩ hcomes
  refine ⟨hrooted, fun scope hscope ↦ ?_⟩
  cases hscope with
  | made hscope => exact hscope
  | current => exact hrooted.current
  | captured hvalue hcaptured => exact hrooted.captured _ _ _ hvalue _ hcaptured
  | held hmem hcaptured => exact hvalues _ hmem _ hcaptured

/-- Whatever comes up in a session: from every scope that is in use, following the links visits the
scopes of its chain, none of them twice, and ends at the global scope. So the search for any name
ends, after at most as many turns as there are scopes, with the owner of the name. -/
theorem scopes_form_tree (host : Host) (hhost : host.KeepsScopeTree) {interpreter : Interpreter}
    {held : List Value} (hcomes : ComesUp host interpreter held) {scope : ScopeId}
    (hscope : interpreter.InUse held scope) :
    let store := interpreter.store
    store.Outwards scope (store.chain scope) ∧ (store.chain scope).Nodup ∧
      (store.chain scope).getLast? = some interpreter.globals ∧
      (store.chain scope).length ≤ store.scopes.size ∧
      ∀ name turns, (store.chain scope).length ≤ turns →
        store.search name turns (some scope) = some (store.owner? name scope) := by
  obtain ⟨hrooted, hexists⟩ := hcomes.rooted hhost
  obtain ⟨path, hpath, hlast⟩ := hrooted.exists_outwards (hexists scope hscope)
  obtain rfl := hpath.eq_chain hrooted.linksBack
  exact ⟨hpath, hpath.nodup hrooted.linksBack, hlast,
    (hpath.length_le hrooted.linksBack).trans (hexists scope hscope),
    fun name _ ↦ hpath.search_eq hrooted.linksBack name⟩

/-- A function that is bound in the scope that it has captured, in a block in a block. -/
theorem scopes_form_tree_with_cycle :
    let nowhere : Span := ⟨0, 0⟩
    let program : Program := [.block [.block [.function ⟨"f", nowhere⟩ [] [] nowhere]]]
    let function : FunctionValue := ⟨0, .declared ⟨⟨"f", nowhere⟩, [], [], nowhere⟩ 2⟩
    let after : Interpreter :=
      ⟨⟨#[⟨[], none⟩, ⟨[], some 0⟩, ⟨[("f", .function function)], some 1⟩]⟩, 0, 0, "", 1⟩
    Host.standard.KeepsScopeTree ∧ ((runProgram 9 program).run .bare).state? = some after ∧
      ComesUp .standard after [] ∧ after.InUse [] 2 ∧
      after.store.Outwards 2 (after.store.chain 2) ∧
      (after.store.chain 2).getLast? = some 0 ∧
      after.store.search "clock" 3 (some 2) = some (after.store.owner? "clock" 2) := by
  intro nowhere program function after
  have hrun : ((runProgram 9 program).run .bare).state? = some after := rfl
  have hcomes : ComesUp .standard after [] := ComesUp.bare.program hrun
  have hbound : after.store.valueAt? "f" 2 = some (.function function) := rfl
  have hused : after.InUse [] 2 := .captured hbound rfl
  obtain ⟨hpath, -, hlast, hlength, hsearch⟩ :=
    scopes_form_tree .standard Host.standard_keepsScopeTree hcomes hused
  exact ⟨Host.standard_keepsScopeTree, hrun, hcomes, hused, hpath, hlast,
    hsearch "clock" 3 hlength⟩

end Lox
