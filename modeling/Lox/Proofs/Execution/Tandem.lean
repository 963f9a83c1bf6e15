import Lox.Evaluation
import Lox.Proofs.Execution.Agreement
import Lox.Proofs.Scoping.Steps

/-!
# Runs in tandem

Two families of computations, one for each bound, are in tandem if as soon as one of them ends, from
states that stand for each other, the other one ends as well, and in the same way: `InTandem`. In
contrast to `Follows` this goes both ways, so it says also that one ends exactly if the other does.

`Tandem` lists what a relation between states has to be so that every step of a program can be taken
on both sides, and whatever is run is then in tandem with itself (`Tandem.upTo`). The relation comes
in several modes, and a run ends in the mode in which it began. In some of them names may be bound
in the current scopes; in the others it is enough if lookups find the same, and there a statement
has to bind no name where it stands (`Stmt.bindsHere`), which a body of a loop or conditional never
does.
-/

set_option autoImplicit false
set_option relaxedAutoImplicit false

namespace Lox

variable {κ ε α α' β β' : Type} [Preorder κ] {states : κ → Interpreter → Interpreter → Prop}
  {related : κ → α → α' → Prop} {result : κ → β → β' → Prop} {world : κ} {bound : Nat}

/-! ### Families in tandem -/

/-- That two outcomes match may be read from either side. -/
theorem Outcome.Matches.flip {outcome : Outcome Interpreter ε α}
    {outcome' : Outcome Interpreter ε α'}
    (houtcome : Matches states related world outcome outcome') :
    Matches (fun world state' state ↦ states world state state')
      (fun world value' value ↦ related world value value') world outcome' outcome := by
  cases houtcome with
  | done hmore hvalue hstates => exact .done hmore hvalue hstates
  | failed hmore hstates => exact .failed hmore hstates

/-- As soon as one family ends with a certain bound, the other one ends as well, in the same way. -/
structure InTandem (states : κ → Interpreter → Interpreter → Prop) (related : κ → α → α' → Prop)
    (world : κ) (bound : Nat) (family : Nat → Bounded Interpreter ε α)
    (family' : Nat → Bounded Interpreter ε α') : Prop where
  forth : Follows states related world (family bound) family'
  back : Follows (fun world state' state ↦ states world state state')
    (fun world value' value ↦ related world value value') world (family' bound) family

/-- From two states, one family ends exactly if the other one does, and in the same way. -/
def EndTogether (states : κ → Interpreter → Interpreter → Prop) (related : κ → α → α' → Prop)
    (world : κ) (family : Nat → Bounded Interpreter ε α)
    (family' : Nat → Bounded Interpreter ε α') (state state' : Interpreter) : Prop :=
  (∀ outcome, Ends family state outcome →
    ∃ outcome', Ends family' state' outcome' ∧ outcome.Matches states related world outcome') ∧
  ∀ outcome', Ends family' state' outcome' →
    ∃ outcome, Ends family state outcome ∧ outcome.Matches states related world outcome'

/-- What has ended has ended in one way, so it is enough to follow one of the two. -/
theorem EndTogether.of_forth {family : Nat → Bounded Interpreter ε α}
    {family' : Nat → Bounded Interpreter ε α'} {state state' : Interpreter}
    (hforth : ∀ outcome, Ends family state outcome →
      ∃ outcome', Ends family' state' outcome' ∧ outcome.Matches states related world outcome')
    (hback : ∀ outcome', Ends family' state' outcome' → ∃ outcome, Ends family state outcome) :
    EndTogether states related world family family' state state' := by
  refine ⟨hforth, fun outcome' hends' ↦ ?_⟩
  obtain ⟨outcome, hends⟩ := hback outcome' hends'
  obtain ⟨last, hlast, hmatches⟩ := hforth outcome hends
  obtain rfl := hlast.unique hends'
  exact ⟨outcome, hends, hmatches⟩

namespace InTandem

variable {family : Nat → Bounded Interpreter ε α} {family' : Nat → Bounded Interpreter ε α'}

/-- Families that are in tandem for every bound end together, from states that stand for each other:
a run that ends does so with some bound. -/
theorem endTogether (htandem : ∀ bound, InTandem states related world bound family family')
    {state state' : Interpreter} (hstates : states world state state') :
    EndTogether states related world family family' state state' := by
  refine ⟨fun outcome hends ↦
    Follows.exists_ends (fun bound ↦ (htandem bound).forth) hstates hends, fun outcome' hends' ↦ ?_⟩
  obtain ⟨outcome, hends, hmatches⟩ :=
    Follows.exists_ends (fun bound ↦ (htandem bound).back) hstates hends'
  exact ⟨outcome, hends, hmatches.flip⟩

/-- With a bound at which both families give up there is nothing to follow. -/
theorem exhausted (hfamily : family bound = .exhausted) (hfamily' : family' bound = .exhausted) :
    InTandem states related world bound family family' := by
  constructor
  · rw [hfamily]
    exact .exhausted
  · rw [hfamily']
    exact .exhausted

/-- The smallest bound does not count. -/
theorem succ (htandem : InTandem states related world bound (fun bound ↦ family (bound + 1))
      fun bound ↦ family' (bound + 1)) :
    InTandem states related world (bound + 1) family family' :=
  ⟨Follows.succ_iff.mp htandem.forth, Follows.succ_iff.mp htandem.back⟩

/-- One side may need a larger bound than the other. -/
theorem succ_left (hfamily : family 0 = .exhausted)
    (htandem : ∀ bound,
      InTandem states related world bound (fun bound ↦ family (bound + 1)) family')
    (bound : Nat) : InTandem states related world bound family family' := by
  constructor
  · cases bound with
    | zero =>
      rw [hfamily]
      exact .exhausted
    | succ bound => exact (htandem bound).forth
  · exact Follows.succ_iff.mp (htandem bound).back

/-- Computations that do not depend on a bound. -/
theorem of_matches {computation : Bounded Interpreter ε α} {computation' : Bounded Interpreter ε α'}
    (hmatches : ∀ more, world ≤ more → ∀ state state', states more state state' →
      (computation.run state).Matches states related more (computation'.run state')) :
    InTandem states related world bound (fun _ ↦ computation) fun _ ↦ computation' :=
  ⟨.of_matches hmatches, .of_matches fun more hmore state' state hstates ↦
    (hmatches more hmore state state' hstates).flip⟩

/-- Values that stand for each other from now on. -/
theorem pure {value : α} {value' : α'} (hvalue : ∀ more, world ≤ more → related more value value') :
    InTandem states related world bound (fun _ ↦ (Pure.pure value : Bounded Interpreter ε α))
      fun _ ↦ Pure.pure value' :=
  ⟨.pure hvalue, .pure hvalue⟩

theorem fail (error : ε) :
    InTandem states related world bound (fun _ ↦ Bounded.fail error) fun _ ↦ Bounded.fail error :=
  ⟨.fail error, .fail error⟩

/-- The same result, whose value stands for itself. -/
theorem ofExcept {related : κ → α → α → Prop} {result : Except ε α}
    (hresult : ∀ more value, result = .ok value → related more value value) :
    InTandem states related world bound (fun _ ↦ Bounded.ofExcept result)
      fun _ ↦ Bounded.ofExcept result :=
  ⟨.ofExcept hresult, .ofExcept hresult⟩

/-- Looks at states that stand for each other see what stands for each other. -/
theorem gets {view : Interpreter → α} {view' : Interpreter → α'}
    (hview : ∀ more, world ≤ more → ∀ state state', states more state state' →
      related more (view state) (view' state')) :
    InTandem states related world bound (fun _ ↦ (Bounded.gets view : Bounded Interpreter ε α))
      fun _ ↦ Bounded.gets view' :=
  ⟨.gets hview, .gets fun more hmore state' state ↦ hview more hmore state state'⟩

/-- Changes that keep states standing for each other may be made on both sides. -/
theorem modify {change change' : Interpreter → Interpreter}
    (hchange : ∀ more, world ≤ more → ∀ state state', states more state state' →
      states more (change state) (change' state')) :
    InTandem states (fun _ _ _ ↦ True) world bound
      (fun _ ↦ (Bounded.modify change : Bounded Interpreter ε Unit))
      fun _ ↦ Bounded.modify change' :=
  ⟨.modify hchange, .modify fun more hmore state' state ↦ hchange more hmore state state'⟩

/-- Two families one after the other are in tandem if the first parts are, and the second ones from
whatever the first ones may yield. The second parts may need a larger world, since the first ones
have made new scopes and functions. -/
theorem bind {next : Nat → α → Bounded Interpreter ε β}
    {next' : Nat → α' → Bounded Interpreter ε β'}
    (hfirst : InTandem states related world bound family family')
    (hnext : ∀ more, world ≤ more → ∀ value value', related more value value' →
      InTandem states result more bound (next · value) (next' · value')) :
    InTandem states result world bound (fun bound ↦ family bound >>= next bound)
      fun bound ↦ family' bound >>= next' bound :=
  ⟨.bind hfirst.forth fun more hmore value value' hvalue ↦
    (hnext more hmore value value' hvalue).forth,
   .bind hfirst.back fun more hmore value' value hvalue ↦
    (hnext more hmore value value' hvalue).back⟩

/-- One side does something more at the end that makes no difference. -/
theorem bind_left {next : Nat → α → Bounded Interpreter ε β}
    {result : κ → β → α' → Prop} (hfirst : InTandem states related world bound family family')
    (hnext : ∀ more, world ≤ more → ∀ value value', related more value value' →
      InTandem states result more bound (next · value) fun _ ↦ Pure.pure value') :
    InTandem states result world bound (fun bound ↦ family bound >>= next bound) family' := by
  have hboth := hfirst.bind hnext
  simpa only [bind_pure] using hboth

/-- One family may have something to do behind the other one, if this comes to nothing but a value.
-/
theorem bind_right {next' : Nat → α' → Bounded Interpreter ε β'}
    {result : κ → α → β' → Prop} (hfirst : InTandem states related world bound family family')
    (hnext : ∀ more, world ≤ more → ∀ value value', related more value value' →
      InTandem states result more bound (fun _ ↦ Pure.pure value) (next' · value')) :
    InTandem states result world bound family fun bound ↦ family' bound >>= next' bound := by
  have hboth := hfirst.bind hnext
  simpa only [bind_pure] using hboth

end InTandem

/-- What is done in changed states follows if it does so there, and the change can be undone. The
mode in which it is done there may depend on the states. -/
theorem Follows.within {μ τ τ' : Type} (allowed : μ → Prop)
    (inner : μ → κ → Interpreter → Interpreter → Prop)
    {outer : κ → Interpreter → Interpreter → Prop}
    {enter : Interpreter → τ × Interpreter} {enter' : Interpreter → τ' × Interpreter}
    {leave : τ → Interpreter → Interpreter} {leave' : τ' → Interpreter → Interpreter}
    {computation : Bounded Interpreter ε α} {family : Nat → Bounded Interpreter ε α'}
    (henter : ∀ more, world ≤ more → ∀ state state', outer more state state' →
      ∃ mode inside, allowed mode ∧ more ≤ inside ∧
        inner mode inside (enter state).2 (enter' state').2 ∧
        ∀ last, inside ≤ last → ∀ reached reached', inner mode last reached reached' →
          outer last (leave (enter state).1 reached) (leave' (enter' state').1 reached'))
    (hbody : ∀ {mode world}, allowed mode → Follows (inner mode) related world computation family) :
    Follows outer related world (computation.within enter leave)
      fun bound ↦ (family bound).within enter' leave' := by
  intro more hmore state state' hstates
  obtain ⟨mode, inside, hmode, hinside, hinner, hleave⟩ := henter more hmore state state' hstates
  rw [Bounded.run_within_eq_map]
  refine (hbody hmode inside le_rfl _ _ hinner).imp Outcome.map_eq_exhausted_iff.mpr ?_
  rintro ⟨outcome, hends, houtcome⟩
  refine ⟨_, hends.within, ?_⟩
  generalize computation.run (enter state).2 = reached at houtcome
  cases houtcome with
  | done hlast hvalue hreached =>
    exact .done (hinside.trans hlast) hvalue (hleave _ hlast _ _ hreached)
  | failed hlast hreached => exact .failed (hinside.trans hlast) (hleave _ hlast _ _ hreached)

/-- What surrounds a computation is done on both sides. Inside, the states stand for each other in
the way that entering has made them do, and leaving leads back however the computation ends. -/
theorem InTandem.within {μ τ τ' : Type} (allowed : μ → Prop)
    (inner : μ → κ → Interpreter → Interpreter → Prop)
    {outer : κ → Interpreter → Interpreter → Prop}
    {enter : Interpreter → τ × Interpreter} {enter' : Interpreter → τ' × Interpreter}
    {leave : τ → Interpreter → Interpreter} {leave' : τ' → Interpreter → Interpreter}
    {family : Nat → Bounded Interpreter ε α} {family' : Nat → Bounded Interpreter ε α'}
    (henter : ∀ more, world ≤ more → ∀ state state', outer more state state' →
      ∃ mode inside, allowed mode ∧ more ≤ inside ∧
        inner mode inside (enter state).2 (enter' state').2 ∧
        ∀ last, inside ≤ last → ∀ reached reached', inner mode last reached reached' →
          outer last (leave (enter state).1 reached) (leave' (enter' state').1 reached'))
    (hbody : ∀ {mode world}, allowed mode →
      InTandem (inner mode) related world bound family family') :
    InTandem outer related world bound (fun bound ↦ (family bound).within enter leave)
      fun bound ↦ (family' bound).within enter' leave' := by
  refine ⟨.within allowed inner henter fun hmode ↦ (hbody hmode).forth,
    .within allowed (fun mode world state' state ↦ inner mode world state state')
      (fun more hmore state' state hstates ↦ ?_) fun hmode ↦ (hbody hmode).back⟩
  obtain ⟨mode, inside, hmode, hinside, hinner, hleave⟩ := henter more hmore state state' hstates
  exact ⟨mode, inside, hmode, hinside, hinner, fun last hlast reached' reached ↦
    hleave last hlast reached reached'⟩

/-- The state in which what stands in a block or in the body of a function is run. -/
def Interpreter.nested (enclosing : ScopeId) (pairs : List (String × Value))
    (interpreter : Interpreter) : Interpreter :=
  { interpreter with
    store := ⟨interpreter.store.scopes.push ⟨.ofPairs pairs, some enclosing⟩⟩
    current := interpreter.store.scopes.size }

/-- A computation in a scope of its own. -/
def Run.nested {α : Type} (enclosing : ScopeId) (pairs : List (String × Value)) (body : Run α) :
    Run α :=
  body.within (fun state ↦ (state.current, state.nested enclosing pairs))
    fun former reached ↦ (reached.enter former).2

/-- A scope that is opened and entered at once is a nested state. -/
theorem Run.openScope_bind_inScope {α : Type} (enclosing : ScopeId)
    (pairs : List (String × Value)) (body : Run α) :
    (Run.openScope enclosing pairs >>= (Run.inScope · body)) = Run.nested enclosing pairs body := by
  funext state
  change (Run.openScope enclosing pairs >>= (Run.inScope · body)).run state = _
  rw [Bounded.run_bind_of_done (Run.run_openScope enclosing pairs state)]
  rfl

/-- The same with something behind it, as calls have it. -/
theorem Run.openScope_bind_inScope_bind {α β : Type} (enclosing : ScopeId)
    (pairs : List (String × Value)) (body : Run α) (next : α → Run β) :
    (Run.openScope enclosing pairs >>= fun scope ↦ Run.inScope scope body >>= next) =
      Run.nested enclosing pairs body >>= next := by
  rw [← Run.openScope_bind_inScope, bind_assoc]

/-! ### Values -/

/-- How a statement ends, up to what stands for each other. -/
inductive Flow.Related (values : Value → Value → Prop) : Flow → Flow → Prop
  | normal : Related values .normal .normal
  | returned {value value' : Value} : values value value' →
    Related values (.returned value) (.returned value')

/-- Values that programs cannot tell apart. Whatever is no function is the same. -/
structure Indiscernible (between : κ → Correspondence) (values : κ → Value → Value → Prop) :
    Prop where
  between_le : ∀ {world more}, world ≤ more → between world ≤ between more
  grow : ∀ {world more value value'}, world ≤ more → values world value value' →
    values more value value'
  same : ∀ {world value value'}, values world value value' →
    Value.Same (between world) value value'
  data : ∀ {world value}, (∀ between, Value.Matches .none between value value) →
    values world value value

variable {between : κ → Correspondence} {values : κ → Value → Value → Prop}
  {calls calls' : Nat → FunctionValue → List Value → Run Value}

/-- The calls of functions that stand for each other, with such arguments, are in tandem. -/
def CallsInTandem (values : κ → Value → Value → Prop)
    (states : κ → Interpreter → Interpreter → Prop) (world : κ) (bound : Nat)
    (calls calls' : Nat → FunctionValue → List Value → Run Value) : Prop :=
  ∀ more, world ≤ more → ∀ function function' arguments arguments',
    values more (.function function) (.function function') →
    List.Forall₂ (values more) arguments arguments' →
    InTandem states values more bound (calls · function arguments)
      (calls' · function' arguments')

/-- Values that programs cannot tell apart are functions on both sides or on neither, and refused in
the same words. -/
theorem CallsInTandem.callValue (hvalues : Indiscernible between values)
    (hcalls : CallsInTandem values states world bound calls calls') {callee callee' : Value}
    {arguments arguments' : List Value} (hcallee : values world callee callee')
    (harguments : List.Forall₂ (values world) arguments arguments') :
    InTandem states values world bound (fun bound ↦ callValue (calls bound) callee arguments)
      fun bound ↦ callValue (calls' bound) callee' arguments' := by
  have hsame := hvalues.same hcallee
  cases hsame with
  | function hfunction => exact hcalls _ le_rfl _ _ _ _ hcallee harguments
  | _ => exact .fail _

/-- Functions that stand for each other have the same number of parameters and the same name. -/
theorem CallsInTandem.callExact (hvalues : Indiscernible between values)
    (hcalls : CallsInTandem values states world bound calls calls') :
    CallsInTandem values states world bound (fun bound ↦ callExact (calls bound))
      fun bound ↦ callExact (calls' bound) := by
  intro more hmore function function' arguments arguments' hfunction harguments
  have hsame := hvalues.same hfunction
  cases hsame with
  | function hsame =>
    simp only [Lox.callExact, hsame.toMatches.arity_eq, hsame.toMatches.name_eq,
      harguments.length_eq]
    split
    · exact hcalls more hmore _ _ _ _ hfunction harguments
    · exact .fail _

/-- In scopes that stand for each other, every name has values that do so too. -/
def LookupsInTandem (between : κ → Correspondence) (values : κ → Value → Value → Prop)
    (states : κ → Interpreter → Interpreter → Prop) : Prop :=
  ∀ ⦃world state state'⦄, states world state state' → ∀ ⦃scope scope'⦄,
    (between world).scopes scope scope' → ∀ name,
      Option.Rel (values world) (state.store.get? name scope) (state'.store.get? name scope')

/-- A name is found on both sides or undefined on both. -/
theorem LookupsInTandem.valueIn (hlookups : LookupsInTandem between values states)
    (hvalues : Indiscernible between values) {scope scope' : ScopeId}
    (hscope : (between world).scopes scope scope') (name : String) :
    InTandem states values world bound (fun _ ↦ Run.valueIn name scope)
      fun _ ↦ Run.valueIn name scope' := by
  refine .of_matches fun more hmore state state' hstates ↦ ?_
  have hvalue := hlookups hstates ((hvalues.between_le hmore).1 _ _ hscope) name
  rw [Run.run_valueIn, Run.run_valueIn]
  generalize state.store.get? name scope = found at hvalue
  generalize state'.store.get? name scope' = found' at hvalue
  cases hvalue with
  | some hvalue => exact .done le_rfl hvalue hstates
  | none => exact .failed le_rfl hstates

/-- The operations of a host use nothing but their arguments, the calls that they are given and what
lookups from the global scope find. -/
def Host.UsesLookups (host : Host) : Prop :=
  ∀ {κ : Type} [Preorder κ] {between : κ → Correspondence} {values : κ → Value → Value → Prop}
    {states : κ → Interpreter → Interpreter → Prop}, Indiscernible between values →
    LookupsInTandem between values states →
    (∀ {world state state'}, states world state state' →
      (between world).scopes state.globals state'.globals) →
    ∀ world bound calls calls', CallsInTandem values states world bound calls calls' →
      ∀ name operation arguments arguments', List.Forall₂ (values world) arguments arguments' →
        InTandem states values world bound
          (fun bound ↦ host.perform (calls bound) name operation arguments)
          fun bound ↦ host.perform (calls' bound) name operation arguments'

/-- The operations of the standard host use nothing but their arguments, the calls they make and
global names. `apply` is the one that calls, and `global` the one that looks up. -/
theorem Host.standard_usesLookups : Host.standard.UsesLookups := by
  intro κ _ between values states hvalues hlookups hglobals world bound calls calls' hcalls name
    operation arguments arguments' harguments
  change InTandem states values world bound
    (fun bound ↦ operation.perform (calls bound) name arguments)
    fun bound ↦ operation.perform (calls' bound) name arguments'
  have hfirst : values world (arguments.headD .nil) (arguments'.headD .nil) := by
    cases harguments with
    | nil => exact hvalues.data fun _ ↦ .nil
    | cons hargument _ => exact hargument
  have hothers : List.Forall₂ (values world) arguments.tail arguments'.tail := by
    cases harguments with
    | nil => exact .nil
    | cons _ hothers => exact hothers
  cases operation with
  | clock now => exact .pure fun _ _ ↦ hvalues.data fun _ ↦ .string _
  | date now => exact .pure fun _ _ ↦ hvalues.data fun _ ↦ .string _
  | first => exact .pure fun _ hmore ↦ hvalues.grow hmore hfirst
  | count =>
    simp only [Native.perform, harguments.length_eq]
    exact .pure fun _ _ ↦ hvalues.data fun _ ↦ .number _
  | fail => exact .fail _
  | twice =>
    cases harguments with
    | nil => exact .fail _
    | cons hargument _ =>
      have hsame := hvalues.same hargument
      cases hsame with
      | number value => exact .pure fun _ _ ↦ hvalues.data fun _ ↦ .number _
      | _ => exact .fail _
  | apply => exact hcalls.callValue hvalues hfirst hothers
  | global =>
    cases harguments with
    | nil => exact .pure fun _ _ ↦ hvalues.data fun _ ↦ .nil
    | cons hargument _ =>
      have hsame := hvalues.same hargument
      cases hsame with
      | string target =>
        refine .bind (.gets fun _ _ _ _ ↦ hglobals) fun _ _ _ _ hscope ↦ ?_
        exact hlookups.valueIn hvalues hscope target
      | _ => exact .pure fun _ _ ↦ hvalues.data fun _ ↦ .nil

/-! ### Relations that whatever is run keeps -/

/-- Whether a statement may bind a name in the scope that it stands in. -/
def Stmt.bindsHere : Stmt → Bool
  | declare _ _ => true
  | function _ _ _ _ => true
  | conditional _ thenBranch none => thenBranch.bindsHere
  | conditional _ thenBranch (some elseBranch) => thenBranch.bindsHere || elseBranch.bindsHere
  | loop _ body => body.bindsHere
  | _ => false

/-- A relation between states in which every step of a run can be taken on both sides. It comes in
several modes, and in some of them names may be bound in the current scopes. -/
structure Tandem {μ : Type} (host : Host) (between : κ → Correspondence)
    (values : κ → Value → Value → Prop) (binds : μ → Prop)
    (states : μ → κ → Interpreter → Interpreter → Prop) : Prop extends
    Indiscernible between values where
  current : ∀ {mode world state state'}, states mode world state state' →
    (between world).scopes state.current state'.current
  lookups : ∀ mode, LookupsInTandem between values (states mode)
  printLine : ∀ {mode world state state'}, states mode world state state' → ∀ line,
    states mode world (state.printLine line) (state'.printLine line)
  define : ∀ {mode world state state' value value'}, binds mode → states mode world state state' →
    values world value value' → ∀ name,
      states mode world (state.define name value state.current)
        (state'.define name value' state'.current)
  owners : ∀ {mode world state state'}, states mode world state state' → ∀ name,
    Option.Rel (fun owner owner' ↦ ∀ value value', values world value value' →
      states mode world (state.define name value owner) (state'.define name value' owner'))
      (state.store.owner? name state.current) (state'.store.owner? name state'.current)
  newFunction : ∀ {mode world state state' captured captured'}, states mode world state state' →
    (between world).scopes captured captured' → ∀ declaration, ∃ grown, world ≤ grown ∧
      values grown (state.newFunction (.declared declaration captured)).1
        (state'.newFunction (.declared declaration captured')).1 ∧
      states mode grown (state.newFunction (.declared declaration captured)).2
        (state'.newFunction (.declared declaration captured')).2
  nested : ∀ {mode world state state' enclosing enclosing' pairs pairs'},
    states mode world state state' → (between world).scopes enclosing enclosing' →
    List.Forall₂ (fun pair pair' ↦ pair.1 = pair'.1 ∧ values world pair.2 pair'.2) pairs pairs' →
    ∃ inner inside, binds inner ∧ world ≤ inside ∧
      states inner inside (state.nested enclosing pairs) (state'.nested enclosing' pairs') ∧
      ∀ last, inside ≤ last → ∀ reached reached', states inner last reached reached' →
        states mode last (reached.enter state.current).2 (reached'.enter state'.current).2
  perform : ∀ {mode world bound calls calls'},
    CallsInTandem values (states mode) world bound calls calls' →
    ∀ {identity identity' name arity operation},
      values world (.function ⟨identity, .native name arity operation⟩)
        (.function ⟨identity', .native name arity operation⟩) →
      ∀ {arguments arguments'}, List.Forall₂ (values world) arguments arguments' →
        InTandem (states mode) values world bound
          (fun bound ↦ host.perform (calls bound) name operation arguments)
          fun bound ↦ host.perform (calls' bound) name operation arguments'

namespace Tandem

variable {μ : Type} {host : Host} {binds : μ → Prop}
  {states : μ → κ → Interpreter → Interpreter → Prop} {mode : μ}

/-- Whatever is run with a given bound is in tandem with itself. -/
structure UpTo (host : Host) (values : κ → Value → Value → Prop) (binds : μ → Prop)
    (states : μ → κ → Interpreter → Interpreter → Prop) (bound : Nat) : Prop where
  evaluate : ∀ {mode world} expression, InTandem (states mode) values world bound
    (evaluate host · expression) (evaluate host · expression)
  evaluateAll : ∀ {mode world} expressions, InTandem (states mode)
    (fun world ↦ List.Forall₂ (values world)) world bound
      (evaluateAll host · expressions) (evaluateAll host · expressions)
  execute : ∀ {mode world} statement, (statement.bindsHere = true → binds mode) →
    InTandem (states mode) (fun world ↦ Flow.Related (values world)) world bound
      (execute host · statement) (execute host · statement)
  executeAll : ∀ {mode world} statements, binds mode → InTandem (states mode)
    (fun world ↦ Flow.Related (values world)) world bound
      (executeAll host · statements) (executeAll host · statements)
  call : ∀ {mode world}, CallsInTandem values (states mode) world bound (call host) (call host)

/-- The current scopes stand for each other. -/
theorem inTandem_current (h : Tandem host between values binds states) :
    InTandem (states mode) (fun world ↦ (between world).scopes) world bound
      (fun _ ↦ (Bounded.gets Interpreter.current : Run ScopeId))
      fun _ ↦ Bounded.gets Interpreter.current :=
  .gets fun _ _ _ _ hstates ↦ h.current hstates

/-- A name may be bound on both sides, in a mode in which this is allowed. -/
theorem inTandem_define (h : Tandem host between values binds states) (hmode : binds mode)
    {value value' : Value} (hvalue : values world value value') (name : String) :
    InTandem (states mode) (fun _ _ _ ↦ True) world bound (fun _ ↦ Run.define name value)
      fun _ ↦ Run.define name value' :=
  .modify fun _ hmore _ _ hstates ↦ h.define hmode hstates (h.grow hmore hvalue) name

/-- The same line is printed on both sides. -/
theorem inTandem_printLine (h : Tandem host between values binds states) (line : String) :
    InTandem (states mode) (fun _ _ _ ↦ True) world bound
      (fun _ ↦ (Bounded.modify (·.printLine line) : Run Unit))
      fun _ ↦ Bounded.modify (·.printLine line) :=
  .modify fun _ _ _ _ hstates ↦ h.printLine hstates line

/-- An assignment in the current scopes. -/
theorem inTandem_assign (h : Tandem host between values binds states) {value value' : Value}
    (hvalue : values world value value') (name : String) :
    InTandem (states mode) (fun _ _ _ ↦ True) world bound
      (fun _ ↦ Bounded.gets Interpreter.current >>= Run.assignIn name value)
      fun _ ↦ Bounded.gets Interpreter.current >>= Run.assignIn name value' := by
  refine .of_matches fun more hmore state state' hstates ↦ ?_
  have howner := h.owners hstates name
  change Outcome.Matches _ _ _ ((Run.assignIn name value state.current).run state)
    ((Run.assignIn name value' state'.current).run state')
  rw [Run.run_assignIn, Run.run_assignIn]
  generalize state.store.owner? name state.current = owner at howner
  generalize state'.store.owner? name state'.current = owner' at howner
  cases howner with
  | some hdefine => exact .done le_rfl trivial (hdefine _ _ (h.grow hmore hvalue))
  | none => exact .failed le_rfl hstates

/-- A declaration makes functions that stand for each other in a larger world, if the scopes that
they capture do. -/
theorem inTandem_newFunction (h : Tandem host between values binds states)
    {captured captured' : ScopeId} (hcaptured : (between world).scopes captured captured')
    (declaration : FunctionDeclaration) :
    InTandem (states mode) values world bound
      (fun _ ↦ (Bounded.update (·.newFunction (.declared declaration captured)) : Run Value))
      fun _ ↦ Bounded.update (·.newFunction (.declared declaration captured')) := by
  refine .of_matches fun more hmore state state' hstates ↦ ?_
  obtain ⟨grown, hgrown, hvalue, hmade⟩ :=
    h.newFunction hstates ((h.between_le hmore).1 _ _ hcaptured) declaration
  exact .done hgrown hvalue hmade

/-- In nested scopes names may be bound in every mode in which their bodies are run, and when they
are left the mode is the one from before. -/
theorem inTandem_nested (h : Tandem host between values binds states) {α α' : Type}
    {related : κ → α → α' → Prop} {enclosing enclosing' : ScopeId}
    (henclosing : (between world).scopes enclosing enclosing')
    {pairs pairs' : List (String × Value)}
    (hpairs : List.Forall₂ (fun pair pair' ↦ pair.1 = pair'.1 ∧ values world pair.2 pair'.2)
      pairs pairs') {family : Nat → Run α} {family' : Nat → Run α'}
    (hbody : ∀ {mode world}, binds mode →
      InTandem (states mode) related world bound family family') :
    InTandem (states mode) related world bound
      (fun bound ↦ Run.nested enclosing pairs (family bound))
      fun bound ↦ Run.nested enclosing' pairs' (family' bound) := by
  refine .within binds states (fun more hmore state state' hstates ↦ ?_) hbody
  exact h.nested hstates ((h.between_le hmore).1 _ _ henclosing)
    (hpairs.imp fun _ _ hpair ↦ ⟨hpair.1, h.grow hmore hpair.2⟩)

/-- Expressions are evaluated in tandem: operands from left to right, names by lookups, and calls by
the calls with the smaller bound. -/
theorem evaluate_succ (h : Tandem host between values binds states)
    (ih : UpTo host values binds states bound) (expression : Expr) :
    InTandem (states mode) values world (bound + 1) (evaluate host · expression)
      (evaluate host · expression) := by
  refine .succ ?_
  cases expression with
  | literal literal span =>
    refine .pure fun _ _ ↦ h.data fun _ ↦ ?_
    cases literal <;> constructor
  | grouping inner span => exact ih.evaluate inner
  | unary operator operand span =>
    simp only [Lox.evaluate]
    refine .bind (ih.evaluate operand) fun _ _ value value' hvalue ↦ ?_
    rw [operator.apply_eq (h.same hvalue).toMatches]
    exact .ofExcept fun _ _ hresult ↦ h.data fun _ ↦ UnaryOperator.matches_apply hresult
  | binary operator left right span =>
    simp only [Lox.evaluate]
    refine .bind (ih.evaluate left) fun _ _ value value' hvalue ↦ ?_
    refine .bind (ih.evaluate right) fun _ hgrown other other' hother ↦ ?_
    rw [operator.apply_eq (h.same (h.grow hgrown hvalue)).toMatches (h.same hother).toMatches]
    exact .ofExcept fun _ _ hresult ↦ h.data fun _ ↦ BinaryOperator.matches_apply hresult
  | logical operator left right span =>
    simp only [Lox.evaluate]
    refine .bind (ih.evaluate left) fun _ _ value value' hvalue ↦ ?_
    have hdecided : operator.isDecided value = operator.isDecided value' := by
      have htruthy := (h.same hvalue).toMatches.isTruthy_eq
      cases operator <;> simp only [LogicalOperator.isDecided, htruthy]
    rw [hdecided]
    split
    · exact .pure fun _ hmore ↦ h.grow hmore hvalue
    · exact ih.evaluate right
  | name identifier =>
    simp only [Lox.evaluate]
    refine .bind h.inTandem_current fun _ _ _ _ hscope ↦ ?_
    exact (h.lookups mode).valueIn h.toIndiscernible hscope identifier.name
  | assign target source span =>
    simp only [Lox.evaluate]
    refine .bind (ih.evaluate source) fun _ _ value value' hvalue ↦ ?_
    simp only [← bind_assoc]
    refine .bind (h.inTandem_assign hvalue target.name) fun _ hmore _ _ _ ↦ ?_
    exact .pure fun _ hlast ↦ h.grow (hmore.trans hlast) hvalue
  | call callee arguments span =>
    simp only [Lox.evaluate]
    refine .bind (ih.evaluate callee) fun _ _ called called' hcalled ↦ ?_
    refine .bind (ih.evaluateAll arguments) fun _ hgrown given given' hgiven ↦ ?_
    exact (ih.call.callExact h.toIndiscernible).callValue h.toIndiscernible
      (h.grow hgrown hcalled) hgiven

/-- Arguments are evaluated in tandem, one after the other. -/
theorem evaluateAll_succ (h : Tandem host between values binds states)
    (ih : UpTo host values binds states bound) (expressions : List Expr) :
    InTandem (states mode) (fun world ↦ List.Forall₂ (values world)) world (bound + 1)
      (evaluateAll host · expressions) (evaluateAll host · expressions) := by
  refine .succ ?_
  cases expressions with
  | nil => exact .pure fun _ _ ↦ .nil
  | cons expression others =>
    simp only [Lox.evaluateAll]
    refine .bind (ih.evaluate expression) fun _ _ value value' hvalue ↦ ?_
    refine .bind (ih.evaluateAll others) fun _ hgrown found found' hfound ↦ ?_
    exact .pure fun _ hmore ↦ .cons (h.grow (hgrown.trans hmore) hvalue)
      (hfound.imp fun _ _ hvalue ↦ h.grow hmore hvalue)

/-- A returned value is still related later on. -/
theorem inTandem_returned (h : Tandem host between values binds states) {value value' : Value}
    (hvalue : values world value value') : InTandem (states mode)
      (fun world ↦ Flow.Related (values world)) world bound
      (fun _ ↦ (Pure.pure (.returned value) : Run Flow)) fun _ ↦ Pure.pure (.returned value') :=
  .pure fun _ hmore ↦ .returned (h.grow hmore hvalue)

/-- Statements are executed in tandem. What binds a name where it stands needs a mode that allows
it, and blocks open one of their own. -/
theorem execute_succ (h : Tandem host between values binds states)
    (ih : UpTo host values binds states bound) (statement : Stmt)
    (hbinds : statement.bindsHere = true → binds mode) :
    InTandem (states mode) (fun world ↦ Flow.Related (values world)) world (bound + 1)
      (execute host · statement) (execute host · statement) := by
  refine .succ ?_
  cases statement with
  | expression value =>
    simp only [Lox.execute]
    exact .bind (ih.evaluate value) fun _ _ _ _ _ ↦ .pure fun _ _ ↦ .normal
  | print value =>
    simp only [Lox.execute]
    refine .bind (ih.evaluate value) fun _ _ value value' hvalue ↦ ?_
    rw [(h.same hvalue).toMatches.display_eq]
    exact .bind (h.inTandem_printLine _) fun _ _ _ _ _ ↦ .pure fun _ _ ↦ .normal
  | declare target initializer =>
    have hmode := hbinds rfl
    cases initializer with
    | none =>
      simp only [Lox.execute]
      exact .bind (h.inTandem_define hmode (h.data fun _ ↦ .nil) target.name)
        fun _ _ _ _ _ ↦ .pure fun _ _ ↦ .normal
    | some initializer =>
      simp only [Lox.execute]
      refine .bind (ih.evaluate initializer) fun _ _ value value' hvalue ↦ ?_
      exact .bind (h.inTandem_define hmode hvalue target.name)
        fun _ _ _ _ _ ↦ .pure fun _ _ ↦ .normal
  | block body =>
    simp only [Lox.execute]
    refine .bind h.inTandem_current fun _ _ enclosing enclosing' henclosing ↦ ?_
    simp only [Run.openScope_bind_inScope]
    exact h.inTandem_nested henclosing .nil (ih.executeAll body)
  | conditional condition thenBranch elseBranch =>
    simp only [Lox.execute]
    refine .bind (ih.evaluate condition) fun _ _ value value' hvalue ↦ ?_
    rw [(h.same hvalue).toMatches.isTruthy_eq]
    cases elseBranch with
    | none =>
      split
      · exact ih.execute thenBranch hbinds
      · exact .pure fun _ _ ↦ .normal
    | some elseBranch =>
      rw [Stmt.bindsHere, Bool.or_eq_true] at hbinds
      split
      · exact ih.execute thenBranch fun hthen ↦ hbinds (.inl hthen)
      · exact ih.execute elseBranch fun helse ↦ hbinds (.inr helse)
  | loop condition body =>
    simp only [Lox.execute]
    refine .bind (ih.evaluate condition) fun _ _ value value' hvalue ↦ ?_
    rw [(h.same hvalue).toMatches.isTruthy_eq]
    split
    · refine .bind (ih.execute body hbinds) fun _ _ flow flow' hflow ↦ ?_
      cases hflow with
      | normal => exact ih.execute (.loop condition body) hbinds
      | returned hresult => exact h.inTandem_returned hresult
    · exact .pure fun _ _ ↦ .normal
  | function identifier parameters body span =>
    have hmode := hbinds rfl
    simp only [Lox.execute]
    refine .bind h.inTandem_current fun _ _ scope scope' hscope ↦ ?_
    refine .bind (h.inTandem_newFunction hscope _) fun _ _ value value' hvalue ↦ ?_
    exact .bind (h.inTandem_define hmode hvalue identifier.name)
      fun _ _ _ _ _ ↦ .pure fun _ _ ↦ .normal
  | «return» value span =>
    cases value with
    | none => exact h.inTandem_returned (h.data fun _ ↦ .nil)
    | some result =>
      simp only [Lox.execute]
      exact .bind (ih.evaluate result) fun _ _ value value' hvalue ↦ h.inTandem_returned hvalue

/-- Lists of statements are executed in tandem, where any of them may bind a name. -/
theorem executeAll_succ (h : Tandem host between values binds states)
    (ih : UpTo host values binds states bound) (statements : List Stmt) (hmode : binds mode) :
    InTandem (states mode) (fun world ↦ Flow.Related (values world)) world (bound + 1)
      (executeAll host · statements) (executeAll host · statements) := by
  refine .succ ?_
  cases statements with
  | nil => exact .pure fun _ _ ↦ .normal
  | cons statement others =>
    simp only [Lox.executeAll]
    refine .bind (ih.execute statement fun _ ↦ hmode) fun _ _ flow flow' hflow ↦ ?_
    cases hflow with
    | normal => exact ih.executeAll others hmode
    | returned hresult => exact h.inTandem_returned hresult

/-- A function is called in tandem: its arguments are bound in nested scopes, and the scopes that it
has captured stand for each other. -/
theorem call_succ (h : Tandem host between values binds states)
    (ih : UpTo host values binds states bound) :
    CallsInTandem values (states mode) world (bound + 1) (call host) (call host) := by
  intro more hmore function function' arguments arguments' hfunction harguments
  refine .succ ?_
  have hsame := h.same hfunction
  cases hsame with
  | function hsame =>
    cases hsame with
    | declared declaration hidentity hcaptured =>
      simp only [Lox.call, Run.openScope_bind_inScope_bind]
      have hpairs := Bindings.forall₂_zip harguments (declaration.parameters.map Identifier.name)
      refine .bind (h.inTandem_nested hcaptured hpairs (ih.executeAll declaration.body)) ?_
      intro _ _ flow flow' hflow
      cases hflow with
      | normal => exact .pure fun _ _ ↦ h.data fun _ ↦ .nil
      | returned hresult => exact .pure fun _ hlast ↦ h.grow hlast hresult
    | native name arity operation hidentity =>
      simp only [Lox.call]
      exact h.perform ih.call hfunction harguments

/-- Whatever is run with any bound is in tandem with itself. -/
theorem upTo (h : Tandem host between values binds states) (bound : Nat) :
    UpTo host values binds states bound := by
  induction bound with
  | zero =>
    exact ⟨fun _ ↦ .exhausted rfl rfl, fun _ ↦ .exhausted rfl rfl, fun _ _ ↦ .exhausted rfl rfl,
      fun _ _ ↦ .exhausted rfl rfl, fun _ _ _ _ _ _ _ _ ↦ .exhausted rfl rfl⟩
  | succ bound ih =>
    exact ⟨h.evaluate_succ ih, h.evaluateAll_succ ih, h.execute_succ ih, h.executeAll_succ ih,
      h.call_succ ih⟩

end Tandem

end Lox
