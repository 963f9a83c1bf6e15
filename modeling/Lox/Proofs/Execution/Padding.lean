import Lox.Proofs.Execution.Tandem

/-!
# Empty scopes in between

Two states may differ in that one of them has scopes in between that bind nothing and that nothing
is ever bound in: its `Padding`. Every lookup goes through such a scope to the one around it, so a
scope of padding stands for the same scope of the other state as the scope around it does.
`Interpreter.Padded` says that two states are the same otherwise.

No run can tell such states apart (`Interpreter.PaddedAt.tandem`), not even one of a function that
has captured a scope of padding. A run may begin in such a scope itself, as long as it binds no
names there; what is a `Standpoint` is the scopes in which two runs are, and whether they may.
-/

set_option autoImplicit false
set_option relaxedAutoImplicit false

namespace Lox

/-- Which scopes of two states stand for each other, and which of those of the first state are
proper ones and no padding. -/
structure Padding where
  between : Correspondence
  proper : ScopeId → Prop

namespace Padding

/-- What stood for each other still does, and what is proper remains so. -/
instance : Preorder Padding where
  le world more := world.between ≤ more.between ∧ ∀ scope, world.proper scope → more.proper scope
  le_refl _ := ⟨le_rfl, fun _ hproper ↦ hproper⟩
  le_trans _ _ _ hfirst hsecond :=
    ⟨hfirst.1.trans hsecond.1, fun _ hproper ↦ hsecond.2 _ (hfirst.2 _ hproper)⟩

/-- So far there is no padding. -/
def initial (size : Nat) : Padding where
  between := .ofScopes fun scope scope' ↦ scope = scope' ∧ scope < size
  proper scope := scope < size

/-- Two more scopes stand for each other. -/
def relate (scope scope' : ScopeId) (world : Padding) : Padding where
  between :=
    ⟨fun inner inner' ↦ world.between.scopes inner inner' ∨ inner = scope ∧ inner' = scope',
      world.between.functions, world.between.functions_iff⟩
  proper := world.proper

/-- One more scope is a proper one. -/
def addProper (scope : ScopeId) (world : Padding) : Padding where
  between := world.between
  proper inner := world.proper inner ∨ inner = scope

theorem le_relate (scope scope' : ScopeId) (world : Padding) : world ≤ world.relate scope scope' :=
  ⟨⟨fun _ _ hscope ↦ .inl hscope, fun _ _ hfunction ↦ hfunction⟩, fun _ hproper ↦ hproper⟩

theorem le_addProper (scope : ScopeId) (world : Padding) : world ≤ world.addProper scope :=
  ⟨le_rfl, fun _ hproper ↦ .inl hproper⟩

end Padding

variable {world more : Padding}

theorem Padding.indiscernible :
    Indiscernible Padding.between fun world ↦ Value.Same world.between where
  between_le hmore := hmore.1
  grow hmore hvalue := hvalue.grow hmore.1
  same hvalue := hvalue
  data hvalue := .of_matches hvalue

namespace Interpreter

@[simp]
theorem size_nested (state : Interpreter) (enclosing : ScopeId) (pairs : List (String × Value)) :
    (state.nested enclosing pairs).store.scopes.size = state.store.scopes.size + 1 :=
  Array.size_push _

theorem valueAt?_nested (state : Interpreter) (enclosing : ScopeId) (pairs : List (String × Value))
    (name : String) (scope : ScopeId) :
    (state.nested enclosing pairs).store.valueAt? name scope =
      if scope = state.store.scopes.size then (Bindings.ofPairs pairs).lookup name
      else state.store.valueAt? name scope :=
  Store.valueAt?_push ..

theorem enclosing?_nested {state : Interpreter} {enclosing : ScopeId}
    (henclosing : enclosing < state.store.scopes.size) (pairs : List (String × Value))
    (scope : ScopeId) : (state.nested enclosing pairs).store.enclosing? scope =
      if scope = state.store.scopes.size then some enclosing
      else state.store.enclosing? scope := by
  refine (Store.enclosing?_push ..).trans ?_
  split
  · next hscope => rw [hscope, Option.filter_some, if_pos (decide_eq_true henclosing)]
  · rfl

/-- The first state is the second one with padding: scopes that stand for each other have the same
names, with values that do so too, and are inside of scopes that do so too, unless the first one is
padding; then it is empty, and the scope around it stands for the same scope. -/
structure Padded (world : Padding) (state state' : Interpreter) : Prop where
  lt_size : ∀ {scope scope'}, world.between.scopes scope scope' →
    scope < state.store.scopes.size ∧ scope' < state'.store.scopes.size
  lt_of_proper : ∀ {scope}, world.proper scope → scope < state.store.scopes.size
  unique : ∀ {scope scope' other'}, world.between.scopes scope scope' →
    world.between.scopes scope other' → scope' = other'
  injective : ∀ {scope other scope'}, world.proper scope → world.proper other →
    world.between.scopes scope scope' → world.between.scopes other scope' → scope = other
  values : ∀ {scope scope'}, world.proper scope → world.between.scopes scope scope' → ∀ name,
    Option.Rel (Value.Same world.between) (state.store.valueAt? name scope)
      (state'.store.valueAt? name scope')
  enclosing : ∀ {scope scope'}, world.proper scope → world.between.scopes scope scope' →
    Option.Rel world.between.scopes (state.store.enclosing? scope) (state'.store.enclosing? scope')
  padding : ∀ {scope scope'}, ¬world.proper scope → world.between.scopes scope scope' →
    (∀ name, state.store.valueAt? name scope = none) ∧
      ∃ outer, state.store.enclosing? scope = some outer ∧ world.between.scopes outer scope'
  globals : world.between.scopes state.globals state'.globals
  output : state.output = state'.output
  identities : world.between.functions = Eq
  functions : state.functions = state'.functions

namespace Padded

variable {state state' : Interpreter}

/-- A name belongs to a proper scope and to the one that this stands for. The induction goes
outwards, and through padding on the one side only. -/
theorem owner? (h : Padded world state state') {scope scope' : ScopeId}
    (hscope : world.between.scopes scope scope') (name : String) :
    Option.Rel (fun owner owner' ↦ world.proper owner ∧ world.between.scopes owner owner')
      (state.store.owner? name scope) (state'.store.owner? name scope') := by
  induction scope using Nat.strongRecOn generalizing scope' with
  | ind scope ih =>
    have hlt (outer : ScopeId) : state.store.enclosing? scope = some outer → outer < scope :=
      Store.lt_of_enclosing?
    by_cases hproper : world.proper scope
    · rw [Store.owner?_eq, Store.owner?_eq state'.store, Store.binds_eq_isSome,
        Store.binds_eq_isSome, isSome_eq_of_rel (h.values hproper hscope name)]
      split
      · exact .some ⟨hproper, hscope⟩
      · have houter := h.enclosing hproper hscope
        generalize state.store.enclosing? scope = outer? at houter hlt
        generalize state'.store.enclosing? scope' = outer?' at houter
        cases houter with
        | some houter => exact ih _ (hlt _ rfl) houter
        | none => exact .none
    · obtain ⟨hempty, outer, houter, hrelated⟩ := h.padding hproper hscope
      rw [Store.owner?_eq, Store.binds_eq_isSome, hempty, houter]
      exact ih outer (hlt outer houter) hrelated

theorem get? (h : Padded world state state') {scope scope' : ScopeId}
    (hscope : world.between.scopes scope scope') (name : String) :
    Option.Rel (Value.Same world.between) (state.store.get? name scope)
      (state'.store.get? name scope') :=
  Store.rel_get? (h.owner? hscope name) fun _ _ howner ↦ h.values howner.1 howner.2 name

/-! ### Steps -/

theorem printLine (h : Padded world state state') (line : String) :
    Padded world (state.printLine line) (state'.printLine line) :=
  { h with output := congrArg (· ++ line ++ "\n") h.output }

/-- A name is bound in a proper scope and in the one that this stands for. -/
theorem define (h : Padded world state state') {scope scope' : ScopeId}
    (hproper : world.proper scope) (hscope : world.between.scopes scope scope')
    {value value' : Value} (hvalue : Value.Same world.between value value') (name : String) :
    Padded world (state.define name value scope) (state'.define name value' scope') := by
  obtain ⟨hlt, hlt'⟩ := h.lt_size hscope
  refine { h with
    lt_size := ?_, lt_of_proper := ?_, values := ?_, enclosing := ?_, padding := ?_ }
  · intro inner inner' hrelated
    simpa only [Interpreter.define, Store.size_define] using h.lt_size hrelated
  · intro inner hinner
    simpa only [Interpreter.define, Store.size_define] using h.lt_of_proper hinner
  · intro inner inner' hinner hrelated other
    have hiff : inner = scope ↔ inner' = scope' :=
      ⟨fun hsame ↦ h.unique hrelated (hsame ▸ hscope),
        fun hsame ↦ h.injective hinner hproper hrelated (hsame ▸ hscope)⟩
    rw [Interpreter.define, Interpreter.define, Store.valueAt?_define _ _ _ _ _ _ hlt,
      Store.valueAt?_define _ _ _ _ _ _ hlt']
    simp only [hiff]
    split
    · exact .some hvalue
    · exact h.values hinner hrelated other
  · intro inner inner' hinner hrelated
    simpa only [Interpreter.define, Store.enclosing?_define] using h.enclosing hinner hrelated
  · intro inner inner' hinner hrelated
    obtain ⟨hempty, houter⟩ := h.padding hinner hrelated
    refine ⟨fun other ↦ ?_, ?_⟩
    · have hne : inner ≠ scope := by
        rintro rfl
        exact hinner hproper
      rw [Interpreter.define, Store.valueAt?_define _ _ _ _ _ _ hlt, if_neg fun hsame ↦ hne hsame.1]
      exact hempty other
    · simpa only [Interpreter.define, Store.enclosing?_define] using houter

theorem newFunction (h : Padded world state state') {captured captured' : ScopeId}
    (hcaptured : world.between.scopes captured captured') (declaration : FunctionDeclaration) :
    Value.Same world.between (state.newFunction (.declared declaration captured)).1
        (state'.newFunction (.declared declaration captured')).1 ∧
      Padded world (state.newFunction (.declared declaration captured)).2
        (state'.newFunction (.declared declaration captured')).2 := by
  refine ⟨.function (.declared declaration ?_ hcaptured),
    { h with functions := congrArg (· + 1) h.functions }⟩
  rw [h.identities]
  exact h.functions

/-- A scope is opened on each side. -/
theorem nested (h : Padded world state state') {enclosing enclosing' : ScopeId}
    (henclosing : world.between.scopes enclosing enclosing') {pairs pairs' : List (String × Value)}
    (hpairs : Bindings.Same world.between pairs pairs') :
    Padded ((world.relate state.store.scopes.size state'.store.scopes.size).addProper
        state.store.scopes.size)
      (state.nested enclosing pairs) (state'.nested enclosing' pairs') := by
  let more := (world.relate state.store.scopes.size state'.store.scopes.size).addProper
    state.store.scopes.size
  have hmore : world ≤ more := (world.le_relate _ _).trans (Padding.le_addProper _ _)
  obtain ⟨hlt, hlt'⟩ := h.lt_size henclosing
  have hold {scope scope' : ScopeId} (hscope : world.between.scopes scope scope') :
      scope ≠ state.store.scopes.size ∧ scope' ≠ state'.store.scopes.size :=
    ⟨Nat.ne_of_lt (h.lt_size hscope).1, Nat.ne_of_lt (h.lt_size hscope).2⟩
  have hproper {scope : ScopeId} (hscope : more.proper scope)
      (hne : scope ≠ state.store.scopes.size) : world.proper scope := hscope.resolve_right hne
  refine { h with
    lt_size := ?_, lt_of_proper := ?_, unique := ?_, injective := ?_, values := ?_,
    enclosing := ?_, padding := ?_, globals := hmore.1.1 _ _ h.globals }
  · rw [size_nested, size_nested]
    rintro scope scope' (hscope | ⟨rfl, rfl⟩)
    · exact ⟨Nat.lt_succ_of_lt (h.lt_size hscope).1, Nat.lt_succ_of_lt (h.lt_size hscope).2⟩
    · exact ⟨Nat.lt_succ_self _, Nat.lt_succ_self _⟩
  · rw [size_nested]
    rintro scope (hscope | rfl)
    · exact Nat.lt_succ_of_lt (h.lt_of_proper hscope)
    · exact Nat.lt_succ_self _
  · rintro scope scope' other' (hscope | ⟨rfl, rfl⟩) (hother | ⟨hnew, rfl⟩)
    · exact h.unique hscope hother
    · exact absurd hnew (hold hscope).1
    · exact absurd rfl (hold hother).1
    · rfl
  · rintro scope other scope' hfirst hsecond (hscope | ⟨rfl, rfl⟩) (hother | ⟨rfl, hnew⟩)
    · exact h.injective (hproper hfirst (hold hscope).1) (hproper hsecond (hold hother).1) hscope
        hother
    · exact absurd hnew (hold hscope).2
    · exact absurd rfl (hold hother).2
    · rfl
  · rintro scope scope' hscope (hrelated | ⟨rfl, rfl⟩) name
    · rw [valueAt?_nested, valueAt?_nested, if_neg (hold hrelated).1, if_neg (hold hrelated).2]
      exact rel_imp (h.values (hproper hscope (hold hrelated).1) hrelated name)
        fun _ _ hvalue ↦ hvalue.grow hmore.1
    · rw [valueAt?_nested, valueAt?_nested, if_pos rfl, if_pos rfl]
      exact rel_imp (Bindings.rel_lookup_ofPairs hpairs name) fun _ _ hvalue ↦ hvalue.grow hmore.1
  · rintro scope scope' hscope (hrelated | ⟨rfl, rfl⟩)
    · rw [enclosing?_nested hlt, enclosing?_nested hlt', if_neg (hold hrelated).1,
        if_neg (hold hrelated).2]
      exact rel_imp (h.enclosing (hproper hscope (hold hrelated).1) hrelated) hmore.1.1
    · rw [enclosing?_nested hlt, enclosing?_nested hlt', if_pos rfl, if_pos rfl]
      exact .some (.inl henclosing)
  · rintro scope scope' hscope (hrelated | ⟨rfl, rfl⟩)
    · obtain ⟨hempty, outer, houter, hstands⟩ := h.padding (fun hin ↦ hscope (.inl hin)) hrelated
      simp only [valueAt?_nested, enclosing?_nested hlt, if_neg (hold hrelated).1]
      exact ⟨hempty, outer, houter, .inl hstands⟩
    · exact absurd (.inr rfl) hscope

/-- A scope is opened on the one side only, and nothing is bound in it. The scope is not a proper
one, since it has just been opened. -/
theorem pad (h : Padded world state state') {enclosing enclosing' : ScopeId}
    (henclosing : world.between.scopes enclosing enclosing') :
    Padded (world.relate state.store.scopes.size enclosing') (state.nested enclosing [])
      state' := by
  have hmore := world.le_relate state.store.scopes.size enclosing'
  obtain ⟨hlt, hlt'⟩ := h.lt_size henclosing
  have hproper {scope : ScopeId} (hscope : world.proper scope) : scope ≠ state.store.scopes.size :=
    Nat.ne_of_lt (h.lt_of_proper hscope)
  have hold {scope scope' : ScopeId} (hscope : world.proper scope)
      (hrelated : (world.relate state.store.scopes.size enclosing').between.scopes scope scope') :
      world.between.scopes scope scope' :=
    hrelated.resolve_right fun hnew ↦ hproper hscope hnew.1
  refine { h with
    lt_size := ?_, lt_of_proper := ?_, unique := ?_, injective := ?_, values := ?_,
    enclosing := ?_, padding := ?_, globals := hmore.1.1 _ _ h.globals }
  · rw [size_nested]
    rintro scope scope' (hscope | ⟨rfl, rfl⟩)
    · exact ⟨Nat.lt_succ_of_lt (h.lt_size hscope).1, (h.lt_size hscope).2⟩
    · exact ⟨Nat.lt_succ_self _, hlt'⟩
  · rw [size_nested]
    exact fun hscope ↦ Nat.lt_succ_of_lt (h.lt_of_proper hscope)
  · rintro scope scope' other' (hscope | ⟨rfl, rfl⟩) (hother | ⟨hnew, rfl⟩)
    · exact h.unique hscope hother
    · exact absurd hnew (Nat.ne_of_lt (h.lt_size hscope).1)
    · exact absurd rfl (Nat.ne_of_lt (h.lt_size hother).1)
    · rfl
  · intro scope other scope' hfirst hsecond hscope hother
    exact h.injective hfirst hsecond (hold hfirst hscope) (hold hsecond hother)
  · intro scope scope' hscope hrelated name
    rw [valueAt?_nested, if_neg (hproper hscope)]
    exact rel_imp (h.values hscope (hold hscope hrelated) name)
      fun _ _ hvalue ↦ hvalue.grow hmore.1
  · intro scope scope' hscope hrelated
    rw [enclosing?_nested hlt, if_neg (hproper hscope)]
    exact rel_imp (h.enclosing hscope (hold hscope hrelated)) hmore.1.1
  · rintro scope scope' hscope (hrelated | ⟨rfl, rfl⟩)
    · obtain ⟨hempty, outer, houter, hstands⟩ := h.padding hscope hrelated
      simp only [valueAt?_nested, enclosing?_nested hlt,
        if_neg (Nat.ne_of_lt (h.lt_size hrelated).1)]
      exact ⟨hempty, outer, houter, .inl hstands⟩
    · simp only [valueAt?_nested, enclosing?_nested hlt, if_pos]
      exact ⟨fun _ ↦ rfl, enclosing, rfl, .inl henclosing⟩

end Padded

/-! ### Runs -/

/-- The scopes in which two runs are, and whether names may be bound there. -/
structure Standpoint where
  scope : ScopeId
  scope' : ScopeId
  mayBind : Bool

/-- The two states stand at a certain point. -/
structure PaddedAt (standpoint : Standpoint) (world : Padding) (state state' : Interpreter) : Prop
    extends Padded world state state' where
  current : state.current = standpoint.scope
  current' : state'.current = standpoint.scope'
  related : world.between.scopes standpoint.scope standpoint.scope'
  proper : standpoint.mayBind = true → world.proper standpoint.scope

theorem Padded.at {state state' : Interpreter} (h : Padded world state state')
    {standpoint : Standpoint} (hcurrent : state.current = standpoint.scope)
    (hcurrent' : state'.current = standpoint.scope')
    (hrelated : world.between.scopes standpoint.scope standpoint.scope')
    (hproper : standpoint.mayBind = true → world.proper standpoint.scope) :
    PaddedAt standpoint world state state' :=
  { h with current := hcurrent, current' := hcurrent', related := hrelated, proper := hproper }

namespace PaddedAt

variable {standpoint : Standpoint} {state state' : Interpreter}

/-- A run that was elsewhere comes back. -/
theorem leave (h : PaddedAt standpoint world state state') {reached reached' : Interpreter}
    (hreached : Padded more reached reached') (hmore : world ≤ more) :
    PaddedAt standpoint more (reached.enter state.current).2 (reached'.enter state'.current).2 :=
  have hleft : Padded more (reached.enter state.current).2 (reached'.enter state'.current).2 :=
    { hreached with }
  hleft.at h.current h.current' (hmore.1.1 _ _ h.related) fun hbind ↦ hmore.2 _ (h.proper hbind)

/-- Whatever is run is in tandem with itself. -/
theorem tandem {host : Host} (hhost : host.UsesLookups) :
    Tandem host Padding.between (fun world ↦ Value.Same world.between)
      (fun standpoint : Standpoint ↦ standpoint.mayBind = true) PaddedAt where
  toIndiscernible := Padding.indiscernible
  current {standpoint _ _ _} h := by
    rw [h.current, h.current']
    exact h.related
  lookups standpoint := fun world state state' h scope scope' hscope name ↦
    h.toPadded.get? hscope name
  printLine h line := (h.toPadded.printLine line).at h.current h.current' h.related h.proper
  define {standpoint _ state state' _ _} hbind h hvalue name := by
    rw [h.current, h.current']
    exact (h.toPadded.define (h.proper hbind) h.related hvalue name).at h.current h.current'
      h.related h.proper
  owners h name := by
    rw [h.current, h.current']
    exact rel_imp (h.toPadded.owner? h.related name) fun _ _ howner _ _ hvalue ↦
      (h.toPadded.define howner.1 howner.2 hvalue name).at h.current h.current' h.related h.proper
  newFunction {_ world _ _ _ _} h hcaptured declaration := by
    obtain ⟨hvalue, hmade⟩ := h.toPadded.newFunction hcaptured declaration
    exact ⟨world, le_rfl, hvalue, hmade.at h.current h.current' h.related h.proper⟩
  nested {_ world state state' _ _ _ _} h henclosing hpairs := by
    refine ⟨⟨state.store.scopes.size, state'.store.scopes.size, true⟩, _, rfl,
      (world.le_relate _ _).trans (Padding.le_addProper _ _),
      (h.toPadded.nested henclosing hpairs).at rfl rfl (.inr ⟨rfl, rfl⟩) fun _ ↦ .inr rfl, ?_⟩
    intro last hlast reached reached' hreached
    exact h.leave hreached.toPadded
      (((world.le_relate _ _).trans (Padding.le_addProper _ _)).trans hlast)
  perform {_ world bound calls calls'} hcalls {_ _ name _ operation} _ {arguments arguments'}
      harguments :=
    hhost Padding.indiscernible (fun _ _ _ h _ _ hscope name ↦ h.toPadded.get? hscope name)
      (fun h ↦ h.toPadded.globals) world bound calls calls' hcalls name operation arguments
      arguments' harguments

end PaddedAt

/-- A value that can be there stands for itself. -/
theorem Knows.same {interpreter : Interpreter} {value : Value} (hknows : interpreter.Knows value) :
    Value.Same (Padding.initial interpreter.store.scopes.size).between value value := by
  cases value with
  | function callee =>
    obtain ⟨identity, body⟩ := callee
    cases body with
    | declared declaration captured =>
      exact .function (.declared declaration rfl ⟨rfl, hknows.captured _ rfl⟩)
    | native name arity operation => exact .function (.native name arity operation rfl)
  | _ => constructor

/-- At the beginning there is no padding. -/
theorem WellFormed.padded {interpreter : Interpreter} (hwell : interpreter.WellFormed) :
    Padded (.initial interpreter.store.scopes.size) interpreter interpreter where
  lt_size := by
    rintro scope _ ⟨rfl, hlt⟩
    exact ⟨hlt, hlt⟩
  lt_of_proper hlt := hlt
  unique := by
    rintro scope _ _ ⟨rfl, -⟩ ⟨rfl, -⟩
    rfl
  injective := by
    rintro scope other _ - - ⟨rfl, -⟩ ⟨rfl, -⟩
    rfl
  values := by
    rintro scope _ - ⟨rfl, -⟩ name
    cases hvalue : interpreter.store.valueAt? name scope with
    | none => exact .none
    | some value => exact .some (hwell.knows _ _ _ hvalue).same
  enclosing := by
    rintro scope _ - ⟨rfl, hlt⟩
    cases houter : interpreter.store.enclosing? scope with
    | none => exact .none
    | some outer => exact .some ⟨rfl, Nat.lt_trans (Store.lt_of_enclosing? houter) hlt⟩
  padding := by
    rintro scope _ hpadding ⟨-, hlt⟩
    exact absurd hlt hpadding
  globals := ⟨rfl, hwell.globals⟩
  output := rfl
  identities := rfl
  functions := rfl

/-! ### What can be seen -/

/-- Two states in the same scope that nothing can tell apart: what has been printed is the same, so
are the values in all scopes that have been there from the beginning, any of these can be entered,
and whatever statements are run and whatever functions are called, the runs end together and nothing
can tell the states apart afterwards. -/
structure Indistinguishable (host : Host) (size : Nat) (scope : ScopeId) (world : Padding)
    (state state' : Interpreter) : Prop where
  output : state.output = state'.output
  current : state.current = scope ∧ state'.current = scope
  values : ∀ other < size, ∀ name, Option.Rel (Value.Same world.between)
    (state.store.get? name other) (state'.store.get? name other)
  enter : ∀ other < size,
    PaddedAt ⟨other, other, true⟩ world (state.enter other).2 (state'.enter other).2
  runs : ∀ statements, EndTogether (PaddedAt ⟨scope, scope, true⟩)
    (fun world ↦ Flow.Related (Value.Same world.between)) world (executeAll host · statements)
    (executeAll host · statements) state state'
  calls : ∀ callee callee' arguments arguments', Value.Same world.between callee callee' →
    List.Forall₂ (Value.Same world.between) arguments arguments' →
    EndTogether (PaddedAt ⟨scope, scope, true⟩) (fun world ↦ Value.Same world.between) world
      (fun bound ↦ callValue (callExact (call host bound)) callee arguments)
      (fun bound ↦ callValue (callExact (call host bound)) callee' arguments') state state'

theorem PaddedAt.indistinguishable {host : Host} (hhost : host.UsesLookups) {size : Nat}
    {scope : ScopeId} {state state' : Interpreter} (hworld : .initial size ≤ world)
    (h : PaddedAt ⟨scope, scope, true⟩ world state state') :
    Indistinguishable host size scope world state state' where
  output := h.output
  current := ⟨h.current, h.current'⟩
  values _ hother := h.toPadded.get? (hworld.1.1 _ _ ⟨rfl, hother⟩)
  enter other hother :=
    have hinside : Padded world (state.enter other).2 (state'.enter other).2 :=
      { h.toPadded with }
    hinside.at rfl rfl (hworld.1.1 _ _ ⟨rfl, hother⟩) fun _ ↦ hworld.2 _ hother
  runs statements :=
    InTandem.endTogether (fun bound ↦ ((tandem hhost).upTo bound).executeAll statements rfl) h
  calls _ _ _ _ hcallee harguments :=
    InTandem.endTogether (fun bound ↦ (((tandem hhost).upTo bound).call.callExact
      Padding.indiscernible).callValue Padding.indiscernible hcallee harguments) h

end Interpreter

end Lox
