import Lox.Proofs.Execution.JoinedSources
import Lox.Proofs.Execution.MergedScopes
import Lox.Proofs.Syntax.FaithfulSpans

/-!
# The global scope is not special

Braces can be put around every source text that is read as a program, the closing one on a line of
its own because the text may end with a comment. What is read then is one block with the statements
of the program, one byte later (`ofSource_block`). Run in a fresh interpreter, the block does
what the program does, although its declarations are then in a scope of their own, inside of the
scope with the functions of the host; and in the global scope there is nothing else than before
(`block_around_program_changes_nothing`).
-/

set_option autoImplicit false
set_option relaxedAutoImplicit false

namespace Lox

open Interpreter (AlikeIn Merged MergedIn)

/-- The tokens of a source text with braces around it. -/
theorem Token.ofSource_block {source : String} {lexemes : List Token} {stop : Span}
    (htokens : Token.ofSource source = .ok (lexemes ++ [⟨.endOfInput, stop⟩])) :
    ∃ opening closing last, Token.ofSource ("\x7b" ++ source ++ "\n\x7d") =
      .ok (⟨.symbol .leftBrace, opening⟩ :: (lexemes.map (Token.shift 1) ++
        [⟨.symbol .rightBrace, closing⟩]) ++ [⟨.endOfInput, last⟩]) := by
  have hsource := (ofSource_eq_ok_iff_decomposes.mp htokens).shift 1
  have hclosing (offset : Nat) : Decomposes true offset ['\x7d']
      [⟨.symbol .rightBrace, offset, offset + 1⟩, ⟨.endOfInput, offset + 1, offset + 1⟩] :=
    .after_symbol rfl (by decide) (.finish .nil)
  have hwhole : Decomposes true 0 ('\x7b' :: (source.toList ++ ['\n', '\x7d'])) _ :=
    .after_symbol rfl (by decide) (hsource.append_newline (hclosing _))
  rw [List.map_append, List.map_singleton, List.dropLast_concat] at hwhole
  change Decomposes true 0 _ (_ :: (_ ++ ([_] ++ [_]))) at hwhole
  rw [← List.append_assoc] at hwhole
  have htext : ("\x7b" ++ source ++ "\n\x7d").toList =
      '\x7b' :: (source.toList ++ ['\n', '\x7d']) := by
    simp
  exact ⟨_, _, _, ofSource_eq_ok_iff_decomposes.mpr (htext ▸ hwhole)⟩

/-- A source text with braces around it is read as a block with its statements, one byte later. -/
theorem ofSource_block {source : String} {program : Program}
    (hprogram : Program.ofSource source = .ok program) :
    Program.ofSource ("\x7b" ++ source ++ "\n\x7d") = .ok [.block (Stmt.shiftAll 1 program)] := by
  obtain ⟨lexemes, stop, htokens, -, -, hwritten⟩ := exists_writtenBy_of_ofSource hprogram
  obtain ⟨opening, closing, last, hblock⟩ := Token.ofSource_block htokens
  rw [ofSource_eq_ok_iff_writtenBy hblock]
  obtain ⟨items, hitems, hread, htrees⟩ := hwritten.shift 1
  rw [hread, htrees]
  refine ⟨[⟨_, .block (items.map Stretch.tree)⟩], fun item hmem ↦ ?_, (List.append_nil _).symm, rfl⟩
  obtain rfl := List.mem_singleton.mp hmem
  exact .block opening closing hitems

/-! ### Running the block -/

variable {host : Host}

/-- What is done with the value does not depend on the state. -/
theorem Bounded.within_bind_pure {σ ε α β κ : Type} (enter : σ → κ × σ) (leave : κ → σ → σ)
    (computation : Bounded σ ε α) (value : β) :
    (computation.within enter leave >>= fun _ ↦ pure value) =
      (computation >>= fun _ ↦ pure value).within enter leave := by
  funext state
  change (computation.within enter leave >>= fun _ ↦ pure value).run state =
    ((computation >>= fun _ ↦ pure value).within enter leave).run state
  rw [run_bind, run_within_eq_map, run_within_eq_map, run_bind]
  cases computation.run (enter state).2 <;> rfl

/-- A program that is a block runs what is in the block in a scope of its own. -/
theorem runProgram_block (bound : Nat) (program : Program) :
    runProgram (bound + 2) [.block program] host =
      Bounded.gets Interpreter.current >>= fun enclosing ↦
        Run.nested enclosing [] (runProgram bound program host) := by
  simp only [runProgram, executeAll, execute, Run.openScope_bind_inScope, bind_assoc]
  congr 1
  funext enclosing
  rw [Run.nested, Run.nested, ← Bounded.within_bind_pure]
  congr 1
  funext flow
  cases flow <;> rfl

theorem ends_runProgram_block_iff (hhost : host.IgnoresPlaces) {program : Program}
    {state : Interpreter} {outcome : Outcome Interpreter RuntimeError Unit} :
    Ends (runProgram · [.block program] host) state outcome ↔
      ∃ origin, Ends (runProgram · program host) (state.nested state.current []) origin ∧
        outcome = origin.map id fun reached ↦ (reached.enter state.current).2 := by
  have hrun (bound : Nat) : (runProgram (bound + 2) [.block program] host).run state =
      ((runProgram bound program host).within
        (fun state ↦ (state.current, state.nested state.current []))
        fun former reached ↦ (reached.enter former).2).run state := by
    rw [runProgram_block]
    rfl
  calc Ends (runProgram · [.block program] host) state outcome
    _ ↔ Ends (fun bound ↦ runProgram (bound + 2) [.block program] host) state outcome :=
      (Ends.add_iff 2).symm
    _ ↔ _ := by
      simp only [Ends, hrun]
      exact ends_within_iff (converges_runProgram hhost program)

/-- The functions of the host that a fresh interpreter has. -/
def standardBindings (now : Instant) : Bindings :=
  [("clock", .function ⟨0, .native "clock" 0 (.clock now)⟩),
    ("date", .function ⟨1, .native "date" 0 (.date now)⟩)]

/-- They are all that there is. -/
theorem getElem?_standard (now : Instant) (scope : ScopeId) :
    (Interpreter.standard now).store.scopes[scope]? =
      if scope = 0 then some ⟨standardBindings now, none⟩ else none := by
  cases scope <;> rfl

theorem rel_lookup_standardBindings (now : Instant) (name : String) :
    Option.Rel Value.Behind ((standardBindings now).lookup name)
      ((standardBindings now).lookup name) := by
  simp only [standardBindings, List.lookup_cons, List.lookup_nil]
  split
  · refine .some ⟨.function (.native _ _ _ rfl), ?_⟩
    rintro _ _ _ _ ⟨⟩
    exact .clock now
  · split
    · refine .some ⟨.function (.native _ _ _ rfl), ?_⟩
      rintro _ _ _ _ ⟨⟩
      exact .date now
    · exact .none

/-- In a block at top level, and at top level, a program starts in merged states. -/
theorem merged_standard (now : Instant) :
    Merged ["clock", "date"] ((Interpreter.standard now).nested 0 []) (.standard now) where
  positive := Nat.one_pos
  size := rfl
  current := rfl
  globals := rfl
  names := rfl
  output := rfl
  functions := rfl
  outermost := rfl
  enclosing scope hscope := by
    have hinner : scope + 1 ≠ 1 := fun hone ↦ hscope (Nat.succ.inj hone)
    have hnone (inner : ScopeId) : (Interpreter.standard now).store.enclosing? inner = none := by
      rw [Store.enclosing?, getElem?_standard]
      split <;> rfl
    change Store.enclosing? ⟨(Interpreter.standard now).store.scopes.push _⟩ _ = _
    rw [Store.enclosing?_push, hnone, hnone]
    exact if_neg hinner
  values scope name := by
    have hvalue (inner : ScopeId) : (Interpreter.standard now).store.valueAt? name inner =
        if inner = 0 then (standardBindings now).lookup name else none := by
      rw [Store.valueAt?, getElem?_standard]
      split <;> rfl
    have hnested (inner : ScopeId) :
        ((Interpreter.standard now).nested 0 []).store.valueAt? name inner =
          if inner = 0 then (standardBindings now).lookup name else none := by
      change Store.valueAt? ⟨(Interpreter.standard now).store.scopes.push _⟩ _ _ = _
      rw [Store.valueAt?_push, hvalue]
      split
      · next hinner =>
        subst hinner
        rfl
      · rfl
    rw [Store.mergedAt?, hnested, hnested, hnested, hvalue]
    cases scope with
    | zero => exact rel_lookup_standardBindings now name
    | succ scope => exact .none

/-- Programs end together in the block and at top level. -/
theorem endTogether_nested_standard (now : Instant) (program : Program) :
    EndTogether (MergedIn ["clock", "date"]) (fun _ _ _ ↦ True) .behind (runProgram · program)
      (runProgram · program) ((Interpreter.standard now).nested 0 []) (.standard now) := by
  refine InTandem.endTogether (fun bound ↦ ?_) ⟨rfl, merged_standard now⟩
  exact .bind (MergedIn.inTandem_executeAll program) fun _ _ _ _ _ ↦ .pure fun _ _ ↦ trivial

theorem Bindings.Matches.map_fst_eq {leeway : Leeway} {between : Correspondence}
    {bindings bindings' : Bindings} (hbindings : Matches leeway between bindings bindings') :
    bindings.map Prod.fst = bindings'.map Prod.fst := by
  induction hbindings with
  | nil => rfl
  | cons hbinding _ ih => rw [List.map_cons, List.map_cons, hbinding.1, ih]

/-- States that are alike have the same global names. -/
theorem Interpreter.Alike.map_fst_globalBindings {leeway : Leeway} {state state' : Interpreter}
    (halike : state.Alike leeway state') :
    state.globalBindings.map Prod.fst = state'.globalBindings.map Prod.fst := by
  have hscope := halike.store state.globals
  simp only [globalBindings, Store.bindings, ← halike.globals]
  generalize state.store.scopes[state.globals]? = found at hscope
  generalize state'.store.scopes[state.globals]? = found' at hscope
  cases hscope with
  | none => rfl
  | some hscope => exact hscope.bindings.map_fst_eq

/-- With braces around it, a source text that is read as a program is read as one block with the
statements of the program. Run in a fresh interpreter, the one ends exactly if the other does: both
are done or have failed with the same error, with the same output, and the block leaves no other
names in the global scope than those of the functions of the host. -/
theorem block_around_program_changes_nothing {source : String} {program : Program}
    (hprogram : Program.ofSource source = .ok program) :
    Program.ofSource ("\x7b" ++ source ++ "\n\x7d") = .ok [.block (Stmt.shiftAll 1 program)] ∧
    ∀ now, EndTogether
      (fun _ state state' ↦ state.output = state'.output ∧
        state.globalBindings.map Prod.fst = ["clock", "date"])
      (fun _ _ _ ↦ True) Correspondence.behind
      (runSource · ("\x7b" ++ source ++ "\n\x7d")) (runSource · source)
      (.standard now) (.standard now) := by
  have hblock := ofSource_block hprogram
  refine ⟨hblock, fun now ↦ ?_⟩
  have hhost := Host.standard_ignoresPlaces
  have hsame : Stmt.eraseSpansAll [.block (Stmt.shiftAll 1 program)] =
      Stmt.eraseSpansAll [.block program] := by
    simp only [Stmt.eraseSpansAll_cons, Stmt.eraseSpansAll_nil, Stmt.eraseSpans_block,
      Stmt.eraseSpansAll_shiftAll]
  obtain ⟨hforth, hback⟩ := endTogether_nested_standard now program
  refine .of_forth (fun outcome hends ↦ ?_) fun outcome' hends' ↦ ?_
  · obtain ⟨whole, hwhole, rfl⟩ := (ends_runSource_iff hblock).mp hends
    obtain ⟨_, hmoved, hwholes⟩ :=
      exists_ends_runProgram hhost (Stmt.alikeAll_of_eraseSpansAll_eq _ _ hsame) hwhole
    obtain ⟨inner, hinner, rfl⟩ := (ends_runProgram_block_iff hhost).mp hmoved
    obtain ⟨outcome', hends', hmatches⟩ := hforth inner hinner
    refine ⟨_, (ends_runSource_iff hprogram).mpr ⟨outcome', hends', rfl⟩, ?_⟩
    have hleave {reached reached' reached'' : Interpreter}
        (hwhole : reached.Alike .none (reached'.enter 0).2)
        (hmerged : Merged ["clock", "date"] reached' reached'') :
        reached.output = reached''.output ∧
          reached.globalBindings.map Prod.fst = ["clock", "date"] := by
      refine ⟨hwhole.output.trans hmerged.output, hwhole.map_fst_globalBindings.trans ?_⟩
      rw [← hmerged.names, ← hmerged.globals]
      rfl
    cases hmatches with
    | done _ _ hmerged =>
      cases hwholes with
      | done hwhole => exact .done le_rfl trivial (hleave hwhole hmerged.2)
    | failed _ hmerged =>
      cases hwholes with
      | failed hwhole => exact .failed le_rfl (hleave hwhole hmerged.2)
  · obtain ⟨outer, houter, rfl⟩ := (ends_runSource_iff hprogram).mp hends'
    obtain ⟨inner, hinner, -⟩ := hback outer houter
    have hmoved := (ends_runProgram_block_iff hhost).mpr ⟨inner, hinner, rfl⟩
    obtain ⟨whole, hwhole, -⟩ :=
      exists_ends_runProgram hhost (Stmt.alikeAll_of_eraseSpansAll_eq _ _ hsame.symm) hmoved
    exact ⟨_, (ends_runSource_iff hblock).mpr ⟨whole, hwhole, rfl⟩⟩

/-- In a block, a variable hides a function of the host and does not take its place. -/
theorem block_hides_function_of_host :
    let source := "var date; print !nil; // date"
    let now : Instant := ⟨2024, 2, 29, 12, 0, 0⟩
    let program : Program := [.declare ⟨"date", 4, 8⟩ none,
      .print (.unary .not (.literal .nil ⟨17, 20⟩) ⟨16, 20⟩)]
    Program.ofSource source = .ok program ∧
      Program.ofSource ("\x7b" ++ source ++ "\n\x7d") = .ok [.block (Stmt.shiftAll 1 program)] ∧
      ∃ state, Ends (runSource · ("\x7b" ++ source ++ "\n\x7d")) (.standard now) (.done () state) ∧
        state.output = "true\n" ∧ state.globalBindings.map Prod.fst = ["clock", "date"] := by
  intro source now program
  have hread : Program.ofSource source = .ok program :=
    Program.ofSource_eq_ok_iff.mpr ⟨[⟨.keyword .var, 0, 3⟩, ⟨.identifier "date", 4, 8⟩,
      ⟨.symbol .semicolon, 8, 9⟩, ⟨.keyword .print, 10, 15⟩, ⟨.symbol .bang, 16, 17⟩,
      ⟨.keyword .nil, 17, 20⟩, ⟨.symbol .semicolon, 20, 21⟩, ⟨.endOfInput, 29, 29⟩],
      by decide +kernel, rfl⟩
  obtain ⟨hblock, hruns⟩ := block_around_program_changes_nothing hread
  have hends : Ends (runSource · source) (.standard now)
      (.done () (((Interpreter.standard now).define "date" .nil 0).printLine "true")) := by
    refine (Ends.add_iff 5).mp (.of_forall (by simp) fun bound ↦ ?_)
    rw [runSource_of_ofSource hread]
    rfl
  obtain ⟨outcome, hblockEnds, hmatches⟩ := (hruns now).2 _ hends
  cases hmatches with
  | done _ _ hstate => exact ⟨hread, hblock, _, hblockEnds, hstate⟩

end Lox
