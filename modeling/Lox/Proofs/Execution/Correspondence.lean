import Lox.Operator
import Lox.Proofs.Syntax.Alike
import Lox.Scope
import Mathlib.Order.Defs.PartialOrder

/-!
# Values that stand for each other

Two runs may use different scopes for the same purpose, and give different identities to functions
that come from the same declaration. A `Correspondence` says which scopes and which identities stand
for each other; it grows as a run goes on. `Value.Matches` is when two values cannot be told apart
by a program then: operators, and everything that is printed, give the same for both
(`Value.Matches.display_eq`, `BinaryOperator.apply_eq`).
-/

set_option autoImplicit false
set_option relaxedAutoImplicit false

namespace Lox

/-- The scopes and the identities of functions that stand for each other in two states. -/
structure Correspondence where
  scopes : ScopeId → ScopeId → Prop
  functions : Nat → Nat → Prop
  functions_iff : ∀ {first first' second second' : Nat}, functions first first' →
    functions second second' → (first = second ↔ first' = second')

namespace Correspondence

/-- What stood for each other still does. -/
instance : Preorder Correspondence where
  le between grown :=
    (∀ scope scope', between.scopes scope scope' → grown.scopes scope scope') ∧
      ∀ function function', between.functions function function' →
        grown.functions function function'
  le_refl _ := ⟨fun _ _ h ↦ h, fun _ _ h ↦ h⟩
  le_trans _ _ _ hfirst hsecond :=
    ⟨fun _ _ h ↦ hsecond.1 _ _ (hfirst.1 _ _ h), fun _ _ h ↦ hsecond.2 _ _ (hfirst.2 _ _ h)⟩

/-- Everything stands for itself. -/
def same : Correspondence := ⟨Eq, Eq, by rintro _ _ _ _ rfl rfl; rfl⟩

/-- Functions stand for themselves. -/
def ofScopes (scopes : ScopeId → ScopeId → Prop) : Correspondence :=
  ⟨scopes, Eq, same.functions_iff⟩

end Correspondence

theorem isSome_eq_of_rel {α β : Type} {related : α → β → Prop} {first : Option α}
    {second : Option β} (hrelated : Option.Rel related first second) :
    first.isSome = second.isSome := by
  cases hrelated <;> rfl

variable {leeway : Leeway} {between grown : Correspondence}

/-- Functions made from declarations that say the same, in scopes that stand for each other, or with
the same operation of the host. -/
inductive FunctionValue.Matches (leeway : Leeway) (between : Correspondence) :
    FunctionValue → FunctionValue → Prop
  | declared {identity identity' : Nat} {declaration declaration' : FunctionDeclaration}
    {captured captured' : ScopeId} : between.functions identity identity' →
    declaration.Alike leeway declaration' → between.scopes captured captured' →
    Matches leeway between ⟨identity, .declared declaration captured⟩
      ⟨identity', .declared declaration' captured'⟩
  | native {identity identity' : Nat} (name : String) (arity : Nat) (operation : Native) :
    between.functions identity identity' →
    Matches leeway between ⟨identity, .native name arity operation⟩
      ⟨identity', .native name arity operation⟩

/-- The same values, but for functions. -/
inductive Value.Matches (leeway : Leeway) (between : Correspondence) : Value → Value → Prop
  | number (value : Float) : Matches leeway between (.number value) (.number value)
  | string (text : String) : Matches leeway between (.string text) (.string text)
  | boolean (value : Bool) : Matches leeway between (.boolean value) (.boolean value)
  | nil : Matches leeway between .nil .nil
  | function {callee callee' : FunctionValue} :
    FunctionValue.Matches leeway between callee callee' →
    Matches leeway between (.function callee) (.function callee')

/-- The same names in the same order, with values that stand for each other. -/
def Bindings.Matches (leeway : Leeway) (between : Correspondence) : Bindings → Bindings → Prop :=
  List.Forall₂ fun binding binding' ↦
    binding.1 = binding'.1 ∧ Value.Matches leeway between binding.2 binding'.2

theorem FunctionValue.Matches.grow {callee callee' : FunctionValue}
    (hcallee : Matches leeway between callee callee') (hgrown : between ≤ grown) :
    Matches leeway grown callee callee' := by
  cases hcallee with
  | declared hidentity hdeclaration hcaptured =>
    exact .declared (hgrown.2 _ _ hidentity) hdeclaration (hgrown.1 _ _ hcaptured)
  | native name arity operation hidentity => exact .native _ _ _ (hgrown.2 _ _ hidentity)

/-- What stands for each other still does when the correspondence has grown. -/
theorem Value.Matches.grow {value value' : Value} (hvalue : Matches leeway between value value')
    (hgrown : between ≤ grown) : Matches leeway grown value value' := by
  cases hvalue with
  | number value => exact .number value
  | string text => exact .string text
  | boolean value => exact .boolean value
  | nil => exact .nil
  | function hcallee => exact .function (hcallee.grow hgrown)

theorem Bindings.Matches.grow {bindings bindings' : Bindings}
    (hbindings : Matches leeway between bindings bindings') (hgrown : between ≤ grown) :
    Matches leeway grown bindings bindings' :=
  List.Forall₂.imp (fun _ _ hbinding ↦ ⟨hbinding.1, hbinding.2.grow hgrown⟩) hbindings

/-- The same names with values that are related are bindings that are. -/
theorem Bindings.forall₂_zip {related : Value → Value → Prop} {values values' : List Value}
    (hvalues : List.Forall₂ related values values') (names : List String) :
    List.Forall₂ (fun binding binding' ↦ binding.1 = binding'.1 ∧ related binding.2 binding'.2)
      (names.zip values) (names.zip values') := by
  induction hvalues generalizing names with
  | nil =>
    rw [List.zip_nil_right]
    exact .nil
  | cons hvalue _ ih =>
    cases names with
    | nil => exact .nil
    | cons name names => exact .cons ⟨rfl, hvalue⟩ (ih names)

/-! ### What programs can tell about values -/

namespace FunctionValue.Matches

variable {callee callee' : FunctionValue}

theorem name_eq (hcallee : Matches leeway between callee callee') : callee.name = callee'.name := by
  cases hcallee with
  | declared _ hdeclaration _ => exact hdeclaration.name
  | native => rfl

theorem arity_eq (hcallee : Matches leeway between callee callee') :
    callee.arity = callee'.arity := by
  cases hcallee with
  | declared _ hdeclaration _ => simpa [arity] using congrArg List.length hdeclaration.parameters
  | native => rfl

/-- Functions are printed with their names, so those that stand for each other are printed alike. -/
theorem display_eq (hcallee : Matches leeway between callee callee') :
    callee.display = callee'.display := by
  have hnative : callee.isNative = callee'.isNative := by cases hcallee <;> rfl
  rw [display, display, hnative, hcallee.name_eq]

theorem identity (hcallee : Matches leeway between callee callee') :
    between.functions callee.identity callee'.identity := by
  cases hcallee <;> assumption

end FunctionValue.Matches

namespace Value.Matches

variable {value value' other other' : Value}

theorem isTruthy_eq (hvalue : Matches leeway between value value') :
    value.isTruthy = value'.isTruthy := by
  cases hvalue <;> rfl

theorem typeName_eq (hvalue : Matches leeway between value value') :
    value.typeName = value'.typeName := by
  cases hvalue <;> rfl

/-- Values that stand for each other are printed alike. -/
theorem display_eq (hvalue : Matches leeway between value value') :
    value.display = value'.display := by
  cases hvalue with
  | function hcallee => exact hcallee.display_eq
  | _ => rfl

/-- Functions are compared by their identities. -/
theorem equals_eq (hvalue : Matches leeway between value value')
    (hother : Matches leeway between other other') : value.equals other = value'.equals other' := by
  cases hvalue <;> cases hother <;> try rfl
  rename_i hfirst _ _ hsecond
  simp only [equals, between.functions_iff hfirst.identity hsecond.identity]

end Value.Matches

/-- Operands that stand for each other give the same result or the same error, as an operator knows
of a function only that it is one. -/
theorem UnaryOperator.apply_eq {value value' : Value}
    (hvalue : Value.Matches leeway between value value') (operator : UnaryOperator) :
    operator.apply value = operator.apply value' := by
  cases operator with
  | not => rw [apply, apply, hvalue.isTruthy_eq]
  | negate => cases hvalue <;> rfl

/-- The result of an operator stands for itself: it is no function. -/
theorem UnaryOperator.matches_apply {value result : Value} {operator : UnaryOperator}
    (hresult : operator.apply value = .ok result) : Value.Matches leeway between result result := by
  cases operator with
  | not =>
    cases hresult
    exact .boolean _
  | negate =>
    cases value <;> cases hresult
    exact .number _

namespace BinaryOperator

variable {left left' right right' : Value}

theorem typed?_eq (hleft : Value.Matches leeway between left left')
    (hright : Value.Matches leeway between right right') (operator : BinaryOperator) :
    operator.typed? left right = operator.typed? left' right' := by
  cases hleft <;> cases hright <;> rfl

/-- The same holds for binary operators. Equality compares identities, and it is here that a
correspondence of functions has to be one to one. -/
theorem apply_eq (hleft : Value.Matches leeway between left left')
    (hright : Value.Matches leeway between right right') (operator : BinaryOperator) :
    operator.apply left right = operator.apply left' right' := by
  have hequals := hleft.equals_eq hright
  have htyped := typed?_eq hleft hright operator
  have hnames : left.typeName ++ " and " ++ right.typeName
      = left'.typeName ++ " and " ++ right'.typeName := by
    rw [hleft.typeName_eq, hright.typeName_eq]
  cases operator <;> simp only [apply, hequals, htyped, hnames]

/-- What an operator yields is no function, and stands for itself. -/
theorem matches_typed? {result : Value} {operator : BinaryOperator}
    (hresult : operator.typed? left right = some result) :
    Value.Matches leeway between result result := by
  unfold typed? at hresult
  split at hresult
  · cases operator <;> cases hresult <;> constructor
  · cases operator <;> cases hresult <;> constructor
  · cases hresult

/-- The result of an operator stands for itself: it is no function. -/
theorem matches_apply {result : Value} {operator : BinaryOperator}
    (hresult : operator.apply left right = .ok result) :
    Value.Matches leeway between result result := by
  unfold apply at hresult
  split at hresult
  · cases hresult
    exact .boolean _
  · cases hresult
    exact .boolean _
  · split at hresult
    · rename_i htyped
      cases hresult
      exact matches_typed? htyped
    · cases hresult

end BinaryOperator

end Lox
