import UnitCalculator.Expression.Evaluation
import UnitCalculator.Proofs.Failure

/-!
# Failures of operations

Computing with numbers fails by a signal, by a division by zero or outside the domain of a function.
An operation on quantities can also find dimensions that do not fit, which it may be unable to
write, and an unknown function. Nothing else goes wrong.
-/

namespace UnitCalculator

/-- Failures of computing with numbers. -/
inductive Failure.IsNumeric : Failure → Prop where
  | signal (cause : Signal) : IsNumeric (.signal cause)
  | infiniteExponent : IsNumeric .infiniteExponent
  | divisionByZero (cause : ZeroDivision) : IsNumeric (.of (.divisionByZero cause))
  | outsideDomain (cause : DomainFault) : IsNumeric (.of (.outsideDomain cause))

/-- Failures of operations on quantities. -/
inductive Failure.IsOperational : Failure → Prop where
  | numeric {failure : Failure} (h : failure.IsNumeric) : IsOperational failure
  | incompatible (left right : String) : IsOperational (.of (.incompatible left right))
  /-- A dimension that does not fit cannot be written. -/
  | longNumeral : IsOperational .longNumeral
  | unknownFunction (name : String) : IsOperational (.malformed (.unknownFunction name))

/-- A dimension is written unless an exponent is too long. -/
theorem Dimension.failsBy_text? (d : Dimension) : FailsBy Failure.IsOperational d.text? := by
  rw [text?]
  cases d.isWritable with
  | true => exact failsBy_ok _
  | false => exact failsBy_error .longNumeral

namespace Quantity

open Failure

/-- Decimal arithmetic fails as computing with numbers does. -/
theorem failsBy_arithmetic {α : Type} (operation : String) (x : Except Signal α) :
    FailsBy IsNumeric (within operation x) :=
  failsBy_within operation x .divisionByZero .outsideDomain

/-- So does a decimal step whose signal is passed on. -/
theorem failsBy_step {α : Type} (x : Except Signal α) : FailsBy IsNumeric (ofSignal x) :=
  failsBy_ofSignal x .signal

/-- So does an operation on quantities that computes a number. -/
theorem failsBy_number {x : Outcome Decimal} (hx : FailsBy IsNumeric x)
    (f : Decimal → Quantity) : FailsBy IsOperational (do return f (← x)) :=
  (hx.mono fun _ => .numeric).bind fun value _ => failsBy_ok (f value)

/-- Powers of numbers fail as computing with numbers does. -/
theorem failsBy_powerOf (base exponent : Decimal) :
    FailsBy IsNumeric (powerOf base exponent) := by
  have hlast := failsBy_arithmetic "power" (working.power base exponent)
  have hzero : FailsBy IsNumeric (do
      if base.isZero then
        if ← ofSignal (exponent.isLess (.ofNat 0)) then
          throw (.of (.divisionByZero .negativePower))
      within "power" (working.power base exponent)) := by
    cases base.isZero with
    | false => exact hlast
    | true =>
      refine (failsBy_step _).bind fun negative _ => ?_
      cases negative with
      | false => exact hlast
      | true => exact failsBy_error (.divisionByZero _)
  refine (failsBy_step _).bind fun negative _ => ?_
  cases negative with
  | false => exact hzero
  | true =>
    refine (failsBy_step _).bind fun integral _ => ?_
    cases integral with
    | false => exact failsBy_error (.outsideDomain _)
    | true => exact hzero

/-- Looking for the fraction that an exponent means fails as computing with numbers does. -/
theorem failsBy_fractionFrom (exponent : Decimal) (fuel degree : Nat) :
    FailsBy IsNumeric (fractionFrom exponent fuel degree) := by
  induction fuel generalizing degree with
  | zero => exact failsBy_ok _
  | succ fuel ih =>
    refine (failsBy_step _).bind fun scaled _ => ?_
    refine (failsBy_step _).bind fun integral _ => ?_
    cases integral with
    | false => exact ih (degree + 1)
    | true =>
      cases scaled with
      | finite s c e => exact failsBy_ok _
      | infinity s => exact failsBy_error .infiniteExponent
      | nan s signaling payload => exact failsBy_error .infiniteExponent

/-- Dimensions that do not fit are named, unless they cannot be written. -/
theorem failsBy_mismatch {α : Type} (left : Dimension) {right : Outcome String}
    (hr : FailsBy IsOperational right) : FailsBy IsOperational (mismatch left right : Outcome α) :=
  left.failsBy_text?.bind fun _ _ => hr.bind fun _ _ => failsBy_error (.incompatible _ _)

/-- A demand for equal dimensions. -/
theorem failsBy_requireSame (a b : Quantity) : FailsBy IsOperational (a.requireSame b) := by
  rw [requireSame]
  by_cases h : a.dimension = b.dimension
  · rw [if_pos h]
    exact failsBy_ok ()
  · rw [if_neg h]
    exact failsBy_mismatch _ b.dimension.failsBy_text?

/-- A demand for a pure number. -/
theorem failsBy_requireDimensionless (q : Quantity) :
    FailsBy IsOperational q.requireDimensionless := by
  rw [requireDimensionless]
  cases q.isDimensionless with
  | true => exact failsBy_ok ()
  | false => exact failsBy_mismatch _ (failsBy_ok "1")

/-- A demand for a positive pure number. -/
theorem failsBy_requirePositive (q : Quantity) : FailsBy IsOperational q.requirePositive := by
  refine (failsBy_requireDimensionless q).bind fun _ _ => ?_
  refine ((failsBy_step _).mono fun _ => .numeric).bind fun small _ => ?_
  cases small with
  | false => exact failsBy_ok ()
  | true => exact failsBy_error (.numeric (.outsideDomain _))

/-- Powers of quantities. -/
theorem failsBy_pow (base exponent : Quantity) : FailsBy IsOperational (base.pow exponent) := by
  have hvalue := failsBy_powerOf base.value exponent.value
  refine (failsBy_requireDimensionless exponent).bind fun _ _ => ?_
  cases base.isDimensionless with
  | true => exact failsBy_number hvalue number
  | false =>
    have hsearch := failsBy_fractionFrom exponent.value greatestDegree 1
    refine (hsearch.mono fun _ => .numeric).bind fun found _ => ?_
    cases found with
    | some fraction =>
      exact failsBy_number hvalue fun value => of value (base.dimension.multiply fraction)
    | none =>
      refine failsBy_mismatch _ ?_
      exact ((failsBy_step _).mono fun _ => .numeric).bind fun _ _ => failsBy_ok _

/-- Operators fail as operations on quantities do. -/
theorem failsBy_operator (op : Operator) (a b : Quantity) :
    FailsBy IsOperational (op.apply a b) := by
  have hproduct : FailsBy IsOperational (a.multiply b) :=
    failsBy_number (failsBy_arithmetic _ _) fun value => of value _
  have hquotient : FailsBy IsOperational (a.divide b) := by
    rw [divide]
    cases b.value.isZero with
    | true => exact failsBy_error (.numeric (.divisionByZero _))
    | false => exact failsBy_number (failsBy_arithmetic _ _) fun value => of value _
  cases op with
  | assign => exact failsBy_ok b
  | add =>
    refine (failsBy_requireSame a b).bind fun _ _ => ?_
    exact failsBy_number (failsBy_arithmetic _ _) fun value => of value _
  | subtract =>
    refine (failsBy_requireSame a b).bind fun _ _ => ?_
    exact failsBy_number (failsBy_arithmetic _ _) fun value => of value _
  | multiply => exact hproduct
  | impliedMultiply => exact hproduct
  | divide => exact hquotient
  | impliedDivide => exact hquotient
  | power => exact failsBy_pow a b

/-- Functions fail as operations on quantities do. -/
theorem failsBy_apply (name : String) (q : Quantity) : FailsBy IsOperational (q.apply name) := by
  rw [apply]
  cases Function.ofName? name with
  | none => exact failsBy_error (.unknownFunction name)
  | some function =>
    cases function with
    | sqrt =>
      refine ((failsBy_step _).mono fun _ => .numeric).bind fun negative _ => ?_
      cases negative with
      | false => exact failsBy_number (failsBy_arithmetic _ _) fun value => of value _
      | true => exact failsBy_error (.numeric (.outsideDomain _))
    | ln =>
      exact (failsBy_requirePositive q).bind fun _ _ =>
        failsBy_number (failsBy_arithmetic _ _) number
    | log =>
      exact (failsBy_requirePositive q).bind fun _ _ =>
        failsBy_number (failsBy_arithmetic _ _) number
    | exp =>
      exact (failsBy_requireDimensionless q).bind fun _ _ =>
        failsBy_number (failsBy_arithmetic _ _) number
    | transcendental f =>
      refine (failsBy_requireDimensionless q).bind fun _ _ => ?_
      cases f.evaluate working q.value with
      | none => exact failsBy_error (.numeric (.outsideDomain _))
      | some value => exact failsBy_number (failsBy_step value) number

end Quantity

/-- Failures of evaluating an expression: those of its operations, and undefined variables. -/
inductive Failure.IsEvaluative : Failure → Prop where
  | operational {failure : Failure} (h : failure.IsOperational) : IsEvaluative failure
  | undefinedVariable (name : String) : IsEvaluative (.of (.undefinedVariable name))

/-- Expressions fail as their operations do or by an undefined variable. -/
theorem Tree.failsBy_evaluate (bindings : Bindings) (tree : Tree) :
    FailsBy Failure.IsEvaluative (tree.evaluate bindings) := by
  induction tree with
  | leaf token =>
    rcases token with ⟨lexeme, position⟩
    cases lexeme with
    | reference name =>
      simp only [evaluate, Lexeme.evaluate]
      cases bindings name with
      | none => exact failsBy_error (.undefinedVariable name)
      | some q => exact failsBy_ok q
    | _ => exact failsBy_ok _
  | call function position operand ih =>
    exact ih.bind fun q _ => (q.failsBy_apply function).mono fun _ => .operational
  | binary op position left right ihl ihr =>
    rw [evaluate]
    by_cases ha : op = .assign
    · rw [if_pos ha]
      exact ihr
    · rw [if_neg ha]
      refine ihl.bind fun a _ => ihr.bind fun b _ => ?_
      exact (Quantity.failsBy_operator op a b).mono fun _ => .operational

end UnitCalculator
