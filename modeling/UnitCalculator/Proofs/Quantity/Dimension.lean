import UnitCalculator.Proofs.Quantity.Alike
import UnitCalculator.Proofs.Quantity.Failure

/-!
# Dimensions of results

What dimension the result of an operation has, and whether its operands fit, is settled by the
dimensions of the operands alone. Only a power needs more, namely the value of its exponent. Values
decide whether there is a result, but never which dimension it has.
-/

namespace UnitCalculator

/-- The failure is that two dimensions do not fit. -/
def Failure.IsMismatch : Failure → Prop
  | .fault (.incompatible ..) _ => True
  | _ => False

/-- Computing with numbers finds no misfit. -/
theorem Failure.IsNumeric.not_mismatch {failure : Failure} (h : failure.IsNumeric) :
    ¬ failure.IsMismatch := by
  cases h <;> exact id

/-- The dimension of a sum or difference, which only quantities of one dimension have. -/
def Dimension.common? (a b : Dimension) : Option Dimension := if a = b then some a else none

/-- The dimension of a power of a base other than a pure number, whose exponent must mean a
fraction. -/
def Dimension.fractional? (base : Dimension) (exponent : Decimal) : Option Dimension :=
  match Quantity.fractionOf? exponent with
  | .ok (some fraction) => some (base.multiply fraction)
  | _ => none

/-- The dimension of a power, whose exponent must be a pure number. -/
def Dimension.power? (base : Dimension) (exponent : Quantity) : Option Dimension :=
  if exponent.dimension.isOne then
    if base.isOne then some .one else base.fractional? exponent.value
  else none

/-- The dimension of the value of a function: half that of the argument for the square root, and
that of pure numbers, which the others demand and return. -/
def Function.dimension? (name : String) (argument : Dimension) : Option Dimension :=
  match Function.ofName? name with
  | none => none
  | some .sqrt => some argument.halve
  | some _ => if argument.isOne then some .one else none

/-- The dimension of the result of an operator; only a power looks at the exponent itself. -/
def Operator.dimension? (op : Operator) (a b : Dimension) (exponent : Option Quantity) :
    Option Dimension :=
  match op with
  | .assign => some b
  | .add | .subtract => a.common? b
  | .multiply | .impliedMultiply => some (a.add b)
  | .divide | .impliedDivide => some (a.subtract b)
  | .power => exponent.bind a.power?

/-- A computation conforms to a dimension if its result has that dimension. Where dimensions do not
fit there is none to conform to. -/
structure Conforms (dimension : Option Dimension) (x : Outcome Quantity) : Prop where
  /-- A result has the dimension. -/
  of_ok : ∀ q, x = .ok q → dimension = some q.dimension
  /-- A misfit leaves none. -/
  of_mismatch : ∀ failure, x = .error failure → failure.IsMismatch → dimension = none

/-- A result conforms to its dimension. -/
theorem conforms_ok (q : Quantity) : Conforms (some q.dimension) (.ok q) := by
  refine ⟨fun other h => ?_, fun failure h => ?_⟩
  · rw [Except.ok.inj h]
  · cases h

/-- A failure of another sort conforms to every dimension. -/
theorem conforms_error {failure : Failure} (h : ¬ failure.IsMismatch)
    (dimension : Option Dimension) : Conforms dimension (.error failure) := by
  refine ⟨fun q hq => ?_, fun other ho hm => ?_⟩
  · cases hq
  · rw [← Except.error.inj ho] at hm
    exact absurd hm h

/-- Where there is no result there is no dimension to contradict. -/
theorem conforms_none {x : Outcome Quantity} (h : ∀ q, x ≠ .ok q) : Conforms none x :=
  ⟨fun q hq => absurd hq (h q), fun _ _ _ => rfl⟩

/-- An operand that fails by a misfit leaves no dimension; with its result the rest conforms. -/
theorem Conforms.bind {dimension : Option Dimension} {x : Outcome Quantity}
    (hx : Conforms dimension x) {next : Dimension → Option Dimension}
    {f : Quantity → Outcome Quantity} (hf : ∀ q, x = .ok q → Conforms (next q.dimension) (f q)) :
    Conforms (dimension.bind next) (x >>= f) := by
  cases x with
  | error failure =>
    refine ⟨fun q hq => ?_, fun other ho hm => ?_⟩
    · cases hq
    · obtain rfl := Except.error.inj ho
      rw [hx.of_mismatch failure rfl hm, Option.bind_none]
  | ok q =>
    rw [hx.of_ok q rfl]
    exact hf q rfl

/-- Steps that compute with numbers can go before a computation that conforms. -/
theorem conforms_after {α : Type} {dimension : Option Dimension} {x : Outcome α}
    (hx : FailsBy Failure.IsNumeric x) {f : α → Outcome Quantity}
    (hf : ∀ a, Conforms dimension (f a)) : Conforms dimension (x >>= f) := by
  cases x with
  | error failure => exact conforms_error (hx failure rfl).not_mismatch dimension
  | ok a => exact hf a

namespace Quantity

/-- A demand that is not met leaves no result. -/
theorem conforms_misfit {α : Type} (left : Dimension) (right : Outcome String)
    (f : α → Outcome Quantity) : Conforms none (mismatch left right >>= f) := by
  refine conforms_none fun q h => ?_
  obtain ⟨a, ha, -⟩ := bind_eq_ok_iff.mp h
  exact mismatch_ne_ok α left right a ha

/-- A computed value with a dimension conforms to that dimension. -/
theorem conforms_of {x : Outcome Decimal} (hx : FailsBy Failure.IsNumeric x)
    (dimension : Dimension) :
    Conforms (some dimension) (do return .of (← x) dimension) :=
  conforms_after hx fun value => conforms_ok (of value dimension)

/-- Demanding one dimension leaves the common one, if there is one. -/
theorem conforms_requireSame (a b : Quantity) {x : Outcome Quantity}
    (hx : Conforms (some a.dimension) x) :
    Conforms (a.dimension.common? b.dimension) (do a.requireSame b; x) := by
  rw [requireSame, Dimension.common?]
  by_cases h : a.dimension = b.dimension
  · rw [if_pos h, if_pos h]
    exact hx
  · rw [if_neg h, if_neg h]
    exact conforms_misfit _ _ _

/-- Demanding a pure number leaves the dimension of pure numbers, if there is one. -/
theorem conforms_requireDimensionless (q : Quantity) {dimension : Option Dimension}
    {x : Outcome Quantity} (hx : Conforms dimension x) :
    Conforms (if q.dimension.isOne then dimension else none) (do q.requireDimensionless; x) := by
  rw [requireDimensionless, isDimensionless]
  cases q.dimension.isOne with
  | true => exact hx
  | false => exact conforms_misfit _ _ _

/-- A sum has the common dimension of its terms. -/
theorem conforms_add (a b : Quantity) :
    Conforms (a.dimension.common? b.dimension) (a.add b) :=
  conforms_requireSame a b (conforms_of (failsBy_arithmetic _ _) a.dimension)

/-- A difference has the common dimension of its terms. -/
theorem conforms_subtract (a b : Quantity) :
    Conforms (a.dimension.common? b.dimension) (a.subtract b) :=
  conforms_requireSame a b (conforms_of (failsBy_arithmetic _ _) a.dimension)

/-- The dimension of a product is the sum of those of its factors. -/
theorem conforms_multiply (a b : Quantity) :
    Conforms (some (a.dimension.add b.dimension)) (a.multiply b) :=
  conforms_of (failsBy_arithmetic _ _) _

/-- The dimension of a quotient is the difference of those of its operands. -/
theorem conforms_divide (a b : Quantity) :
    Conforms (some (a.dimension.subtract b.dimension)) (a.divide b) := by
  have hquotient := conforms_of (failsBy_arithmetic "division" (working.divide a.value b.value))
    (a.dimension.subtract b.dimension)
  rw [divide]
  cases b.value.isZero with
  | false => exact hquotient
  | true => exact conforms_error (by exact id) _

/-- The dimension of a power. -/
theorem conforms_pow (base exponent : Quantity) :
    Conforms (base.dimension.power? exponent) (base.pow exponent) := by
  have hvalue := failsBy_powerOf base.value exponent.value
  rw [Dimension.power?, pow]
  refine conforms_requireDimensionless exponent ?_
  rw [isDimensionless]
  cases base.dimension.isOne with
  | true => exact conforms_of hvalue .one
  | false =>
    have hsearch := failsBy_fractionFrom exponent.value greatestDegree 1
    rw [← fractionOf?] at hsearch
    simp only [Bool.false_eq_true, if_false, Dimension.fractional?]
    cases hf : fractionOf? exponent.value with
    | error failure => exact conforms_error (hsearch failure hf).not_mismatch _
    | ok found =>
      cases found with
      | some fraction => exact conforms_of hvalue _
      | none =>
        refine conforms_none fun q hq => ?_
        obtain ⟨found, hfound, hmisfit⟩ := bind_eq_ok_iff.mp hq
        obtain rfl := Except.ok.inj hfound
        exact mismatch_ne_ok _ _ _ _ hmisfit

/-- The result of an operator conforms to the dimension that the operands leave. -/
theorem conforms_operator (op : Operator) (a b : Quantity) :
    Conforms (op.dimension? a.dimension b.dimension (some b)) (op.apply a b) := by
  cases op with
  | assign => exact conforms_ok b
  | add => exact conforms_add a b
  | subtract => exact conforms_subtract a b
  | multiply => exact conforms_multiply a b
  | impliedMultiply => exact conforms_multiply a b
  | divide => exact conforms_divide a b
  | impliedDivide => exact conforms_divide a b
  | power => exact conforms_pow a b

/-- A square root has half the dimension. -/
theorem conforms_sqrt (q : Quantity) : Conforms (some q.dimension.halve) q.sqrt := by
  refine conforms_after (failsBy_step _) fun negative => ?_
  cases negative with
  | false => exact conforms_of (failsBy_arithmetic _ _) _
  | true => exact conforms_error (by exact id) _

/-- A demand for a positive number leaves the dimension of pure numbers, if there is one. -/
theorem conforms_requirePositive (q : Quantity) {dimension : Option Dimension}
    {x : Outcome Quantity} (hx : Conforms dimension x) :
    Conforms (if q.dimension.isOne then dimension else none) (do q.requirePositive; x) := by
  rw [requirePositive, requireDimensionless, isDimensionless]
  cases q.dimension.isOne with
  | true =>
    refine conforms_after ?_ fun _ => hx
    refine (failsBy_step _).bind fun small _ => ?_
    cases small with
    | false => exact failsBy_ok ()
    | true => exact failsBy_error (.outsideDomain _)
  | false =>
    refine conforms_none fun value h => ?_
    obtain ⟨_, hdemand, -⟩ := bind_eq_ok_iff.mp h
    obtain ⟨_, hmisfit, -⟩ := bind_eq_ok_iff.mp hdemand
    exact mismatch_ne_ok _ _ _ _ hmisfit

/-- The value of a function conforms to the dimension that the argument leaves. -/
theorem conforms_apply (name : String) (q : Quantity) :
    Conforms (Function.dimension? name q.dimension) (q.apply name) := by
  rw [Function.dimension?, apply]
  cases Function.ofName? name with
  | none => exact conforms_error (by exact id) _
  | some function =>
    cases function with
    | sqrt => exact conforms_sqrt q
    | ln =>
      exact conforms_requirePositive q (conforms_of (failsBy_arithmetic _ _) .one)
    | log =>
      exact conforms_requirePositive q (conforms_of (failsBy_arithmetic _ _) .one)
    | exp =>
      exact conforms_requireDimensionless q (conforms_of (failsBy_arithmetic _ _) .one)
    | transcendental f =>
      refine conforms_requireDimensionless q ?_
      cases f.evaluate working q.value with
      | none => exact conforms_error (by exact id) _
      | some value => exact conforms_of (failsBy_step value) .one

end Quantity

end UnitCalculator
