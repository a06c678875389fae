import UnitCalculator.Decimal.Rounding

/-!
# Arithmetic in a format

Sums, products, quotients and square roots are exact results rounded once. A quiet NaN is passed
on, a signaling one ends the operation, and infinities follow the usual rules. A sum of numbers
whose exponents lie far apart needs no common exponent: the small operand decides only whether the
result lies above or below the large one.
-/

namespace UnitCalculator

namespace Format

/-- A NaN keeps no more digits of its payload than the format has. -/
def passNaN (format : Format) : Decimal → Except Signal Decimal
  | .nan s false payload => .ok (.nan s false (payload % pow10 format.digits))
  | _ => .error .invalidOperation

/-- What an operation yields when an operand is a NaN: the first quiet one, unless one of them is
signaling. -/
def nanResult? (format : Format) (a b : Decimal) : Option (Except Signal Decimal) :=
  match a, b with
  | .nan _ true _, _ => some (.error .invalidOperation)
  | _, .nan _ true _ => some (.error .invalidOperation)
  | .nan .., _ => some (format.passNaN a)
  | _, .nan .. => some (format.passNaN b)
  | _, _ => none

/-- The sum of two finite numbers, the first of which has the larger exponent. -/
def addAligned (format : Format) (s₁ : Bool) (c₁ : Nat) (e₁ : Int) (s₂ : Bool) (c₂ : Nat)
    (e₂ : Int) : Except Signal Decimal :=
  let gap := (e₁ - e₂).toNat
  if c₁ = 0 then format.round (if c₂ = 0 then s₁ && s₂ else s₂) c₂ e₂
  else if c₂ = 0 then format.round s₁ c₁ e₁
  else if digitCount c₂ + format.digits + 2 < gap then
    let shift := format.digits + 2
    let scaled := c₁ * pow10 shift
    format.roundBetween s₁ (if s₁ = s₂ then scaled else scaled - 1) (e₁ - shift) false
  else
    let scaled := c₁ * pow10 gap
    if s₁ = s₂ then format.round s₁ (scaled + c₂) e₂
    else if scaled = c₂ then format.round false 0 e₂
    else if c₂ < scaled then format.round s₁ (scaled - c₂) e₂
    else format.round s₂ (c₂ - scaled) e₂

/-- The sum of two numbers. -/
def add (format : Format) (a b : Decimal) : Except Signal Decimal :=
  match format.nanResult? a b with
  | some result => result
  | none =>
    match a, b with
    | .finite s₁ c₁ e₁, .finite s₂ c₂ e₂ =>
      if e₂ ≤ e₁ then format.addAligned s₁ c₁ e₁ s₂ c₂ e₂
      else format.addAligned s₂ c₂ e₂ s₁ c₁ e₁
    | .infinity s₁, .infinity s₂ =>
      if s₁ = s₂ then .ok (.infinity s₁) else .error .invalidOperation
    | .infinity s, _ => .ok (.infinity s)
    | _, _ => .ok (.infinity b.isNegative)

/-- A number with its sign changed, NaNs excepted. -/
def flipSign : Decimal → Decimal
  | .finite s c e => .finite (!s) c e
  | .infinity s => .infinity (!s)
  | d => d

/-- The difference of two numbers. -/
def subtract (format : Format) (a b : Decimal) : Except Signal Decimal :=
  format.add a (flipSign b)

/-- The opposite of a number, rounded; a zero becomes positive. -/
def negate (format : Format) (a : Decimal) : Except Signal Decimal :=
  match a with
  | .finite s c e => format.round (if c = 0 then false else !s) c e
  | .infinity s => .ok (.infinity (!s))
  | .nan .. => format.passNaN a

/-- A number rounded to the format. -/
def plus (format : Format) (a : Decimal) : Except Signal Decimal :=
  match a with
  | .finite s c e => format.round (if c = 0 then false else s) c e
  | .infinity s => .ok (.infinity s)
  | .nan .. => format.passNaN a

/-- The product of two numbers. -/
def multiply (format : Format) (a b : Decimal) : Except Signal Decimal :=
  match format.nanResult? a b with
  | some result => result
  | none =>
    match a, b with
    | .finite s₁ c₁ e₁, .finite s₂ c₂ e₂ => format.round (s₁ != s₂) (c₁ * c₂) (e₁ + e₂)
    | _, _ =>
      if a.isZero || b.isZero then .error .invalidOperation
      else .ok (.infinity (a.isNegative != b.isNegative))

/-- The quotient of two numbers. -/
def divide (format : Format) (a b : Decimal) : Except Signal Decimal :=
  match format.nanResult? a b with
  | some result => result
  | none =>
    match a, b with
    | .finite s₁ c₁ e₁, .finite s₂ c₂ e₂ =>
      if c₂ = 0 then .error (if c₁ = 0 then .invalidOperation else .divisionByZero)
      else if c₁ = 0 then format.round (s₁ != s₂) 0 (e₁ - e₂)
      else format.roundQuotient (s₁ != s₂) c₁ c₂ (e₁ - e₂)
    | .infinity _, .infinity _ => .error .invalidOperation
    | .infinity s₁, _ => .ok (.infinity (s₁ != b.isNegative))
    | _, _ => .ok (.finite (a.isNegative != b.isNegative) 0 format.tiny)

/-- The square root of a number. -/
def sqrt (format : Format) (a : Decimal) : Except Signal Decimal :=
  match a with
  | .nan .. => format.passNaN a
  | .infinity s => if s then .error .invalidOperation else .ok a
  | .finite s c e =>
    if c = 0 then format.round s 0 (e / 2)
    else if s then .error .invalidOperation
    else
      let least := 2 * (format.digits + 1) - digitCount c
      let shift := if (e - least) % 2 = 0 then least else least + 1
      let scaled := c * pow10 shift
      let root := scaled.sqrt
      format.roundBetween false root ((e - shift) / 2) (root * root == scaled)

/-- A number as a multiple of ten to `exponent`, ties away from zero. The multiple must have no more
digits than the format. -/
def quantize (format : Format) (a : Decimal) (exponent : Int) : Except Signal Decimal :=
  match a with
  | .nan .. => format.passNaN a
  | .infinity _ => .error .invalidOperation
  | .finite s c e =>
    if format.top < exponent ∨ exponent < format.tiny then .error .invalidOperation
    else if c = 0 then .ok (.finite s 0 exponent)
    else if format.digits < digitCount c + (e - exponent) then .error .invalidOperation
    else
      let kept :=
        if exponent ≤ e then c * pow10 (e - exponent).toNat
        else dropDigits .awayFromZero c (exponent - e).toNat
      if format.digits < digitCount kept ∨ format.top < exponent + digitCount kept - 1 then
        .error .invalidOperation
      else .ok (.finite s kept exponent)

end Format

namespace Decimal

/-- Order of two positive numbers: by the exponents of the leading digits, and where these agree
by the coefficients at a common exponent. -/
def compareMagnitude (c₁ : Nat) (e₁ : Int) (c₂ : Nat) (e₂ : Int) : Ordering :=
  match compare (e₁ + digitCount c₁) (e₂ + digitCount c₂) with
  | .eq => compare (c₁ * pow10 (e₁ - e₂).toNat) (c₂ * pow10 (e₂ - e₁).toNat)
  | order => order

/-- Order of two finite numbers. -/
def compareFinite (s₁ : Bool) (c₁ : Nat) (e₁ : Int) (s₂ : Bool) (c₂ : Nat) (e₂ : Int) :
    Ordering :=
  if c₁ = 0 then if c₂ = 0 then .eq else if s₂ then .gt else .lt
  else if c₂ = 0 then if s₁ then .lt else .gt
  else match s₁, s₂ with
    | false, false => compareMagnitude c₁ e₁ c₂ e₂
    | true, true => compareMagnitude c₂ e₂ c₁ e₁
    | true, false => .lt
    | false, true => .gt

/-- Order of two numbers; NaNs have none. -/
def compare? : Decimal → Decimal → Option Ordering
  | .nan .., _ => none
  | _, .nan .. => none
  | .finite s₁ c₁ e₁, .finite s₂ c₂ e₂ => some (compareFinite s₁ c₁ e₁ s₂ c₂ e₂)
  | .infinity s₁, .infinity s₂ => some (if s₁ = s₂ then .eq else if s₁ then .lt else .gt)
  | .infinity s, .finite .. => some (if s then .lt else .gt)
  | .finite .., .infinity s => some (if s then .gt else .lt)

/-- Equality of value. No NaN equals anything, and a signaling one cannot be asked. -/
def isEqual (a b : Decimal) : Except Signal Bool :=
  match a, b with
  | .nan _ true _, _ => .error .invalidOperation
  | _, .nan _ true _ => .error .invalidOperation
  | _, _ => .ok (compare? a b == some .eq)

/-- Strict order by value, which NaNs do not have. -/
def isLess (a b : Decimal) : Except Signal Bool :=
  match compare? a b with
  | none => .error .invalidOperation
  | some order => .ok (order == .lt)

/-- Order by value, which NaNs do not have. -/
def isAtMost (a b : Decimal) : Except Signal Bool :=
  match compare? a b with
  | none => .error .invalidOperation
  | some order => .ok (order != .gt)

/-- A finite number is integral when its last digit is not behind the point or all the digits that
are vanish. -/
def integral (coefficient : Nat) (exponent : Int) : Bool :=
  if 0 ≤ exponent then true
  else if coefficient = 0 then true
  else if digitCount coefficient < (-exponent).toNat then false
  else coefficient % pow10 (-exponent).toNat == 0

/-- Equals an integer; infinities do, quiet NaNs do not, and a signaling one cannot be asked. -/
def isIntegral : Decimal → Except Signal Bool
  | .finite _ c e => .ok (integral c e)
  | .infinity _ => .ok true
  | .nan _ signaling _ => if signaling then .error .invalidOperation else .ok false

/-- The integer part of a finite number, toward zero. -/
def truncate : Decimal → Int
  | .finite s c e =>
    let magnitude :=
      if 0 ≤ e then c * pow10 e.toNat
      else if digitCount c < (-e).toNat then 0
      else c / pow10 (-e).toNat
    if s then -(magnitude : Int) else magnitude
  | _ => 0

end Decimal

end UnitCalculator
