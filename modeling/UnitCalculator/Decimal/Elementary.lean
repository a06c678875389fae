import UnitCalculator.Decimal.Arithmetic
import UnitCalculator.Approximation.Exponential

/-!
# Exponential, logarithms and powers

Each result is the real number rounded once. The real number is enclosed until the digits of the
format and two more are certain; exponentials are split into a power of ten and a number between
one and ten. Powers with a small integral exponent are products.
-/

namespace UnitCalculator

namespace Format

open Approximation

/-- Digits settled beyond those of the format. -/
def spareDigits : Nat := 3

/-- Attempts at telling a real number from a point of the digit grid. -/
def attempts : Nat := 2

/-- Bits of the first attempt at settling a number of digits. -/
def startBits (places : Nat) : Nat := (pow10 places).log2 + 2 * guardBits

/-- A result far above the largest number or far below the smallest one. -/
def outOfRange (format : Format) (negative up : Bool) : Except Signal Decimal :=
  if up then .error .overflow else format.round negative 1 (2 * format.tiny)

/-- A result that differs from one by less than the format can tell. -/
def besideOne (format : Format) (negative above : Bool) : Except Signal Decimal :=
  let shift := format.digits + 2
  format.roundBetween negative (if above then pow10 shift else pow10 shift - 1) (-shift) false

/-- Exponential of a real number of less than a hundred million, given at any precision. -/
def exponentialOf (format : Format) (negative : Bool) (x : Nat → Int) :
    Except Signal Decimal :=
  let places := format.digits + spareDigits
  let bits := startBits places
  let power := x bits / logTen bits
  let rest := fun work => .around (exponentialSmall work (x work - power * logTen work)) work
  let settled := settle rest (pow10 places) attempts bits
  format.roundBetween negative settled.floor (power - places) settled.exact

/-- Exponential of a number. -/
def exp (format : Format) (a : Decimal) : Except Signal Decimal :=
  match a with
  | .nan .. => format.passNaN a
  | .infinity s => .ok (if s then .finite false 0 0 else a)
  | .finite s c e =>
    if c = 0 then .ok (.finite false 1 0)
    else if 8 ≤ a.adjusted then format.outOfRange false (!s)
    else if a.adjusted ≤ -(format.digits + 4 : Int) then format.besideOne false (!s)
    else
      format.exponentialOf false fun bits =>
        let magnitude := scaleQuotient (c * pow10 e.toNat) (pow10 (-e).toNat) bits
        if s then -magnitude else magnitude

/-- Natural logarithm of a positive coefficient times a power of ten, at any precision: the
logarithm of a number from one to ten and a multiple of that of ten. -/
def logApproximation (c : Nat) (e : Int) (bits : Nat) : Int :=
  let digits := digitCount c
  let power := e + digits - 1
  let work := bits + power.natAbs.log2 + 1
  scaleBinary (logQuotient work c (pow10 (digits - 1)) + power * logTen work) ((bits : Int) - work)

/-- A power of ten that the logarithm of a positive number other than one exceeds; it falls short of
the next but two. -/
def logMagnitude (c : Nat) (e : Int) : Int :=
  let digits := digitCount c
  let power := e + digits - 1
  if power = 0 then (digitCount (c - pow10 (digits - 1)) : Int) - digits - 1
  else if power = -1 then (digitCount (pow10 digits - c) : Int) - digits - 1
  else (digitCount power.natAbs : Int) - 1

/-- Settles a logarithm of a positive number from its approximations and rounds it. -/
def logarithmOf (format : Format) (c : Nat) (e : Int) (approximation : Nat → Int) :
    Except Signal Decimal :=
  let negative := e + digitCount c - 1 < 0
  let places := (format.digits + spareDigits - logMagnitude c e).toNat
  let enclosure := fun bits =>
    Enclosure.around (if negative then -approximation bits else approximation bits) bits
  let settled := settle enclosure (pow10 places) attempts (startBits places)
  format.roundBetween negative settled.floor (-places) settled.exact

/-- Natural logarithm of a number. -/
def ln (format : Format) (a : Decimal) : Except Signal Decimal :=
  match a.reduced with
  | .nan .. => format.passNaN a
  | .infinity s => if s then .error .invalidOperation else .ok a
  | .finite s c e =>
    if c = 0 then .ok (.infinity true)
    else if s then .error .invalidOperation
    else if c = 1 ∧ e = 0 then .ok (.finite false 0 0)
    else format.logarithmOf c e (logApproximation c e)

/-- Logarithm to base ten of a number; that of a power of ten is exact. -/
def log10 (format : Format) (a : Decimal) : Except Signal Decimal :=
  match a.reduced with
  | .nan .. => format.passNaN a
  | .infinity s => if s then .error .invalidOperation else .ok a
  | .finite s c e =>
    if c = 0 then .ok (.infinity true)
    else if s then .error .invalidOperation
    else if c = 1 then format.round (e < 0) e.natAbs 0
    else
      format.logarithmOf c e fun bits =>
        let work := bits + e.natAbs.log2 + 1
        logApproximation c e work * pow2 bits / logTen work

/-- Largest number of digits up to which a power is computed as a product. -/
def productDigits : Nat := 5000

/-- A natural number to a natural power. -/
def naturalPower (base exponent : Nat) : Nat := Nat.pow base exponent

/-- An integral power of a positive number whose coefficient has no trailing zero, as a product. -/
def productPower (format : Format) (negative : Bool) (c : Nat) (e : Int) (n : Int) :
    Except Signal Decimal :=
  let power := if c = 1 then 1 else naturalPower c n.natAbs
  if 0 ≤ n then format.round negative power (e * n)
  else format.roundQuotient negative 1 power (e * n)

/-- A power of a positive number other than one, as the exponential of a multiple of its
logarithm. -/
def exponentialPower (format : Format) (negative : Bool) (c : Nat) (e : Int)
    (s : Bool) (m : Nat) (f : Int) : Except Signal Decimal :=
  let magnitude := logMagnitude c e + f + digitCount m - 1
  let grows := s == decide (e + digitCount c - 1 < 0)
  if 8 ≤ magnitude then format.outOfRange negative grows
  else if magnitude ≤ -(format.digits + 8 : Int) then format.besideOne negative grows
  else
    let n := m * pow10 f.toNat
    let d := pow10 (-f).toNat
    format.exponentialOf negative fun bits =>
      let work := bits + n.log2 + guardBits - d.log2
      let product := logApproximation c e work * n * pow2 bits / (d * pow2 work : Nat)
      if s then -product else product

/-- The sign of a power: negative for a negative base and an odd exponent. -/
def powerSign (a b : Decimal) : Bool :=
  a.isNegative &&
    match b.reduced with
    | .finite _ c e => e == 0 && c % 2 == 1
    | _ => false

/-- A finite number other than zero to a finite power. -/
def finitePower (format : Format) (negative : Bool) (a b : Decimal) : Except Signal Decimal :=
  match a.reduced, b.reduced with
  | .finite _ c e, .finite s m f =>
    if m = 0 ∨ (c = 1 ∧ e = 0) then format.round negative 1 0
    else if Decimal.integral m f ∧ (c = 1 ∧ digitCount m + f ≤ 100 ∨ digitCount m + f ≤ 4 ∧
        digitCount c * b.truncate.natAbs ≤ productDigits) then
      format.productPower negative c e b.truncate
    else format.exponentialPower negative c e s m f
  | _, _ => .error .invalidOperation

/-- A power with an infinite base or exponent: what it tends to. -/
def limitPower (format : Format) (a b : Decimal) : Except Signal Decimal :=
  match a, b with
  | _, .infinity s =>
    match Decimal.compare? (.finite false 1 0) (if a.isNegative then flipSign a else a) with
    | some .eq => .ok (.finite false 1 0)
    | some .lt => .ok (if s then .finite false 0 0 else .infinity false)
    | _ => .ok (if s then .infinity false else .finite false 0 0)
  | _, _ =>
    if b.isZero then .ok (.finite false 1 0)
    else if b.isNegative then format.round (powerSign a b) 0 0
    else .ok (.infinity (powerSign a b))

/-- A number to a power. Zero to the power zero, and a negative base with an exponent that is not an
integer, have no result. -/
def power (format : Format) (a b : Decimal) : Except Signal Decimal :=
  match format.nanResult? a b with
  | some result => result
  | none =>
    let negative := powerSign a b
    if a.isZero then
      if b.isZero then .error .invalidOperation
      else if b.isNegative then .ok (.infinity negative)
      else .ok (.finite negative 0 0)
    else
      match b with
      | .finite _ m f =>
        if a.isNegative && !Decimal.integral m f then .error .invalidOperation
        else if a.isFinite then format.finitePower negative a b
        else format.limitPower a b
      | _ => if a.isNegative then .error .invalidOperation else format.limitPower a b

end Format

end UnitCalculator
