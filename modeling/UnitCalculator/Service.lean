import UnitCalculator.Settings
import UnitCalculator.Worksheet.Summary

/-!
# Requests and answers

Programs ask for the state of the service, for the units, prefixes and constants it knows, and for
the evaluation of equations. A request that is not well formed is answered with all its faults, in
the order of the fields.
-/

namespace UnitCalculator.Service

/-- Version of the calculator. -/
def version : String := "0.1.0"

/-- State and version. -/
def health : Json := .object [("status", .string "healthy"), ("version", .string version)]

/-- A unit with its size in SI units. -/
def unitEntry (symbol : String) : Outcome Json := do
  let unit ← Units.resolve symbol
  let value ← unit.text Quantity.defaultFigures
  let dimension ← unit.dimension.text?
  return .object [("symbol", .string symbol), ("value", .string value),
    ("dimension", .string dimension)]

/-- All units without prefix. -/
def units : Outcome Json := do return .array (← Units.symbols.mapM unitEntry)

/-- All prefixes with their powers of ten. -/
def prefixes : Json :=
  .object [("prefixes",
    .object (Units.prefixes.map fun (symbol, power) => (symbol, .integer power)))]

/-- A constant as it is defined. -/
def constantEntry (constant : Reference.Constant) : Outcome Json := do
  let dimension ← constant.dimension.text?
  return .object [("symbol", .string constant.symbol), ("name", .string constant.name),
    ("value", .string constant.value.text), ("dimension", .string dimension)]

/-- All constants. -/
def constants : Outcome Json := do
  return .array (← Reference.physicalConstants.mapM constantEntry)

/-- A request to evaluate equations together. -/
structure Request where
  equations : List String
  figures : Int

/-- Where a fault of a request is: names of fields and positions in lists. -/
abbrev Location := List Json

/-- A fault of a request with its location. -/
abbrev RequestFault := Location × Json.FieldFault

/-- The texts of a list, or the faults of those of its elements that are none. -/
def textsOf (location : Location) (elements : List Json) :
    Except (List RequestFault) (List String) :=
  let faults := elements.zipIdx.filterMap fun (element, index) =>
    match element.toText with
    | .ok _ => none
    | .error fault => some (location ++ [.integer index], fault)
  if faults.isEmpty then
    .ok (elements.filterMap fun element => element.toText.toOption)
  else .error faults

/-- The equations of a request, each of which is a single line. -/
def equationsOf (members : List (String × Json)) : Except (List RequestFault) (List String) := do
  let location : Location := [.string "equations"]
  match Json.required members "equations" Json.toList with
  | .error fault => throw [(location, fault)]
  | .ok elements =>
    let equations ← textsOf location elements
    if equations.any fun equation => equation.toList.contains '\n' then
      throw [(location, .unfit)]
    return equations

/-- The significant figures of a request. -/
def figuresOf (members : List (String × Json)) : Except (List RequestFault) Int :=
  let (least, greatest) := Settings.figureBounds
  let figures :=
    Json.optional members "sig_figs" Quantity.defaultFigures (Json.toIntegerWithin least greatest)
  figures.mapError fun fault => [([.string "sig_figs"], fault)]

/-- The request that the members of an object describe, or all its faults. -/
def Request.ofMembers (members : List (String × Json)) : Except (List RequestFault) Request :=
  match equationsOf members, figuresOf members with
  | .ok equations, .ok figures => .ok ⟨equations, figures⟩
  | .error faults, .ok _ => .error faults
  | .ok _, .error faults => .error faults
  | .error faults, .error others => .error (faults ++ others)

/-- Answers to a request to evaluate equations. -/
inductive Answer where
  | summary (summary : Summary)
  | unfit (faults : List RequestFault)
  | failed (status : Nat)

/-- Status of an answer that a failure prevents: the request is at fault, or the service. -/
def statusOf : Failure → Nat
  | .signal _ => 500
  | .infiniteExponent => 500
  | .zeroDivisor => 500
  | .indexOutOfRange => 500
  | _ => 400

/-- Evaluates the equations of a request. -/
def evaluate (members : List (String × Json)) : Answer :=
  match Request.ofMembers members with
  | .error faults => .unfit faults
  | .ok request =>
    match Summary.ofWorksheet { lines := request.equations, figures := request.figures } with
    | .ok summary => .summary summary
    | .error failure => .failed (statusOf failure)

end UnitCalculator.Service
