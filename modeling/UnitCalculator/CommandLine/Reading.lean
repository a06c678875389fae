import UnitCalculator.CommandLine.Argument

/-!
# Reading arguments

Short options may stand together, and the last of them may carry its value; they take effect only
when all of them are known to be complete. The operands of a command stand side by side. Of several
values of one option the last one counts.
-/

namespace UnitCalculator.CommandLine

/-- Options that stand together. -/
structure Cluster where
  /-- Options before the last one, none of which takes a value. -/
  before : List OptionRule
  last : OptionRule
  /-- The value that is attached to the last option. -/
  attached : Option String

namespace Cluster

/-- An option and the letters behind it: its value if it takes one, and options otherwise. -/
def ofLetters (rules : List OptionRule) (rule : OptionRule) : List Char → Except Leave Cluster
  | [] => .ok ⟨[], rule, none⟩
  | letter :: letters =>
    if rule.kind.takesValue then .ok ⟨[], rule, some (String.ofList (letter :: letters))⟩
    else match OptionRule.find? rules (String.ofList ['-', letter]) with
      | some next => do
        let cluster ← ofLetters rules next letters
        return { cluster with before := rule :: cluster.before }
      | none => .error .misuse

/-- An option with what is attached to it: its value if it takes one, and options otherwise, which
can only follow a short name. -/
def ofOption (rules : List OptionRule) (written : String) (rule : OptionRule) :
    Option String → Except Leave Cluster
  | none => .ok ⟨[], rule, none⟩
  | some attached =>
    if rule.kind.takesValue then .ok ⟨[], rule, some attached⟩
    else if attached.isEmpty ∨ (written.toList.drop 1).head? = some '-' then .error .misuse
    else ofLetters rules rule attached.toList

end Cluster

/-- How many operands a command takes. -/
inductive Arity where
  | none
  | one
  | many
  deriving DecidableEq

/-- How far the operands of a command have been read. -/
inductive Operands where
  | awaited
  /-- The last argument was one of them. -/
  | current
  | complete
  deriving DecidableEq

/-- What has been read of the arguments. -/
structure Reading where
  /-- Names and values of options, the latest first. -/
  given : List (String × Setting) := []
  operands : List String := []
  state : Operands := .awaited
  /-- Options that have no effect yet because the value of the last one comes next. -/
  expected : Option Cluster := none
  /-- An argument was read that belongs nowhere. -/
  surplus : Bool := false

namespace Reading

/-- Gives an option a value. -/
def give (reading : Reading) (rule : OptionRule) (setting : Setting) : Reading :=
  { reading with given := (rule.name, setting) :: reading.given }

/-- Reads something that belongs nowhere. -/
def exceed (reading : Reading) : Reading := { reading with surplus := true }

/-- Ends the operands if some have been read. -/
def closeOperands (reading : Reading) : Reading :=
  { reading with state := if reading.state = .current then .complete else reading.state }

/-- Reads an operand. -/
def operand (arity : Arity) (text : String) (reading : Reading) : Reading :=
  let next := { reading with operands := reading.operands ++ [text], state := .current }
  match reading.state, arity with
  | .awaited, .one | .awaited, .many | .current, .many => next
  | _, _ => reading.exceed

/-- An option without a value takes effect. -/
def take (reading : Reading) (rule : OptionRule) : Except Leave Reading :=
  if rule.kind = .leave then .error .finished else .ok (reading.give rule .flag)

/-- Options take effect one after the other, the last with a value. -/
def takeWith (reading : Reading) (cluster : Cluster) (setting : Except Leave Setting) :
    Except Leave Reading := do
  let reading ← cluster.before.foldlM take reading
  return { reading.give cluster.last (← setting) with expected := none }

/-- Reads options. -/
def options (reading : Reading) (cluster : Cluster) : Except Leave Reading :=
  match cluster.attached with
  | some value => reading.takeWith cluster (cluster.last.kind.attachedSetting value)
  | none =>
    if cluster.last.kind.takesValue then .ok { reading with expected := some cluster }
    else (cluster.before ++ [cluster.last]).foldlM take reading

/-- Reads one argument. -/
def step (rules : List OptionRule) (arity : Arity) (reading : Reading) (argument : Argument) :
    Except Leave Reading :=
  match reading.expected, argument with
  | some cluster, .operand text => reading.takeWith cluster (cluster.last.kind.setting text)
  | some _, _ => .error .misuse
  | none, .operand text => .ok (reading.operand arity text)
  | none, .divider =>
    .ok (if reading.state = .complete ∨ arity = .none then reading.exceed else reading)
  | none, .option written rule attached => do
    reading.closeOperands.options (← Cluster.ofOption rules written rule attached)
  | none, .unknownOption => .ok reading.closeOperands.exceed

/-- Nothing is missing and nothing is left over. -/
def isComplete (arity : Arity) (reading : Reading) : Bool :=
  reading.expected.isNone && !reading.surplus && (arity = .none || !reading.operands.isEmpty)

/-- Reads all arguments of a command. -/
def ofTexts (rules : List OptionRule) (arity : Arity) (texts : List String) :
    Except Leave Reading := do
  let reading ← (← Argument.ofTexts rules texts).foldlM (step rules arity) {}
  if reading.isComplete arity then return reading else throw .misuse

/-- Reads arguments up to the first operand, which is returned with the texts behind it. A divider
has no place before it. -/
def upToOperand (rules : List OptionRule) (reading : Reading) :
    List (Argument × String) → Except Leave (Reading × Option (String × List String))
  | [] => if reading.expected.isSome then .error .misuse else .ok (reading, none)
  | (argument, _) :: rest =>
    match reading.expected, argument with
    | none, .operand text => .ok (reading, some (text, rest.map (·.2)))
    | none, .divider => .error .misuse
    | _, argument => do upToOperand rules (← reading.step rules .none argument) rest

/-- The flag of a name is given. -/
def hasFlag (reading : Reading) (name : String) : Bool := (reading.given.lookup name).isSome

/-- The text that the option of a name has as its value, the last one of several. -/
def text? (reading : Reading) (name : String) : Option String :=
  match reading.given.lookup name with
  | some (.text value) => some value
  | _ => none

/-- The integer that the option of a name has as its value, the last one of several. -/
def integer? (reading : Reading) (name : String) : Option Int :=
  match reading.given.lookup name with
  | some (.integer value) => some value
  | _ => none

end Reading

end UnitCalculator.CommandLine
