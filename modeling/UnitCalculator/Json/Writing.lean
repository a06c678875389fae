import UnitCalculator.Failure
import UnitCalculator.Json.Value

/-!
# Writing JSON

A value is written on one line or with every element on a line of its own, indented by two blanks.
Quotes, backslashes, control characters and halves of surrogate pairs are escaped, and nothing else
is.
-/

namespace UnitCalculator

namespace Json

/-- Characters with an escape of their own, and the letter of the escape. -/
def shortEscapes : List (Char × Char) :=
  [('"', '"'), ('\\', '\\'), ('\x08', 'b'), ('\x0c', 'f'), ('\n', 'n'), ('\r', 'r'), ('\t', 't')]

/-- The escape of a code unit by its four hexadecimal digits. -/
def escapeUnit (unit : Nat) : List Char :=
  '\\' :: 'u' :: [4096, 256, 16, 1].map fun place => Nat.digitChar (unit / place % 16)

/-- A character of a string. -/
def escape (c : Char) : List Char :=
  match shortEscapes.lookup c, surrogateOf? c with
  | some letter, _ => ['\\', letter]
  | none, some unit => escapeUnit unit
  | none, none => if c.toNat < 32 then escapeUnit c.toNat else [c]

/-- A string in quotes. -/
def quoted (s : String) : String := String.ofList ('"' :: s.toList.flatMap escape ++ ['"'])

/-- A value that is neither an array nor an object. -/
def scalarText : Json → String
  | .null => "null"
  | .boolean true => "true"
  | .boolean false => "false"
  | .integer n => intText n
  | .real value => value.text
  | .string s => quoted s
  | .array _ => "[]"
  | .object _ => "\x7b\x7d"

/-- Parts between brackets, on one line. -/
def enclosed (opening closing : String) (parts : List String) : String :=
  opening ++ ",".intercalate parts ++ closing

/-- The start of a line that is indented `depth` times. -/
def newLine (depth : Nat) : String := "\n" ++ String.ofList (List.replicate (2 * depth) ' ')

/-- Parts between brackets, each on a line of its own inside a value that is indented `depth`
times. -/
def spread (depth : Nat) (opening closing : String) (parts : List String) : String :=
  if parts.isEmpty then opening ++ closing
  else
    opening ++ newLine (depth + 1) ++ ("," ++ newLine (depth + 1)).intercalate parts ++
      newLine depth ++ closing

mutual

/-- A value on one line. -/
def line : Json → String
  | .array elements => enclosed "[" "]" (elementLines elements)
  | .object members => enclosed "\x7b" "\x7d" (memberLines members)
  | value => scalarText value

/-- Values, each on one line. -/
def elementLines : List Json → List String
  | [] => []
  | element :: elements => element.line :: elementLines elements

/-- Members with their names, each on one line. -/
def memberLines : List (String × Json) → List String
  | [] => []
  | (name, value) :: members => (quoted name ++ ":" ++ value.line) :: memberLines members

end

mutual

/-- A value on many lines, itself indented `depth` times. -/
def pretty (depth : Nat) : Json → String
  | .array elements => spread depth "[" "]" (prettyElements (depth + 1) elements)
  | .object members => spread depth "\x7b" "\x7d" (prettyMembers (depth + 1) members)
  | value => scalarText value

/-- Values on many lines each. -/
def prettyElements (depth : Nat) : List Json → List String
  | [] => []
  | element :: elements => element.pretty depth :: prettyElements depth elements

/-- Members with their names. -/
def prettyMembers (depth : Nat) : List (String × Json) → List String
  | [] => []
  | (name, value) :: members =>
    (quoted name ++ ": " ++ value.pretty depth) :: prettyMembers depth members

end

end Json

end UnitCalculator
