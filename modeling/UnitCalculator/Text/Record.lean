/-!
# Comma-separated records

Fields are separated by commas and records by line ends. A field that starts with a quote reaches to
the next quote that is not doubled, commas and line ends included; text behind that quote is kept as
it is.
-/

namespace UnitCalculator.Text

namespace Record

/-- Where in a record the next character stands. -/
inductive Place where
  | start
  | fieldStart
  | plain
  | quoted
  | behindQuote
  deriving DecidableEq

/-- What has been read: the current field and record and the finished records, each with the latest
part first. -/
structure Progress where
  place : Place
  field : List Char
  fields : List String
  records : List (List String)

namespace Progress

/-- Nothing has been read. -/
def initial : Progress := ⟨.start, [], [], []⟩

/-- Adds a character to the field. -/
def keep (state : Progress) (place : Place) (c : Char) : Progress :=
  { state with place, field := c :: state.field }

/-- Ends the field. -/
def endField (state : Progress) (place : Place) : Progress :=
  { state with place, field := [], fields := String.ofList state.field.reverse :: state.fields }

/-- Ends the record; one without any character has no fields. -/
def endRecord (state : Progress) : Progress :=
  let ended := if state.place = .start then state else state.endField .start
  ⟨.start, [], [], ended.fields.reverse :: ended.records⟩

/-- Ends a field or a record at a character outside quotes, or adds the character. -/
def plain (state : Progress) (c : Char) : Progress :=
  if c = ',' then state.endField .fieldStart
  else if c = '\n' || c = '\r' then state.endRecord
  else state.keep .plain c

/-- Reads one more character. -/
def step (state : Progress) (c : Char) : Progress :=
  match state.place with
  | .start | .fieldStart => if c = '"' then { state with place := .quoted } else state.plain c
  | .plain => state.plain c
  | .quoted => if c = '"' then { state with place := .behindQuote } else state.keep .quoted c
  | .behindQuote => if c = '"' then state.keep .quoted c else state.plain c

end Progress

/-- The records of a text; empty lines are records without fields. -/
def ofText (text : List Char) : List (List String) :=
  let final := text.foldl Progress.step Progress.initial
  (if final.place = .start then final.records else final.endRecord.records).reverse

end Record

end UnitCalculator.Text
