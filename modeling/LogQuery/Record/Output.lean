import LogQuery.Plan
import LogQuery.Json.Syntax
import LogQuery.Text.Terminator

/-!
# Output of records

A matched line is output as it is, or, when the plan has projections, as an object
of the projected fields in their order. A live event wraps an output; an output
that is JSON stands in it as it is, any other as a JSON string.
-/

namespace LogQuery.Record

open LogQuery.Json LogQuery.Text

/-- The member of a projection, if the record has the field. -/
def projectionChars (record : Value) (p : Projection) : Option (List Char) :=
  (p.path.value? record).map fun v => memberChars p.label v.chars

/-- The output of a matched line. -/
def outputChars (plan : Plan) (line : Bytes) (record : Value) : List Char :=
  if plan.projections.isEmpty then stripTerminator (decodeLossy line)
  else '{' :: commaChars (plan.projections.filterMap (projectionChars record)) ++ ['}']

/-- The live event of an output. -/
def eventChars (output : List Char) : List Char :=
  let body := stripTerminator output
  "\x7b\"type\":\"log\",\"data\":".toList ++ (if isText body then body else quoteChars body) ++ ['}']

def output (plan : Plan) (line : Bytes) (record : Value) : String :=
  String.ofList (outputChars plan line record)

def event (output : String) : String := String.ofList (eventChars output.toList)

end LogQuery.Record
