import LogQuery.Json.Reader
import LogQuery.Json.Printer
import LogQuery.Text.Utf8

/-!
# Wrapping a tailed line

A line read from a foreign file becomes a record with the name of the host, the
line and the time it was read. A line that is a JSON object stands in the record as
an object, any other as a string.
-/

namespace LogQuery.Tail

open LogQuery.Json LogQuery.Text

/-- What a line is in its record. -/
def content (line : Bytes) : Value :=
  let text := decodeLossy line
  match parse? text with
  | some (.object members) => .object members
  | _ => .string (String.ofList text)

/-- The record of a line. -/
def record (hostname time : String) (line : Bytes) : Value :=
  .ofMembers [("time", .string time), ("hostname", .string hostname), ("line", content line)]

/-- The text of the record of a line. -/
def wrapLine (hostname time : String) (line : Bytes) : String := (record hostname time line).text

end LogQuery.Tail
