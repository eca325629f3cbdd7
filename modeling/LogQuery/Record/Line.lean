import LogQuery.Json.Reader
import LogQuery.Json.Printer
import LogQuery.Text.Blank
import LogQuery.Text.Utf8

/-!
# Records of a log

A record is the JSON value on one line of a log, blanks around it aside. A line
that is blank, not UTF-8 or not JSON is no record.
-/

namespace LogQuery.Record

open LogQuery.Json LogQuery.Text

/-- The record on a line. -/
def ofLine? (line : Bytes) : Option Value :=
  let body := trimBy isBlankByte line
  if body.isEmpty then none else (decode? body).bind parse?

/-- The text of a value as string conditions see it: a string without its quotes,
nothing for null, and compact JSON for the rest. -/
def render : Value → String
  | .string s => s
  | .null => ""
  | v => v.text

end LogQuery.Record
