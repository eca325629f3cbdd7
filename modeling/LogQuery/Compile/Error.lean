import LogQuery.Predicate.Date

/-!
# Why a query does not compile

Each cause carries the words of the query it is about; `message` is its wording.
-/

namespace LogQuery.Compile

open LogQuery.Predicate

/-- A construct of the grammar that queries may not use. -/
inductive Construct
  | statements (count : Nat)
  | orderOrLimit
  | having
  | groupBy
  | join
  | fragment (text : String)
  | notAField (text : String)
  | function (name : String)
  | dateSet (field : String)
  | dateOperator (op : Operator) (raw : String)
  | textOrder (field : String) (op : Operator) (literal : String)
deriving DecidableEq, Repr

inductive Error
  | emptyQuery
  | grammar
  | unsupported (construct : Construct)
  | literal (fragment : String)
  | date (raw : String)
  | missingFrom
  | notASelect (statement : String)
deriving DecidableEq, Repr

def Construct.text : Construct → String
  | statements n => "expected exactly one statement, got " ++ toString n
  | orderOrLimit => "ORDER BY / LIMIT / OFFSET"
  | having => "HAVING"
  | groupBy => "GROUP BY"
  | join => "JOIN"
  | fragment text => text
  | notAField text => "expected a field, got " ++ text
  | function name => "function " ++ name
  | dateSet field => field ++ " IN (...)"
  | dateOperator op raw => dateField ++ " " ++ op.text ++ " '" ++ raw ++ "'"
  | textOrder field op literal =>
    field ++ " " ++ op.text ++ " '" ++ literal ++ "': ordering needs a numeric literal"

/-- The wording of an error. The place of an error of the grammar is not told. -/
def Error.message : Error → String
  | emptyQuery => "syntax error: empty query"
  | grammar => "syntax error: <parser>"
  | unsupported c => "unsupported construct: " ++ c.text
  | literal fragment => "invalid literal: " ++ fragment
  | date raw => "invalid date literal: '" ++ raw ++ "'"
  | missingFrom => "missing FROM clause"
  | notASelect statement => "only SELECT statements are supported, got: " ++ statement

def Error.ofDate : DateError → Error
  | .operator op raw => .unsupported (.dateOperator op raw)
  | .literal raw => .date raw

end LogQuery.Compile
