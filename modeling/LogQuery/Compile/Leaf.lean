import LogQuery.Compile.Error
import LogQuery.Query.Marking
import LogQuery.Sql.Tree
import LogQuery.Predicate.Field

/-!
# Fields and literals of a query

The leaves of a condition. Both forms may stand in parentheses. A field is told
by the words of the query, not by the markers the grammar sees; a literal is its
text, whatever its type, and gets a type from its use.
-/

namespace LogQuery.Compile

open LogQuery.Query LogQuery.Sql LogQuery.Predicate LogQuery.Record

variable (q : Marked)

/-- The words of the query that a written form stands for. -/
def fragment (written : String) : Construct := .fragment (q.restore written)

/-- The path an expression names. -/
def field : Expr → Except Error Path
  | .ident i => .ok ⟨q.restore i.value⟩
  | .path parts => .ok ⟨".".intercalate (parts.map fun i => q.restore i.value)⟩
  | .nested e => field e
  | e => .error (.unsupported (.notAField (q.restore e.text)))

/-- The text of a literal. A name in quotes is one. -/
def literal : Expr → Except Error String
  | .literal (.number n _) => .ok n
  | .literal (.text s) => .ok s
  | .literal (.boolean b) => .ok (if b then "true" else "false")
  | .ident ⟨s, some _⟩ => .ok s
  | .unary .minus (.literal (.number n _)) => .ok ("-" ++ n)
  | .nested e => literal e
  | e => .error (.literal (q.restore e.text))

/-- Whether a path is the name of the date, in any case. -/
def isDate (p : Path) : Bool := lowerAscii p.text.toList == dateField.toList

/-- The operand of a comparison: an integer, or else a number, or else a text,
which has no order. -/
def typedOperand (p : Path) (c : Comparison) (literal : String) : Except Error Operand :=
  match Decimal.int64? literal.toList, Decimal.double? literal.toList with
  | some n, _ => .ok (.int n)
  | none, some x => .ok (.real (.finite x))
  | none, none =>
    if c == .eq || c == .ne then .ok (.text literal)
    else .error (.unsupported (.textOrder p.text (.compare c) literal))

/-- The operand of IN: integers if all elements are, and else texts. -/
def setOperand (literals : List String) : Operand :=
  match literals.mapM fun s => Decimal.int64? s.toList with
  | some ns => .intSet ns
  | none => .textSet literals

end LogQuery.Compile
