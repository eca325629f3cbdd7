import LogQuery.Sql.TypeName

/-!
# Rules for expressions

Binary operators bind by precedence. Each rule takes the rules of the next level
of nesting, so the number of levels bounds how deeply a text nests.
-/

namespace LogQuery.Sql

open Rule

namespace Precedence

def typed : Nat := 50
def zone : Nat := 41
def product : Nat := 40
def sum : Nat := 30
def xor : Nat := 24
def bitAnd : Nat := 23
def power : Nat := 22
def bitOr : Nat := 21
def comparison : Nat := 20
def like : Nat := 19
def is : Nat := 17
def access : Nat := 16
def negation : Nat := 15
def conjunction : Nat := 10
def disjunction : Nat := 5

/-- Signs of operators. -/
def ofSign (s : String) : Nat :=
  if ["=", "<", "<=", "<>", ">", ">=", "==", "~", "~*", "!~", "!~*", "~~", "~~*", "!~~", "!~~*",
      "<=>"].contains s then comparison
  else if ["*", "/", "//", "%", "||"].contains s then product
  else if ["+", "-"].contains s then sum
  else if ["::", "[", "!", "&&", "^@"].contains s then typed
  else if ["^", "#", "<<", ">>"].contains s then power
  else if ["->", "->>", "#>", "#>>", "@>", "<@", "#-", "@?", "@@"].contains s then access
  else if s == "|" then bitOr
  else if s == "&" then bitAnd
  else 0

/-- Keywords that NOT may come before, between two operands. -/
def ofNegated (k : String) : Nat :=
  if k == "IN" || k == "BETWEEN" then comparison
  else if ["LIKE", "ILIKE", "RLIKE", "REGEXP", "SIMILAR"].contains k then like
  else 0

/-- How tight the operator at the front of some tokens binds; zero for no operator. -/
def ofTokens : List Token → Nat
  | .keyword "AT" _ :: .keyword "TIME" _ :: .keyword "ZONE" _ :: _ => zone
  | .keyword "NOT" _ :: .keyword k _ :: _ => ofNegated k
  | .keyword "OR" _ :: _ => disjunction
  | .keyword "AND" _ :: _ => conjunction
  | .keyword "XOR" _ :: _ => xor
  | .keyword "IS" _ :: _ => is
  | .keyword "OPERATOR" _ :: _ => comparison
  | .keyword "DIV" _ :: _ => product
  | .keyword k _ :: _ => ofNegated k
  | .sign s :: _ => ofSign s
  | _ => 0

end Precedence

namespace Expression

variable (d : Deeper)

/-! ## Parts of expressions -/

/-- A part of a date: a keyword in capitals, or a name. -/
def datePart : Rule String := do
  match ← next with
  | .keyword "WEEK" _ =>
    if ← atSign "(" then return "WEEK(" ++ (← inParens name).text ++ ")" else return "WEEK"
  | .keyword k s => return if datePartNames.contains k then k else s
  | t =>
    match name? t with
    | some i => return i.text
    | none => fail
where
  /-- The parts of a date that are keywords. -/
  datePartNames : List String :=
    ["YEAR", "MONTH", "DAY", "DAYOFWEEK", "DAYOFYEAR", "DATE", "DATETIME", "HOUR", "MINUTE",
      "SECOND", "CENTURY", "DECADE", "DOY", "DOW", "EPOCH", "ISODOW", "ISOYEAR", "ISOWEEK",
      "JULIAN", "MICROSECOND", "MICROSECONDS", "MILLENIUM", "MILLENNIUM", "MILLISECOND",
      "MILLISECONDS", "NANOSECOND", "NANOSECONDS", "QUARTER", "TIME", "TIMEZONE", "TIMEZONE_ABBR",
      "TIMEZONE_HOUR", "TIMEZONE_MINUTE", "TIMEZONE_REGION"]

/-- The units of an interval. -/
def units : List String :=
  ["YEAR", "MONTH", "WEEK", "DAY", "HOUR", "MINUTE", "SECOND", "CENTURY", "DECADE", "DOW", "DOY",
    "EPOCH", "ISODOW", "ISOYEAR", "JULIAN", "MICROSECOND", "MICROSECONDS", "MILLENIUM",
    "MILLENNIUM", "MILLISECOND", "MILLISECONDS", "NANOSECOND", "NANOSECONDS", "QUARTER",
    "TIMEZONE", "TIMEZONE_HOUR", "TIMEZONE_MINUTE"]

def orderKey : Rule String := do
  let e ← d.text
  let direction ← oneOf? ["ASC", "DESC"]
  let nulls ←
    if ← words ["NULLS", "FIRST"] then pure " NULLS FIRST"
    else if ← words ["NULLS", "LAST"] then pure " NULLS LAST"
    else pure ""
  let fill ←
    if ← words ["WITH", "FILL"] then do
      let start ← optional (← word "FROM") d.text
      let stop ← optional (← word "TO") d.text
      let step ← optional (← word "STEP") d.text
      pure (" WITH FILL" ++ start.elim "" (" FROM " ++ ·) ++ stop.elim "" (" TO " ++ ·) ++
        step.elim "" (" STEP " ++ ·))
    else pure ""
  return e ++ direction.elim "" (" " ++ ·) ++ nulls ++ fill

def orderKeys : Rule String := do return commaed (← separated (orderKey d))

/-- The rule with its result in the written form of another expression. -/
def asOther (rule : Rule String) : Rule Expr := do return .other (← rule)

/-- An expression, which a collation may follow. -/
def collated (e : Expr) : Rule Expr := do
  if ← word "COLLATE" then return .other (e.text ++ " COLLATE " ++ (← dottedName)) else return e

/-- A value after INTERVAL, with its units. -/
def interval (operand : Rule Expr) : Rule Expr := do
  let e ← operand
  let unit ←
    match ← peek? with
    | some (.keyword k _) => optional (units.contains k) datePart
    | _ => pure none
  let written := "INTERVAL " ++ e.text ++ unit.elim "" (" " ++ ·)
  let blankSize : Rule String := do
    let s ← TypeName.size?
    return if s.isEmpty then "" else " " ++ s
  if unit == some "SECOND" then
    if ← sign "(" then
      let a ← nat
      let b ← optional (← sign ",") nat
      expectSign ")"
      return .other (written ++ " (" ++ toString a ++ b.elim "" (fun n => ", " ++ toString n) ++ ")")
    else return .other written
  else
    let precision ← blankSize
    if ← word "TO" then
      let last ← datePart
      let fraction ← if last == "SECOND" then blankSize else pure ""
      return .other (written ++ precision ++ " TO " ++ last ++ fraction)
    else return .other (written ++ precision)

/-! ## Calls -/

/-- A column or an argument: an expression or a star. -/
def orStar : Rule Expr := do
  match ← get with
  | .sign "*" :: ts => set ts; return .star
  | t :: ts =>
    match name? t, ts with
    | some first, .sign "." :: _ =>
      match ← starAfter first ts with
      | some parts => return .qualifiedStar parts
      | none => d.anyExpr
    | _, _ => d.anyExpr
  | [] => d.anyExpr
where
  /-- The names of a path that ends in a star, which is read then. -/
  starAfter (first : Ident) (ts : List Token) : Rule (Option (List Ident)) := do
    match pathBeforeStar ts.length ts with
    | .error e => throw e
    | .ok (some (parts, rest)) => set rest; return some (first :: parts)
    | .ok none => return none
  pathBeforeStar : Nat → List Token → Except Failure (Option (List Ident × List Token))
    | _ + 1, .sign "." :: .sign "*" :: rest => .ok (some ([], rest))
    | n + 1, .sign "." :: t :: rest =>
      match name? t with
      | none => .error .mismatch
      | some i => do return (← pathBeforeStar n rest).map fun (parts, rest) => (i :: parts, rest)
    | _ + 1, [.sign "."] => .error .mismatch
    | _, _ => .ok none

/-- An argument, which may have a name. After `:=` it is no star. -/
def argument : Rule Expr := do
  let named (sign : String) (value : Rule Expr) : Rule Expr := do
    let i ← name
    expectSign sign
    return .named i sign (← value)
  match ← get with
  | _ :: .sign "=>" :: _ => named "=>" (orStar d)
  | _ :: .sign ":=" :: _ => named ":=" d.anyExpr
  | _ => orStar d

def nullTreatment? : Rule (Option String) := do
  match ← oneOf? ["RESPECT", "IGNORE"] with
  | some k => expectWord "NULLS"; return some (k ++ " NULLS")
  | none => return none

def overflow? : Rule (Option String) := do
  if ← words ["ON", "OVERFLOW"] then
    if ← word "ERROR" then return some "ON OVERFLOW ERROR"
    expectWord "TRUNCATE"
    let filler ←
      match ← peek? with
      | some (.text kind _) =>
        if [.plain, .escaped, .unicode, .national, .hex].contains kind then do
          pure (" " ++ (← d.text))
        else fail
      | _ => pure ""
    let k ← oneOf ["WITH", "WITHOUT"]
    expectWord "COUNT"
    return some ("ON OVERFLOW TRUNCATE" ++ filler ++ " " ++ k ++ " COUNT")
  else return none

structure Arguments where
  quantifier : Option Quantifier
  items : List Expr
  clauses : List String
  treatsNulls : Bool

/-- The arguments of a call after its opening parenthesis. -/
def arguments : Rule Arguments := do
  if ← sign ")" then return ⟨none, [], [], false⟩
  let all ← word "ALL"
  let distinct ← word "DISTINCT"
  if all && distinct then fail
  let items ← separated (argument d)
  let nulls ← nullTreatment?
  let order ← optional (← words ["ORDER", "BY"]) (orderKeys d)
  let limit ← optional (← word "LIMIT") d.text
  let having ← optional (← word "HAVING") (do
    let k ← oneOf ["MIN", "MAX"]
    return k ++ " " ++ (← d.text))
  let separator ← optional (← word "SEPARATOR") value
  let overflow ← overflow? d
  expectSign ")"
  let clauses := [nulls, order.map ("ORDER BY " ++ ·), limit.map ("LIMIT " ++ ·),
    having.map ("HAVING " ++ ·), separator.map fun l => "SEPARATOR " ++ l.written, overflow]
  return ⟨if all then some .all else if distinct then some .distinct else none, items,
    clauses.reduceOption, nulls.isSome⟩

def Arguments.form (a : Arguments) : CallForm := .list a.quantifier (" ".intercalate a.clauses)

/-- A limit of a window. A text counts as an interval there. -/
def frameBound : Rule String := do
  if ← words ["CURRENT", "ROW"] then return "CURRENT ROW"
  let amount ←
    if ← word "UNBOUNDED" then pure "UNBOUNDED"
    else
      match ← peek? with
      | some (.text .plain s) => do
        let e ← interval (do
          let _ ← next
          collated (.literal (.text s)))
        pure e.text
      | _ => d.text
  return amount ++ " " ++ (← oneOf ["PRECEDING", "FOLLOWING"])

def frame : Rule String := do
  let unit ← oneOf ["ROWS", "RANGE", "GROUPS"]
  if ← word "BETWEEN" then
    let low ← frameBound d
    expectWord "AND"
    return unit ++ " BETWEEN " ++ low ++ " AND " ++ (← frameBound d)
  else return unit ++ " " ++ (← frameBound d)

/-- A window after its opening parenthesis. -/
def windowSpec : Rule String := do
  let base ←
    match ← get with
    | .word s quote :: ts => do set ts; pure (some (Ident.text ⟨s, quote⟩))
    | _ => pure none
  let parts ← optional (← words ["PARTITION", "BY"]) d.textList
  let order ← optional (← words ["ORDER", "BY"]) (orderKeys d)
  let window ← optional (!(← atSign ")")) (frame d)
  expectSign ")"
  return " ".intercalate
    [base, parts.map ("PARTITION BY " ++ ·), order.map ("ORDER BY " ++ ·), window].reduceOption

/-- A call of a name. -/
def call (function : List Ident) : Rule Expr := do
  expectSign "("
  let first ← arguments d
  let (parameters, args) ←
    if ← sign "(" then do
      let args ← arguments d
      pure (first.form.written (first.items.map Expr.text), args)
    else pure ("", first)
  let group ← optional (← words ["WITHIN", "GROUP"]) (inParens (do
    expectWords ["ORDER", "BY"]
    orderKeys d))
  let nulls ← if args.treatsNulls then pure none else nullTreatment?
  let frame ← optional (← word "OVER") (do
    if ← sign "(" then return "(" ++ (← windowSpec d) ++ ")" else return (← name).text)
  let after := group.elim "" (fun s => " WITHIN GROUP (ORDER BY " ++ s ++ ")") ++
    nulls.elim "" (" " ++ ·) ++ frame.elim "" (" OVER " ++ ·)
  return .call function parameters args.form args.items after

/-! ## Expressions that start with a keyword -/

def caseOf : Rule Expr := do
  let operand ← optional (!(← atWord "WHEN")) d.text
  expectWord "WHEN"
  let arm : Rule String := do
    let condition ← d.text
    expectWord "THEN"
    return " WHEN " ++ condition ++ " THEN " ++ (← d.text)
  let first ← arm
  let others ← repeated (do optional (← word "WHEN") arm)
  let otherwise ← optional (← word "ELSE") d.text
  expectWord "END"
  return .other ("CASE" ++ operand.elim "" (" " ++ ·) ++ first ++ String.join others ++
    otherwise.elim "" (" ELSE " ++ ·) ++ " END")

def cast (k : String) : Rule Expr := do
  expectSign "("
  let e ← d.text
  expectWord "AS"
  let t ← TypeName.rule d
  let format ← optional (← word "FORMAT") (do
    let l ← value
    if ← words ["AT", "TIME", "ZONE"] then
      return l.written ++ " AT TIME ZONE " ++ (← value).written
    else return l.written)
  expectSign ")"
  return .other (k ++ "(" ++ e ++ " AS " ++ t.written ++ format.elim "" (" FORMAT " ++ ·) ++ ")")

def convert (k : String) : Rule Expr := asOther do
  expectSign "("
  let e ← d.text
  let rest ←
    if ← word "USING" then do pure (" USING " ++ (← dottedName))
    else do
      expectSign ","
      let t ← TypeName.rule d
      let charset ← optional (← words ["CHARACTER", "SET"]) dottedName
      pure (", " ++ t.written ++ charset.elim "" (" CHARACTER SET " ++ ·))
  expectSign ")"
  return k ++ "(" ++ e ++ rest ++ ")"

def existsIn (negated : Bool) : Rule Expr := asOther do
  return wordIf negated "NOT" ++ "EXISTS (" ++ (← inParens d.queryText) ++ ")"

def extract : Rule Expr := asOther do
  expectSign "("
  let part ← datePart
  let separator ← if ← word "FROM" then pure " FROM " else do expectSign ","; pure ", "
  let e ← d.text
  expectSign ")"
  return "EXTRACT(" ++ part ++ separator ++ e ++ ")"

def round (k : String) : Rule Expr := asOther do
  expectSign "("
  let e ← d.text
  let rest ←
    if ← word "TO" then do pure (" TO " ++ (← datePart))
    else if ← sign "," then
      match ← value with
      | .number s long => pure (", " ++ (Literal.number s long).written)
      | _ => fail
    else pure ""
  expectSign ")"
  return k ++ "(" ++ e ++ rest ++ ")"

def position (function : Ident) : Rule Expr := do
  let found ← attempt (do
    expectSign "("
    let e ← d.expr Precedence.comparison
    expectWord "IN"
    let inside ← d.text
    expectSign ")"
    return Expr.other ("POSITION(" ++ e.text ++ " IN " ++ inside ++ ")"))
  match found with
  | some e => return e
  | none => call d [function]

def substring : Rule Expr := asOther do
  expectSign "("
  let e ← d.text
  let comma ← sign ","
  let start ← optional (← orElse comma (word "FROM")) d.text
  let length ← optional (← orElse (← word "FOR") (sign ",")) d.text
  expectSign ")"
  return "SUBSTRING(" ++ e ++ start.elim "" ((if comma then ", " else " FROM ") ++ ·) ++
    length.elim "" ((if comma then ", " else " FOR ") ++ ·) ++ ")"

def overlay : Rule Expr := asOther do
  expectSign "("
  let e ← d.text
  expectWord "PLACING"
  let what ← d.text
  expectWord "FROM"
  let start ← d.text
  let length ← optional (← word "FOR") d.text
  expectSign ")"
  return "OVERLAY(" ++ e ++ " PLACING " ++ what ++ " FROM " ++ start ++
    length.elim "" (" FOR " ++ ·) ++ ")"

/-- Only without a list of characters is the side kept. -/
def trim : Rule Expr := asOther do
  expectSign "("
  let side ← oneOf? ["BOTH", "LEADING", "TRAILING"]
  let e ← d.text
  let start := side.elim "" (· ++ " ") ++ e
  let written ←
    if ← word "FROM" then do pure (start ++ " FROM " ++ (← d.text))
    else if ← sign "," then do pure (e ++ ", " ++ (← d.textList))
    else pure start
  expectSign ")"
  return "TRIM(" ++ written ++ ")"

/-- The elements of an array after its opening bracket. -/
def array (start : String) : Rule Expr := asOther do
  let es ← separatedBefore "]" d.text
  expectSign "]"
  return start ++ "[" ++ commaed es ++ "]"

def negation : Rule Expr := do
  if ← word "EXISTS" then existsIn d true
  else return .unary .negation (← d.expr Precedence.negation)

def matchAgainst : Rule Expr := asOther do
  let columns ← nameList
  expectWord "AGAINST"
  expectSign "("
  let l ← value
  let modifier ←
    if ← words ["IN", "NATURAL", "LANGUAGE", "MODE"] then
      if ← words ["WITH", "QUERY", "EXPANSION"] then
        pure " IN NATURAL LANGUAGE MODE WITH QUERY EXPANSION"
      else pure " IN NATURAL LANGUAGE MODE"
    else if ← words ["IN", "BOOLEAN", "MODE"] then pure " IN BOOLEAN MODE"
    else if ← words ["WITH", "QUERY", "EXPANSION"] then pure " WITH QUERY EXPANSION"
    else pure ""
  expectSign ")"
  return "MATCH " ++ columns ++ " AGAINST (" ++ l.written ++ modifier ++ ")"

def struct : Rule Expr := asOther do
  let fields ← if ← sign "<" then TypeName.structure? d else pure []
  let member : Rule String := do
    let e ← d.text
    if ← word "AS" then
      if fields.isEmpty then return e ++ " AS " ++ (← name).text else fail
    else return e
  let values ← inParens (separated member)
  return "STRUCT" ++ (if fields.isEmpty then "" else "<" ++ commaed fields ++ ">") ++
    "(" ++ commaed values ++ ")"

/-- Entries between braces, each a key, a colon and a value. Only a map may have none. -/
def braced (start : String) (key : Rule String) (mayBeEmpty : Bool) : Rule Expr := asOther do
  expectSign "\x7b"
  let entry : Rule String := do
    let k ← key
    expectSign ":"
    return k ++ ": " ++ (← d.text)
  let entries ← if mayBeEmpty then separatedBefore "\x7d" entry else separated entry
  expectSign "\x7d"
  return start ++ "\x7b" ++ commaed entries ++ "\x7d"

/-- Functions that need no parentheses. -/
def bareFunctions : List String := ["CURRENT_CATALOG", "CURRENT_USER", "SESSION_USER", "USER"]

/-- Functions of time, which need no parentheses but may have them. -/
def timeFunctions : List String :=
  ["CURRENT_TIMESTAMP", "CURRENT_TIME", "CURRENT_DATE", "LOCALTIME", "LOCALTIMESTAMP"]

/-! ## Operands -/

/-- What starts with a name: a path, a call, a text in a character set, or the name alone. -/
def named (i : Ident) : Rule Expr := do
  match ← get with
  | .sign "(" :: _ => call d [i]
  | .sign "." :: ts =>
    let parts ← restOfPathFrom (ts.length + 2)
    if ← atSign "(" then call d (i :: parts) else return .path (i :: parts)
  | .text kind s :: ts =>
    if i.value.startsWith "_" && (kind == .plain || kind == .hex) then
      set ts
      return .other (i.value ++ " " ++ kind.written s)
    else return .ident i
  | _ => return .ident i

/-- What starts with a keyword, which is a name if it starts nothing else. -/
def keyed (operand : Rule Expr) (k : String) (i : Ident) : Rule Expr := do
  if bareFunctions.contains k then return .call [i] "" .bare [] ""
  else if timeFunctions.contains k then
    if ← sign "(" then
      let args ← arguments d
      return .call [i] "" args.form args.items ""
    else return .call [i] "" .bare [] ""
  else if k == priorOperator then return .other ("PRIOR " ++ (← d.expr Precedence.sum).text)
  else
    match k with
    | "TRUE" => return .literal (.boolean true)
    | "FALSE" => return .literal (.boolean false)
    | "NULL" => return .literal (.other "NULL")
    | "CASE" => caseOf d
    | "CONVERT" | "TRY_CONVERT" => convert d k
    | "CAST" | "TRY_CAST" | "SAFE_CAST" => cast d k
    | "EXISTS" => existsIn d false
    | "EXTRACT" => extract d
    | "CEIL" | "FLOOR" => round d k
    | "SUBSTRING" => substring d
    | "OVERLAY" => overlay d
    | "TRIM" => trim d
    | "INTERVAL" => interval operand
    | "NOT" => negation d
    | "MATCH" => matchAgainst
    | "STRUCT" => struct d
    | "POSITION" => if ← atSign "(" then position d i else named d i
    | "ARRAY" =>
      if ← sign "[" then array d "ARRAY"
      else if ← atSign "(" then
        return .call [i] "" (.subquery (← inParens d.queryText)) [] ""
      else named d i
    | "MAP" => if ← atSign "\x7b" then braced d "MAP " d.text true else named d i
    | _ => named d i

/-- What an opening parenthesis starts. -/
def parenthesised : Rule Expr := do
  let e ←
    if ← Deeper.atQuery then do pure (Expr.subquery (← d.queryText))
    else
      match ← separated d.anyExpr with
      | [e] => pure (.nested e)
      | es => pure (.other ("(" ++ commaed (es.map Expr.text) ++ ")"))
  expectSign ")"
  if ← sign "." then
    match wordName? (← next) with
    | some key => return .other (e.text ++ "." ++ key.text)
    | none => fail
  else return e

/-- A text after the name of a standard type. -/
def typedText (operand : Rule Expr) : Rule Expr := do
  let t ← TypeName.rule d
  match t.kind with
  | .interval => interval operand
  | .custom _ => fail
  | .standard => return .other (t.written ++ " " ++ quoted '\'' (← textOrWord))

/-- An expression without binary operators. -/
def operandFrom : Nat → Rule Expr
  | 0 => fail
  | n + 1 => do
    match ← attempt (typedText d (operandFrom n)) with
    | some e => return e
    | none =>
      let e ←
        match ← next with
        | .keyword k s => keyed d (operandFrom n) k ⟨s, none⟩
        | .word s quote => named d ⟨s, quote⟩
        | .number s long => pure (.literal (.number s long))
        | .text .plain s => pure (.literal (.text s))
        | .text kind s => pure (.literal (.other (kind.written s)))
        | .placeholder s => pure (.literal (.other s))
        | .semicolon _ => fail
        | .sign s =>
          match s with
          | "(" => parenthesised d
          | "[" => array d ""
          | "-" => do pure (.unary .minus (← d.expr Precedence.product))
          | "+" => do pure (.unary .plus (← d.expr Precedence.product))
          | "\x7b" => do
            set (.sign "\x7b" :: (← get))
            braced d "" (do return (← name).text) false
          | ":" | "@" => do
            set (.sign s :: (← get))
            pure (.literal (← value))
          | _ => fail
      collated e

def operand : Rule Expr := do operandFrom d ((← get).length + 1)

/-! ## Operators -/

def comparisonOf? (s : String) : Option Predicate.Comparison :=
  match s with
  | "=" | "==" => some .eq
  | "<>" => some .ne
  | ">" => some .gt
  | ">=" => some .ge
  | "<" => some .lt
  | "<=" => some .le
  | _ => none

/-- Signs of operators that are no comparison. -/
def otherOperators : List String :=
  ["<=>", "+", "-", "*", "%", "||", "|", "^", "&", "/", "//", "<<", ">>", "&&", "^@", "~", "~*",
    "!~", "!~*", "~~", "~~*", "!~~", "!~~*", "->", "->>", "#>", "#>>", "@>", "<@", "#-", "@?",
    "@@"]

/-- An operator in parentheses after OPERATOR, made of any tokens. -/
def customOperator : Rule BinaryOperator := do
  let part : Rule String := do return (← next).source
  let operator ← inParens (do
    let first ← part
    let others ← repeated (do optional (← sign ".") part)
    return ".".intercalate (first :: others))
  return .other ("OPERATOR(" ++ operator ++ ")")

/-- The operator that a token starts. -/
def operator? : Token → Rule (Option BinaryOperator)
  | .keyword "AND" _ => return some .conjunction
  | .keyword "OR" _ => return some .disjunction
  | .keyword "XOR" _ => return some (.other "XOR")
  | .keyword "OPERATOR" _ => some <$> customOperator
  | .sign s =>
    match comparisonOf? s with
    | some c => return some (.comparison c)
    | none => return if otherOperators.contains s then some (.other s) else none
  | _ => return none

/-- The right-hand side of a binary operator. A quantified one is in parentheses,
which a subquery has anyway. -/
def rightOf (left : Expr) (op : BinaryOperator) (precedence : Nat) : Rule Expr := do
  match ← oneOf? ["ANY", "ALL", "SOME"] with
  | none => return .binary op left (← d.expr precedence)
  | some k =>
    let before ← get
    expectSign "("
    let right ←
      if ← Deeper.atQuery then do
        set before
        d.expr precedence
      else do
        let e ← d.expr precedence
        expectSign ")"
        pure e
    let right :=
      match right with
      | .subquery s => "(" ++ s ++ ")"
      | e => "(" ++ e.text ++ ")"
    match op with
    | .comparison c => return .other (left.text ++ " " ++ comparisonSign c ++ " " ++ k ++ right)
    | _ => fail

def afterIs (left : Expr) : Rule Expr := do
  let negated ← word "NOT"
  let start := left.text ++ " IS " ++ wordIf negated "NOT"
  match ← oneOf ["NULL", "TRUE", "FALSE", "UNKNOWN", "DISTINCT"] with
  | "NULL" => return .isNull negated left
  | "DISTINCT" =>
    expectWord "FROM"
    return .other (start ++ "DISTINCT FROM " ++ (← d.text))
  | k => return .other (start ++ k)

def escape? : Rule (Option String) := do optional (← word "ESCAPE") textOrWord

def afterIn (left : Expr) (negated : Bool) : Rule Expr := do
  let start := left.text ++ " " ++ wordIf negated "NOT" ++ "IN "
  if ← word "UNNEST" then
    return .other (start ++ "UNNEST(" ++ (← inParens d.text) ++ ")")
  expectSign "("
  let e ←
    if ← Deeper.atQuery then do pure (.other (start ++ "(" ++ (← d.queryText) ++ ")"))
    else do pure (.inList negated left (← separated d.anyExpr))
  expectSign ")"
  return e

/-- What follows an operand and perhaps NOT: IN, BETWEEN or a pattern. -/
def afterNot (left : Expr) (negated : Bool) : Rule Expr := do
  let regexp ← word "REGEXP"
  let rlike ← word "RLIKE"
  if regexp || rlike then
    let pattern ← d.expr Precedence.like
    return .other (left.text ++ " " ++ wordIf negated "NOT" ++ (if regexp then "REGEXP " else "RLIKE ") ++
      pattern.text)
  match ← oneOf ["IN", "BETWEEN", "LIKE", "ILIKE", "SIMILAR"] with
  | "IN" => afterIn d left negated
  | "BETWEEN" =>
    let low ← d.expr Precedence.comparison
    expectWord "AND"
    return .between negated left low (← d.expr Precedence.comparison)
  | "SIMILAR" =>
    expectWord "TO"
    let pattern ← d.expr Precedence.like
    let escape ← escape?
    return .other (left.text ++ " " ++ wordIf negated "NOT" ++ "SIMILAR TO " ++ pattern.text ++
      escape.elim "" (fun c => " ESCAPE '" ++ c ++ "'"))
  | k =>
    let any ← word "ANY"
    let pattern ← d.expr Precedence.like
    return .like (k == "ILIKE") negated any left pattern (← escape?)

/-- An element or a slice, after its opening bracket. -/
def subscript (left : Expr) : Rule Expr := asOther do
  let low ← optional (!(← sign ":")) d.text
  if ← sign "]" then
    return left.text ++ "[" ++ low.getD ":" ++ "]"
  if low.isSome then expectSign ":"
  let start := left.text ++ "[" ++ low.getD "" ++ ":"
  if ← sign "]" then return start ++ "]"
  let high ← d.text
  if ← sign "]" then return start ++ high ++ "]"
  expectSign ":"
  if ← sign "]" then return start ++ high ++ "]"
  let stride ← d.text
  expectSign "]"
  return start ++ high ++ ":" ++ stride ++ "]"

/-- One operator after an operand, and what belongs to it. -/
def extend (left : Expr) (precedence : Nat) : Rule Expr := do
  let t ← next
  match ← operator? t with
  | some op => rightOf d left op precedence
  | none =>
    match t with
    | .keyword "IS" _ => afterIs d left
    | .keyword "AT" _ =>
      expectWords ["TIME", "ZONE"]
      return .other (left.text ++ " AT TIME ZONE " ++ (← d.expr precedence).text)
    | .keyword "NOT" _ => afterNot d left true
    | .keyword k s =>
      if Precedence.ofNegated k == 0 then fail
      else
        set (.keyword k s :: (← get))
        afterNot d left false
    | .sign "::" => return .other (left.text ++ "::" ++ (← TypeName.text d))
    | .sign "!" => return .other (left.text ++ "!")
    | .sign "[" => subscript d left
    | _ => fail

/-- Operators that bind tighter than a precedence. -/
def extendFrom (precedence : Nat) : Nat → Expr → Rule Expr
  | 0, left => return left
  | n + 1, left => do
    let p := Precedence.ofTokens (← get)
    if p ≤ precedence then return left
    else extendFrom precedence n (← extend d left p)

/-- An expression whose operators bind tighter than a precedence. -/
def rule (precedence : Nat) : Rule Expr := do
  let left ← operand d
  extendFrom d precedence ((← get).length + 1) left

end Expression

end LogQuery.Sql
