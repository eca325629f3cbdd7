import LogQuery.Decimal.Literal

/-!
# Options of a command line

A command takes options, each at most once, and operands in between. An option
that takes a value has it after an equals sign or as the next argument, but never
one that begins with a dash, the dash alone aside. After two dashes there are only
operands, so an option right before them stays without its value. The value of an
option is looked at when the next option or operand comes, or the end, so a fault
further on may be found before a wrong value.
-/

namespace LogQuery.Command

/-- What an option takes. The text of a path is not empty. -/
inductive Takes
  | nothing
  | text
  | path
  | count
deriving DecidableEq, Repr

/-- The options of a command by name, how many operands it takes, and whether it
tells its version. -/
structure Spec where
  options : List (String × Takes)
  operands : Nat
  tellsVersion : Bool
deriving Repr

/-- Why a command line does not ask for the command's work. -/
inductive UsageError
  | help
  | version
  | unknownArgument
  | missingValue
  | invalidValue
  | needlessValue
  | repeated
  | missingOperand
deriving DecidableEq, Repr

/-- The values of the options that are given, by name, and the operands. -/
structure Given where
  values : List (String × String)
  operands : List String
deriving DecidableEq, Repr

namespace Given

def empty : Given := ⟨[], []⟩

/-- The value of an option; that of an option that takes nothing is empty. -/
def value? (g : Given) (name : String) : Option String := g.values.lookup name

def isGiven (g : Given) (name : String) : Bool := (g.value? name).isSome

/-- The number of an option. -/
def count? (g : Given) (name : String) : Option Nat :=
  (g.value? name).bind fun v => Decimal.index? v.toList

/-- Adds the value of an option. -/
def add (g : Given) (name : String) (takes : Takes) (value : String) : Except UsageError Given :=
  if g.isGiven name then .error .repeated
  else if takes == .path && value.isEmpty then .error .missingValue
  else if takes == .count && (Decimal.index? value.toList).isNone then .error .invalidValue
  else .ok { g with values := g.values ++ [(name, value)] }

end Given

/-- An option whose value is not looked at yet; the value itself may be to come. -/
structure Pending where
  name : String
  takes : Takes
  value : Option String
deriving DecidableEq, Repr

/-- Where the reading of a command line is. -/
structure Reading where
  given : Given
  pending : Option Pending
  onlyOperands : Bool
deriving DecidableEq, Repr

namespace Reading

def start : Reading := ⟨.empty, none, false⟩

/-- Looks at the value of the pending option. -/
def settle (r : Reading) : Except UsageError Reading :=
  match r.pending with
  | none => .ok r
  | some ⟨_, _, none⟩ => .error .missingValue
  | some ⟨name, takes, some v⟩ => do
    return { r with given := ← r.given.add name takes v, pending := none }

/-- Reads an option by its name, with the value after the equals sign if there is one. -/
def long (spec : Spec) (r : Reading) (name : String) (attached : Option String) :
    Except UsageError Reading :=
  let asks := if name == "help" then some UsageError.help
    else if spec.tellsVersion && name == "version" then some .version else none
  match asks, spec.options.lookup name, attached with
  | some _, _, some _ => .error .needlessValue
  | some e, _, none => do
    let _ ← r.settle
    throw e
  | none, none, _ => .error .unknownArgument
  | none, some .nothing, some _ => .error .needlessValue
  | none, some .nothing, none => do
    let r ← r.settle
    return { r with given := ← r.given.add name .nothing "" }
  | none, some takes, some v => do
    let r ← r.settle
    return { r with given := ← r.given.add name takes v }
  | none, some takes, none => do
    let r ← r.settle
    return { r with pending := some ⟨name, takes, none⟩ }

/-- Reads an argument with a single dash by its first letter. -/
def short (spec : Spec) (r : Reading) (letter : Char) : Except UsageError Reading :=
  if letter == 'h' then r.long spec "help" none
  else if spec.tellsVersion && letter == 'V' then r.long spec "version" none
  else .error .unknownArgument

/-- Reads an argument that is a value or an operand. -/
def plain (spec : Spec) (r : Reading) (argument : String) : Except UsageError Reading :=
  match r.onlyOperands, r.pending with
  | false, some ⟨name, takes, none⟩ => .ok { r with pending := some ⟨name, takes, some argument⟩ }
  | _, _ =>
    if r.given.operands.length < spec.operands then do
      let r ← r.settle
      return { r with given := { r.given with operands := r.given.operands ++ [argument] } }
    else .error .unknownArgument

/-- Reads one argument. -/
def argument (spec : Spec) (r : Reading) (text : String) : Except UsageError Reading :=
  if r.onlyOperands then r.plain spec text
  else
    match text.toList with
    | ['-', '-'] => .ok { r with onlyOperands := true }
    | '-' :: '-' :: cs =>
      let (name, rest) := cs.span (· != '=')
      r.long spec (String.ofList name) (if rest.isEmpty then none else some (String.ofList rest.tail))
    | '-' :: letter :: _ => r.short spec letter
    | _ => r.plain spec text

end Reading

/-- What a command line gives. All operands are needed. -/
def Spec.parse (spec : Spec) (arguments : List String) : Except UsageError Given := do
  let r ← arguments.foldlM (Reading.argument spec) Reading.start
  let r ← r.settle
  if r.given.operands.length < spec.operands then throw .missingOperand
  return r.given

end LogQuery.Command
