import LogQuery.Json.Reader

/-!
# JSON syntax

`isText` tells whether a text is JSON by its grammar alone: nesting is unbounded,
numbers have any size, and an escape of a surrogate may stand alone. Every text
that is read as a value is of this grammar, but not the other way round.
-/

namespace LogQuery.Json

/-- Passes over the rest of a string after its opening quote. -/
def skipStringChars : List Char → Option (List Char)
  | [] => none
  | '"' :: rest => some rest
  | '\\' :: 'u' :: a :: b :: c :: d :: cs =>
    if (hex4? a b c d).isSome then skipStringChars cs else none
  | '\\' :: c :: cs => if (simpleEscape? c).isSome then skipStringChars cs else none
  | c :: cs => if c.toNat < 32 || c == '\\' then none else skipStringChars cs

def skipString (cs : List Char) : Option (List Char) :=
  match cs with
  | '"' :: cs => skipStringChars cs
  | _ => none

mutual

/-- Passes over a value at the front. -/
def skipValue : (fuel : Nat) → List Char → Option (List Char)
  | 0, _ => none
  | fuel + 1, cs =>
    match cs with
    | '"' :: cs => skipStringChars cs
    | '[' :: cs =>
      match skipSpace cs with
      | ']' :: rest => some rest
      | cs => skipItems fuel cs
    | '{' :: cs =>
      match skipSpace cs with
      | '}' :: rest => some rest
      | cs => skipMembers fuel cs
    | 'n' :: _ => afterWord? "null".toList cs
    | 't' :: _ => afterWord? "true".toList cs
    | 'f' :: _ => afterWord? "false".toList cs
    | cs => (readNumberText cs).map Prod.snd

def skipItems : (fuel : Nat) → List Char → Option (List Char)
  | 0, _ => none
  | fuel + 1, cs =>
    match skipValue fuel (skipSpace cs) with
    | none => none
    | some rest =>
      match skipSpace rest with
      | ']' :: rest => some rest
      | ',' :: rest => skipItems fuel rest
      | _ => none

def skipMembers : (fuel : Nat) → List Char → Option (List Char)
  | 0, _ => none
  | fuel + 1, cs =>
    match skipString (skipSpace cs) with
    | none => none
    | some rest =>
      match skipSpace rest with
      | ':' :: rest =>
        match skipValue fuel (skipSpace rest) with
        | none => none
        | some rest =>
          match skipSpace rest with
          | '}' :: rest => some rest
          | ',' :: rest => skipMembers fuel rest
          | _ => none
      | _ => none

end

/-- Whether a whole text is JSON. -/
def isText (cs : List Char) : Bool :=
  match skipValue (2 * cs.length + 2) (skipSpace cs) with
  | some rest => (skipSpace rest).isEmpty
  | none => false

end LogQuery.Json
