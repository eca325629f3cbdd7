import LogQuery.Text.CaseFold

/-!
# Patterns

In a pattern `%` stands for any run of characters, `_` for exactly one character,
and every other character for itself, or for its case variants when the pattern
ignores case. A pattern matches a whole text.

Matching goes through the pattern from its end and keeps, for every end part of
the text, whether the end part of the pattern matches it, so its cost is the
product of the two lengths.
-/

namespace LogQuery.Predicate

/-- A pattern as written. -/
structure Pattern where
  source : String
  ignoreCase : Bool
deriving DecidableEq, Repr

namespace Pattern

/-- Whether a character of a text is the one a pattern asks for. -/
def sameChar (ignoreCase : Bool) (p c : Char) : Bool :=
  if ignoreCase then Text.sameFolded p c else p == c

/-- Which end parts of a text match one more character before a pattern, given
which of them match the pattern; the whole text comes first, the empty one last. -/
def extendRow (ignoreCase : Bool) (p : Char) : List Char → List Bool → List Bool
  | c :: cs, here :: next =>
    let rest := extendRow ignoreCase p cs next
    let matched :=
      if p == '%' then here || rest.headD false
      else (p == '_' || sameChar ignoreCase p c) && next.headD false
    matched :: rest
  | _, here :: _ => [p == '%' && here]
  | _, [] => []

/-- Which end parts of a text are empty. -/
def emptyRow : List Char → List Bool
  | [] => [true]
  | _ :: cs => false :: emptyRow cs

/-- Which end parts of a text a pattern matches. -/
def row (ignoreCase : Bool) (pattern text : List Char) : List Bool :=
  pattern.foldr (fun p acc => extendRow ignoreCase p text acc) (emptyRow text)

def isMatch (p : Pattern) (text : String) : Bool :=
  (row p.ignoreCase p.source.toList text.toList).headD false

end Pattern

end LogQuery.Predicate
