import LogQuery.Query.Piece

/-!
# Marked queries

The SQL grammar has no hyphenated names, no dotted paths with numbers or `*` in
them, and takes `date` for a keyword. `mark` changes those spots of a query
into markers made of word characters, so that the grammar sees one identifier.
`Marked.restore` goes back from an identifier of the grammar to the words of the
query: it undoes the markers and then looks the result up in the query, outside
quoted literals and up to ASCII case, to recover the spelling.

Restoring is a search, not an inverse: two spellings of one name come back as
the spelling that stands first.
-/

namespace LogQuery.Query

/-- What a marker stands for. -/
inductive Marker
  | dash | dot | star | date | all
deriving DecidableEq, Repr

namespace Marker

def text : Marker → List Char
  | dash => "__dash__".toList
  | dot => "__dot__".toList
  | star => "__star__".toList
  | date => "__date__".toList
  | all => "__all__".toList

def meaning : Marker → List Char
  | dash => ['-']
  | dot => ['.']
  | star => ['*']
  | date => ['d', 'a', 't', 'e']
  | all => ['*']

/-- The order in which markers are undone. -/
def order : List Marker := [dash, dot, star, date, all]

end Marker

/-! ## Marking -/

/-- Words after which names are sources no more. -/
def clauseWords : List (List Char) :=
  ["WHERE", "GROUP", "ORDER", "LIMIT", "HAVING", "OFFSET"].map String.toList

/-- What marking remembers of the words before: whether they opened the list of
sources, and whether the last one is all digits. -/
structure Position where
  inSources : Bool := false
  afterDigits : Bool := false
deriving DecidableEq, Repr

def upperAscii (cs : List Char) : List Char := cs.map Char.toUpper
def lowerAscii (cs : List Char) : List Char := cs.map Char.toLower

/-- A word beside a dot is a path segment and never a keyword. -/
def Position.afterWord (p : Position) (word : List Char) (segment : Bool) : Position where
  inSources :=
    if segment then p.inSources
    else if upperAscii word == "FROM".toList then true
    else if clauseWords.contains (upperAscii word) then false
    else p.inSources
  afterDigits := word.all Char.isDigit

def markWord (word : List Char) (segment : Bool) : List Char :=
  if !segment && upperAscii word == "DATE".toList then Marker.date.text else word

def isWordOrStar (c : Char) : Bool := isWordChar c || c == '*'

/-- A sign between two neighbours. -/
def markSign (p : Position) (before : Option Char) (c : Char) (after : Option Char) : List Char :=
  if c == '-' && before.any isWordChar && after.any isWordChar && !p.afterDigits then
    Marker.dash.text
  else if c == '.' && before.any isWordOrStar && after.any isWordOrStar &&
      !(p.afterDigits && after.any Char.isDigit) then
    Marker.dot.text
  else if c == '*' && (before == some '.' || after == some '.') then Marker.star.text
  else if c == '*' && p.inSources then Marker.all.text
  else [c]

/-- The first character of a list of pieces. -/
def firstChar (ps : List Piece) : Option Char := ps.head?.bind fun p => p.text.head?

def markPieces : Position → Option Char → List Piece → List Char
  | _, _, [] => []
  | p, _, .literal cs :: ps => cs ++ markPieces p cs.getLast? ps
  | p, before, .word w :: ps =>
    let segment := before == some '.' || firstChar ps == some '.'
    markWord w segment ++ markPieces (p.afterWord w segment) w.getLast? ps
  | p, before, .sign c :: ps =>
    markSign p before c (firstChar ps) ++ markPieces p (some c) ps

/-- The text handed to the grammar. -/
def markChars (cs : List Char) : List Char := markPieces {} none (Piece.cut cs)

/-! ## Restoring -/

/-- Replaces the occurrences of `needle`, left to right and without overlap,
after passing over `skip` characters. -/
def replaceFrom (needle replacement : List Char) : Nat → List Char → List Char
  | _, [] => []
  | skip + 1, _ :: cs => replaceFrom needle replacement skip cs
  | 0, c :: cs =>
    if needle.isPrefixOf (c :: cs) then
      replacement ++ replaceFrom needle replacement (needle.length - 1) cs
    else c :: replaceFrom needle replacement 0 cs

/-- Replaces every occurrence of a non-empty `needle`. -/
def replaceAll (needle replacement cs : List Char) : List Char :=
  replaceFrom needle replacement 0 cs

/-- Undoes the markers, one kind after the other. -/
def unmark (cs : List Char) : List Char :=
  Marker.order.foldl (fun cs m => replaceAll m.text m.meaning cs) cs

/-- For each character of a text, whether it belongs to a quoted literal, inside
a literal opened by `quote` if one is given. -/
def quotedFrom : (quote : Option Char) → List Char → List Bool
  | _, [] => []
  | none, c :: cs => if isQuote c then true :: quotedFrom (some c) cs else false :: quotedFrom none cs
  | some q, c :: cs =>
    if c == q then
      match cs with
      | [] => [true]
      | d :: ds =>
        if d == q then true :: true :: quotedFrom (some q) ds
        else true :: quotedFrom none (d :: ds)
    else true :: quotedFrom (some q) cs

/-- For each character of a text, whether it belongs to a quoted literal. -/
def quotedFlags (cs : List Char) : List Bool := quotedFrom none cs

/-- A character that could extend a path. -/
def isPathChar (c : Char) : Bool :=
  c.isAlphanum || c == '_' || c == '.' || c == '-' || c == '*'

/-- Where `needle` occurs, left to right and without overlap, counting from `position`. -/
def occurrencesFrom (needle : List Char) : (skip : Nat) → (position : Nat) → List Char → List Nat
  | _, _, [] => []
  | skip + 1, i, _ :: cs => occurrencesFrom needle skip (i + 1) cs
  | 0, i, c :: cs =>
    if needle.isPrefixOf (c :: cs) then i :: occurrencesFrom needle (needle.length - 1) (i + 1) cs
    else occurrencesFrom needle 0 (i + 1) cs

/-- Where a non-empty `needle` occurs. -/
def occurrences (needle cs : List Char) : List Nat := occurrencesFrom needle 0 0 cs

/-- No path character touches the `length` characters from `i` on. -/
def standsAlone (cs : List Char) (i length : Nat) : Bool :=
  !(i != 0 && cs[i - 1]?.any isPathChar) && !cs[i + length]?.any isPathChar

/-- Where a text occurs in a query outside quoted literals, up to ASCII case:
the first occurrence that stands alone, or else the first one. -/
def locate (query needle : List Char) : Option Nat :=
  if needle.isEmpty then none
  else
    let flags := quotedFlags query
    let isFree (i : Nat) : Bool := !flags.getD i false
    let found := occurrences (lowerAscii needle) (lowerAscii query)
    (found.find? fun i => isFree i && standsAlone query i needle.length).or (found.find? isFree)

/-- The words of a query that an identifier of the grammar stands for. -/
def restoreChars (query fragment : List Char) : List Char :=
  let plain := unmark fragment
  match locate query plain with
  | some i => (query.drop i).take plain.length
  | none => plain

/-- A query text beside its marked form. -/
structure Marked where
  query : List Char
  marked : List Char

namespace Marked

def ofChars (cs : List Char) : Marked := ⟨cs, markChars cs⟩

def ofString (s : String) : Marked := ofChars s.toList

/-- The text handed to the grammar. -/
def text (q : Marked) : String := String.ofList q.marked

/-- Turns a text of the grammar back into the words of the query. -/
def restore (q : Marked) (fragment : String) : String :=
  String.ofList (restoreChars q.query fragment.toList)

end Marked

end LogQuery.Query
