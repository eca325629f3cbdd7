import LogQuery.Toml.Scalar

/-!
# Reading a TOML document

A document is a sequence of lines: headers, keys with their values, comments.
Arrays and inline tables nest to a limit, and a key has a limited number of parts.
-/

namespace LogQuery.Toml

/-- What follows a comment that starts here, or everything if none does. -/
def skipComment : List Char → List Char
  | '#' :: cs => cs.dropWhile isPlain
  | cs => cs

/-- What follows the end of a line: blanks, a comment, and a line break. -/
def afterLine? (cs : List Char) : Option (List Char) :=
  let rest := skipComment (skipSpace cs)
  if rest.isEmpty then some [] else afterBreak? rest

/-- Skips blanks, comments and line breaks, so many of them at most. -/
def skipFiller : (count : Nat) → List Char → List Char
  | 0, cs => cs
  | n + 1, cs =>
    let rest := skipComment (skipSpace cs)
    match afterBreak? rest with
    | some rest => skipFiller n rest
    | none => rest

/-! ## Keys -/

def isBareKey (c : Char) : Bool :=
  c.isAlphanum || c == '-' || c == '_'

/-- One part of a key. -/
def simpleKey? : List Char → Option (String × List Char)
  | '"' :: cs => shortStringAfter '"' cs
  | '\'' :: cs => shortStringAfter '\'' cs
  | cs =>
    let (word, rest) := cs.span isBareKey
    if word.isEmpty then none else some (String.ofList word, rest)

/-- The parts of a key, at most so many. -/
def keyParts : (most : Nat) → List Char → Option (List String × List Char)
  | 0, _ => none
  | n + 1, cs => do
    let (part, rest) ← simpleKey? (skipSpace cs)
    match skipSpace rest with
    | '.' :: rest => (keyParts n rest).map fun (parts, rest) => (part :: parts, rest)
    | rest => some ([part], rest)

/-- One more than the parts a key may have, and than the levels values may nest. -/
def nestingLimit : Nat := 80

/-- A key: the path to its table and its last part. -/
def key? (cs : List Char) : Option ((List String × String) × List Char) := do
  let (parts, rest) ← keyParts (nestingLimit - 1) cs
  return ((parts.dropLast, ← parts.getLast?), rest)

/-! ## Values -/

/-- Reads a value at the front of a text. -/
abbrev ValueReader := List Char → Option (Value × List Char)

/-- The items of an array up to its closing bracket. -/
def items (value : ValueReader) : (fuel : Nat) → List Char → Option (List Value × List Char)
  | 0, _ => none
  | fuel + 1, cs =>
    match skipFiller cs.length cs with
    | ']' :: rest => some ([], rest)
    | cs => do
      let (v, rest) ← value cs
      match skipFiller rest.length rest with
      | ']' :: rest => some ([v], rest)
      | ',' :: rest => (items value fuel rest).map fun (vs, rest) => (v :: vs, rest)
      | _ => none

/-- A key with its value. -/
def keyValue? (value : ValueReader) (cs : List Char) :
    Option ((List String × String × Value) × List Char) := do
  let ((path, key), rest) ← key? cs
  let rest ← Calendar.expect? '=' rest
  let (v, rest) ← value (skipSpace rest)
  return ((path, key, v), skipSpace rest)

/-- The entries of an inline table up to its closing brace. -/
def inlineEntries (value : ValueReader) : (fuel : Nat) → Entries → List Char →
    Option (Entries × List Char)
  | 0, _, _ => none
  | fuel + 1, es, cs => do
    let ((path, key, v), rest) ← keyValue? value cs
    let es ← es.assign path key v .header
    match rest with
    | '}' :: rest => some (es, rest)
    | ',' :: rest => inlineEntries value fuel es rest
    | _ => none

/-- A value with so many levels of nesting at most. -/
def value? : (depth : Nat) → ValueReader
  | depth, cs =>
    match cs with
    | '"' :: rest => (stringAfter '"' rest).map fun (s, rest) => (.string (String.ofList s), rest)
    | '\'' :: rest => (stringAfter '\'' rest).map fun (s, rest) => (.string (String.ofList s), rest)
    | '[' :: rest =>
      match depth with
      | 0 => none
      | depth + 1 => (items (value? depth) (rest.length + 1) rest).map fun (vs, rest) =>
          (.array vs, rest)
    | '{' :: rest =>
      match depth with
      | 0 => none
      | depth + 1 =>
        match skipSpace rest with
        | '}' :: rest => some (.inline [], rest)
        | rest => (inlineEntries (value? depth) (rest.length + 1) [] rest).map fun (es, rest) =>
            (.inline es, rest)
    | 't' :: _ => (after? "true".toList cs).map (Value.boolean true, ·)
    | 'f' :: _ => (after? "false".toList cs).map (Value.boolean false, ·)
    | cs => numberOrDate? cs

/-! ## Lines -/

/-- What is read so far, and the path of the table that the last header opened. -/
structure Document where
  entries : Entries
  header : List String
deriving Repr

/-- Reads a header after its first bracket. -/
def Document.header? (d : Document) (cs : List Char) : Option (Document × List Char) :=
  match cs with
  | '[' :: cs => do
    let ((path, key), rest) ← key? cs
    let rest ← after? [']', ']'] rest
    return (⟨← d.entries.openItem path key, path ++ [key]⟩, rest)
  | cs => do
    let ((path, key), rest) ← key? cs
    let rest ← after? [']'] rest
    return (⟨← d.entries.openTable path key, path ++ [key]⟩, rest)

/-- Reads a line that is neither blank nor a comment, up to its end. -/
def Document.line? (d : Document) : List Char → Option (Document × List Char)
  | '[' :: cs => d.header? cs
  | cs => do
    let ((path, key, v), rest) ← keyValue? (value? (nestingLimit - 1)) cs
    return (⟨← d.entries.assignIn d.header path key v, d.header⟩, rest)

/-- Reads lines, so many at most. -/
def Document.lines? : (count : Nat) → Document → List Char → Option Document
  | 0, d, cs => if cs.isEmpty then some d else none
  | n + 1, d, cs =>
    match skipFiller cs.length cs with
    | [] => some d
    | cs => do
      let (d, rest) ← d.line? cs
      lines? n d (← afterLine? rest)

/-- The entries of a whole document; a byte order mark may stand before it. -/
def parse? (text : List Char) : Option Entries :=
  let cs := match text with
    | c :: cs => if c.toNat == 0xFEFF then cs else text
    | [] => []
  (Document.lines? (cs.length + 1) ⟨[], []⟩ cs).map Document.entries

end LogQuery.Toml
