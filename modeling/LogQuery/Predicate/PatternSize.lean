import LogQuery.Predicate.Pattern
import LogQuery.Text.Utf8

/-!
# How large a pattern is

A pattern of any length can be matched, but one that is too large is refused. Its
size is that of the larger of two automata that recognise, byte by byte, the texts
it matches: one reads forwards and one backwards. A size counts the states, and
what a state with several ways on keeps of them.

Where a part of the pattern chooses between encodings of several bytes, the automaton
that reads forwards shares the states in which encodings go on alike. The one that reads
backwards shares the states of the bytes that encodings begin with, as far as it
remembers them: of the steps with one hash only the latest is remembered.
-/

namespace LogQuery.Predicate

open LogQuery.Text

/-! ## Choices between encodings -/

/-- Adjacent bytes, by the first and the last one. -/
structure ByteRange where
  first : UInt8
  last : UInt8
deriving DecidableEq, Repr

/-- The encodings of adjacent characters, byte by byte. -/
abbrev Encodings := List ByteRange

/-- The encodings of characters in ascending order, together where the characters are
adjacent and have all but the last byte in common. -/
def encodings : List Char → List Encodings
  | [] => []
  | c :: cs =>
    let bytes := encodeChars [c]
    let stem := bytes.dropLast.map fun b => ByteRange.mk b b
    let final := bytes.getLastD 0
    match cs, encodings cs with
    | d :: _, next :: others =>
      if c.toNat + 1 == d.toNat && next.dropLast == stem then
        (stem ++ [⟨final, (next.getLastD ⟨final, final⟩).last⟩]) :: others
      else (stem ++ [⟨final, final⟩]) :: next :: others
    | _, others => (stem ++ [⟨final, final⟩]) :: others

/-- The encodings of all characters. -/
def allEncodings : List Encodings :=
  let rest : ByteRange := ⟨0x80, 0xBF⟩
  [[⟨0, 0x7F⟩], [⟨0xC2, 0xDF⟩, rest], [⟨0xE0, 0xE0⟩, ⟨0xA0, 0xBF⟩, rest], [⟨0xE1, 0xEC⟩, rest, rest],
    [⟨0xED, 0xED⟩, ⟨0x80, 0x9F⟩, rest], [⟨0xEE, 0xEF⟩, rest, rest],
    [⟨0xF0, 0xF0⟩, ⟨0x90, 0xBF⟩, rest, rest], [⟨0xF1, 0xF3⟩, rest, rest, rest],
    [⟨0xF4, 0xF4⟩, ⟨0x80, 0x8F⟩, rest, rest]]

/-- The characters in ascending order that fold to what a character folds to. -/
def caseVariants (c : Char) : List Char :=
  let folded := fold c
  let narrow := (List.range 0x80).map Char.ofNat
  let wide := foldTable.filterMap fun (first, last, step, distance) =>
    let origin := (folded.toNat : Int) - distance
    if first ≤ origin && origin ≤ last && (origin - first) % step == 0 then
      some (Char.ofNat origin.toNat)
    else none
  let others := (narrow ++ wide).filter fun d => fold d == folded
  others.filter (· < folded) ++ folded :: others.filter (folded < ·)

/-! ## Parts of a pattern -/

/-- What a pattern asks for at one place. -/
inductive PatternPart
  /-- One character, of so many bytes. -/
  | bytes (length : Nat)
  /-- A single byte in one of so many ranges. -/
  | oneByte (ranges : Nat)
  /-- One character of several, by their encodings. -/
  | anyOf (choices : List Encodings)
  /-- Any run of characters. -/
  | anyRun
deriving DecidableEq, Repr

namespace PatternPart

/-- Any of some characters in ascending order. -/
def ofChars (cs : List Char) : PatternPart :=
  match cs with
  | [c] => bytes c.utf8Size
  | _ =>
    let choices := encodings cs
    if cs.all fun c => c.toNat < 0x80 then oneByte choices.length else anyOf choices

def ofChar (ignoreCase : Bool) (c : Char) : PatternPart :=
  if c == '_' then anyOf allEncodings
  else if c == '%' then anyRun
  else ofChars (if ignoreCase then caseVariants c else [c])

end PatternPart

/-! ## Automata -/

/-- How large an automaton is: its states, and the bytes that they keep besides. -/
structure AutomatonSize where
  states : Nat
  kept : Nat
deriving DecidableEq, Repr

namespace AutomatonSize

def add (s : AutomatonSize) (states kept : Nat) : AutomatonSize := ⟨s.states + states, s.kept + kept⟩

/-- All bytes, of which a state itself has thirty-two. -/
def bytes (s : AutomatonSize) : Nat := 32 * s.states + s.kept

end AutomatonSize

/-- How encodings go on after a beginning, for each of their beginnings, each way of
going on once. -/
def continuations (choices : List Encodings) : List (List Encodings) :=
  let beginnings := choices.flatMap fun e => (List.range e.length).map fun n => e.take n
  (beginnings.eraseDups.map fun b =>
    choices.filterMap fun e => if b.isPrefixOf e then some (e.drop b.length) else none).eraseDups

/-- One state for each way of going on and one for the end. -/
def AutomatonSize.addForwards (s : AutomatonSize) (choices : List Encodings) : AutomatonSize :=
  let nodes := continuations choices
  let ways := nodes.map fun node => (node.map List.head?).eraseDups.length
  s.add (1 + nodes.length) (8 * ways.foldl (· + ·) 0)

def forwardsStep (s : AutomatonSize) : PatternPart → AutomatonSize
  | .bytes length => s.add length 0
  | .oneByte ranges => s.add 2 (8 * ranges)
  | .anyOf choices => s.addForwards choices
  | .anyRun => (s.add 1 8).addForwards allEncodings

/-- A state that is reached from another one by a byte of a range. -/
structure AutomatonStep where
  origin : Nat
  range : ByteRange
deriving DecidableEq, Repr

/-- The hash of a step (FNV-1a), of a thousand. -/
def AutomatonStep.hash (s : AutomatonStep) : Nat :=
  let mix (h n : UInt64) : UInt64 := (h ^^^ n) * 1099511628211
  let h := mix 14695981039346656037 s.origin.toUInt64
  (mix (mix h s.range.first.toUInt64) s.range.last.toUInt64).toNat % 1000

/-- Steps with their hashes and the states they lead to, the latest one first. -/
abbrev KnownSteps := List (Nat × AutomatonStep × Nat)

/-- The states after those of some more encodings, which start at a state. -/
def addEncodings (origin states : Nat) (known : KnownSteps) : Encodings → Nat × KnownSteps
  | [] => (states, known)
  | r :: rs =>
    let step : AutomatonStep := ⟨origin, r⟩
    let fresh := addEncodings states (states + 1) ((step.hash, step, states) :: known) rs
    match known.find? (·.1 == step.hash) with
    | some (_, latest, target) => if latest == step then addEncodings target states known rs else fresh
    | none => fresh

/-- Two states for the choice and its end, and those of the encodings. -/
def AutomatonSize.addBackwards (s : AutomatonSize) (choices : List Encodings) : AutomatonSize :=
  let grow (acc : Nat × KnownSteps) (e : Encodings) := addEncodings (s.states + 1) acc.1 acc.2 e
  ⟨(choices.foldl grow (s.states + 2, [])).1, s.kept + 4 * choices.length⟩

def backwardsStep (s : AutomatonSize) : PatternPart → AutomatonSize
  | .anyOf choices => s.addBackwards choices
  | .anyRun => (s.add 1 8).addBackwards allEncodings
  | part => forwardsStep s part

namespace Pattern

def parts (p : Pattern) : List PatternPart :=
  p.source.toList.map (PatternPart.ofChar p.ignoreCase)

/-- Six states begin, accept, find the two ends of the text and tell where the match lies. -/
def forwardsSize (p : Pattern) : AutomatonSize := p.parts.foldl forwardsStep ⟨6, 0⟩

/-- Where the match lies is told forwards only, and two of the four other states come
before those of the parts. -/
def backwardsSize (p : Pattern) : AutomatonSize :=
  (p.parts.reverse.foldl backwardsStep ⟨2, 0⟩).add 2 0

/-- The size of a pattern, in bytes. -/
def size (p : Pattern) : Nat := max p.forwardsSize.bytes p.backwardsSize.bytes

/-- The largest size of a pattern. -/
def maxSize : Nat := 10485760

/-- The pattern that a source stands for, unless it is too large. Each character takes
a state at least, so a source with too many of them is refused for its length. -/
def ofSource? (source : String) (ignoreCase : Bool) : Option Pattern :=
  let p : Pattern := ⟨source, ignoreCase⟩
  if 32 * source.length > maxSize || p.size > maxSize then none else some p

end Pattern

example : caseVariants 's' = ['S', 's', 'ſ'] ∧ caseVariants 'é' = ['É', 'é'] ∧
    caseVariants '1' = ['1'] := by decide +kernel
example : PatternPart.ofChar true 'a' = .oneByte 2 ∧ PatternPart.ofChar false 'é' = .bytes 2 ∧
    PatternPart.ofChar true 'é' = .anyOf [[⟨0xC3, 0xC3⟩, ⟨0x89, 0x89⟩], [⟨0xC3, 0xC3⟩, ⟨0xA9, 0xA9⟩]] := by
  decide +kernel

end LogQuery.Predicate
