import LogQuery.Engine.Query

/-!
# Replies of the hub

A reply has a status, a content type and a body. Records of a search are written
into the body as they come: for `/query` into the array of an envelope, which tells
a failure after the array, and for `/query-for-lines` one to a line.
-/

namespace LogQuery.Hub

open LogQuery.Json LogQuery.Engine

inductive ContentType
  | json
  | jsonSequence
  | plainText
deriving DecidableEq, Repr

def ContentType.text : ContentType → String
  | json => "application/json"
  | jsonSequence => "application/json-seq"
  | plainText => "text/plain; charset=utf-8"

structure Reply where
  status : Nat
  contentType : Option ContentType
  body : String
deriving DecidableEq, Repr

/-- Why a request is turned away before it is looked at. -/
inductive Rejection
  | repeatedField (name : String)
  | sourceNotText
  | bodyNotText
  | bodyTooLong
  | notAnUpgrade
deriving DecidableEq, Repr

def Rejection.status : Rejection → Nat
  | bodyTooLong => 413
  | _ => 400

def Rejection.message : Rejection → String
  | repeatedField name => "Failed to deserialize query string: duplicate field '" ++ name ++ "'"
  | sourceNotText => "Invalid UTF-8 in the source"
  | bodyNotText => "Request body didn't contain valid UTF-8"
  | bodyTooLong => "Failed to buffer the request body: length limit exceeded"
  | notAnUpgrade => "Connection header did not include 'upgrade'"

/-! ## Bodies of searches -/

/-- What opens the envelope of a search. -/
def envelopeOpening : String :=
  "\x7b\"type\":\"" ++ ResultKind.search.text ++ "\",\"results\":["

/-- What closes the envelope after a failure. -/
def envelopeFailure (f : Failure) : String :=
  "],\"error\":" ++ (Value.string f.message).text ++ "\x7d"

/-- The chunks of an envelope after its opening. -/
def envelopeRows : (first : Bool) → List Item → List String
  | _, [] => ["]\x7d"]
  | _, .failure f :: _ => [envelopeFailure f]
  | true, .record r :: items => r :: envelopeRows false items
  | false, .record r :: items => ("," ++ r) :: envelopeRows false items

/-- The chunks in which a search is written on `/query`. -/
def envelope (items : List Item) : List String := envelopeOpening :: envelopeRows true items

/-- The chunks in which a search is written on `/query-for-lines`; a failure ends them. -/
def lineSequence : List Item → List String
  | [] => []
  | .failure _ :: _ => []
  | .record r :: items => (r ++ "\n") :: lineSequence items

namespace Reply

/-- A reply without a body. -/
def empty (status : Nat) : Reply := ⟨status, none, ""⟩

def json (status : Nat) (members : List (String × Value)) : Reply :=
  ⟨status, some .json, (Value.ofMembers members).text⟩

def rejection (r : Rejection) : Reply := ⟨r.status, some .plainText, r.message⟩

/-- An error; its message is told. -/
def error (status : Nat) (message : String) : Reply := json status [("error", .string message)]

/-- The error of a query, if there is a reply. What cannot be compiled is the fault of
who asks; one that is broken off leaves nobody to reply. -/
def ofQueryError? (e : QueryError) : Option Reply :=
  match e with
  | .compile _ => some (error 400 e.message)
  | .failure _ => some (error 500 e.message)
  | .brokenOff => none

def number (n : Nat) : Value := .number (.integer n)

/-- The answer of a query with its kind. -/
def results (a : Answer) (v : Value) : Reply :=
  json 200 [("type", .string a.kind.text), ("results", v)]

/-- The reply of `/query`. -/
def ofAnswer (a : Answer) : Reply :=
  match a with
  | .count n => results a (number n)
  | .distinct keys => results a (.array (keys.map .string))
  | .countDistinct counts =>
    results a (.ofMembers (counts.entries.map fun (k, n) => (k, number n)))
  | .search items => ⟨200, some .json, String.join (envelope items)⟩

/-- The reply of `/query-for-lines`, which is for searches only. -/
def linesOfAnswer : Answer → Reply
  | .search items => ⟨200, some .jsonSequence, String.join (lineSequence items)⟩
  | a => error 400
      (a.kind.text ++ " results are not supported on /query-for-lines. Use /query instead.")

end Reply

end LogQuery.Hub
