import LogQuery.Json.Reader
import LogQuery.Json.Printer
import LogQuery.Live.Broadcaster

/-!
# Sockets of live queries

Whoever opens a socket sends queries on it and gets the events of the latest one.
A query that does not compile is answered with an error, and then the socket has no
query at all. Messages that hold no query are passed over.
-/

namespace LogQuery.Hub

open LogQuery.Json LogQuery.Live

/-- What arrives on a socket: a text, some other message, the wish to close it, or
a failure of the connection. -/
inductive Message
  | text (content : String)
  | other
  | close
  | failure
deriving DecidableEq, Repr

/-- The subscription of a socket, if it has one, and the replies sent on it. -/
structure Socket where
  current : Option Nat
  ended : Bool
  replies : List String
deriving DecidableEq, Repr

/-- The word for a message that holds a query, and the key it stands under. -/
def queryTag : String := "query"

/-- The query in a message: an object whose type says so, with each of the two
members once, or an array of the type and the query. -/
def queryOf? (message : List Char) : Option String :=
  match parse? message with
  | some (.array [.string tag, .string text]) => if tag == queryTag then some text else none
  | some (.object _) =>
    (members? message).bind fun ms =>
      match ms.filter (fun m => m.1 == "type"), ms.filter (fun m => m.1 == queryTag) with
      | [(_, .string tag)], [(_, .string text)] => if tag == queryTag then some text else none
      | _, _ => none
  | _ => none

/-- The reply to a query that does not compile. -/
def errorReply (e : Compile.Error) : String :=
  (Value.ofMembers [("type", .string "error"), ("data", .string e.message)]).text

namespace Socket

/-- A socket that is just opened. -/
def opened : Socket := ⟨none, false, []⟩

/-- Gives up the subscription of a socket. -/
def release (s : Socket) (b : Broadcaster) : Socket × Broadcaster :=
  ({ s with current := none }, s.current.elim b b.unsubscribe)

/-- Ends a socket. -/
def finish (s : Socket) (b : Broadcaster) : Socket × Broadcaster :=
  let (s, b) := s.release b
  ({ s with ended := true }, b)

/-- Replaces the query of a socket. The new subscription gets the id; `arrives` says
whether a reply can be sent. -/
def ask (s : Socket) (b : Broadcaster) (id : Nat) (arrives : Bool) (text : String) :
    Socket × Broadcaster :=
  let (s, b) := s.release b
  match b.subscribe id text with
  | .ok b => ({ s with current := some id }, b)
  | .error e =>
    if arrives then ({ s with replies := s.replies ++ [errorReply e] }, b) else s.finish b

/-- Takes in a message. -/
def receive (s : Socket) (b : Broadcaster) (id : Nat) (arrives : Bool) (m : Message) :
    Socket × Broadcaster :=
  if s.ended then (s, b)
  else
    match m with
    | .text content =>
      match queryOf? content.toList with
      | some text => s.ask b id arrives text
      | none => (s, b)
    | .other => (s, b)
    | .close | .failure => s.finish b

end Socket

end LogQuery.Hub
