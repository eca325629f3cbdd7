import LogQuery.Hub.Config
import LogQuery.Hub.Reply
import LogQuery.Live.Broadcaster
import LogQuery.Text.Percent
import LogQuery.Text.Terminator

/-!
# Requests to the hub

The hub answers queries over the store and takes in fresh lines for its live
subscribers. A path that names nothing is not found, and one that is asked for with
the wrong method says so.
-/

namespace LogQuery.Hub

open LogQuery.Text LogQuery.Json LogQuery.Store LogQuery.Live

inductive Method
  | get
  | post
deriving DecidableEq, Repr

structure Request where
  method : Method
  target : String
  body : Bytes
deriving DecidableEq, Repr

/-- The places of the hub; a source is as it stands in the path. -/
inductive Route
  | status
  | query
  | queryForLines
  | ingest (source : List Char)
  | socket
deriving DecidableEq, Repr

def Route.method : Route → Method
  | ingest _ => .post
  | _ => .get

/-- The place a path names. -/
def Route.ofPath? (path : List Char) : Option Route :=
  match splitOn '/' path with
  | [[], []] => some .status
  | [[], name] =>
    if name == "query".toList then some .query
    else if name == "query-for-lines".toList then some .queryForLines
    else if name == "ws".toList then some .socket
    else none
  | [[], name, source] =>
    if name == "ingest".toList && !source.isEmpty then some (.ingest source) else none
  | _ => none

/-- What follows the scheme of a target that begins with one. -/
def afterScheme? (target : List Char) : Option (List Char) :=
  match target.span fun c => c.isAlphanum || c == '+' || c == '-' || c == '.' with
  | (_ :: _, ':' :: '/' :: '/' :: rest) => some rest
  | _ => none

/-- The path of a target and its query string. A target may name a scheme and an
authority, and then an empty path is that of the top; what follows a number sign
is not for the hub. -/
def splitTarget (target : String) : List Char × List Char :=
  let split (cs : List Char) : List Char × List Char :=
    let (path, rest) := (cs.takeWhile (· != '#')).span (· != '?')
    (path, rest.tail)
  match afterScheme? target.toList with
  | none => split target.toList
  | some rest =>
    let (path, queryString) := split (rest.dropWhile fun c => c != '/' && c != '?' && c != '#')
    (if path.isEmpty then ['/'] else path, queryString)

example : splitTarget "/query?q=a#b" = ("/query".toList, "q=a".toList) ∧
    splitTarget "HTTP://h:80?q" = ("/".toList, "q".toList) := by decide +kernel

/-! ## Queries -/

/-- The field of the query string that holds the query. -/
def queryField : String := "q"

/-- The query in a query string; none is the empty one. -/
def queryText (fields : List (String × String)) : Except Rejection String :=
  match fields.filter fun f => f.1 == queryField with
  | [] => .ok ""
  | [(_, text)] => .ok text
  | _ => .error (.repeatedField queryField)

/-- The reply to a query, unless it is too short to be one. -/
def runQuery (c : Config) (fs : FileSystem) (write : Engine.Answer → Reply) (text : String) :
    Option Reply :=
  if (trim text).utf8ByteSize < c.minQueryLength then
    some (.error 400
      ("Query length needs to be at least " ++ toString c.minQueryLength ++ " characters"))
  else
    match Engine.query c.engine fs text with
    | .ok a => some (write a)
    | .error e => Reply.ofQueryError? e

/-- The reply to a request with a query. -/
def replyTo (c : Config) (fs : FileSystem) (write : Engine.Answer → Reply)
    (queryString : List Char) : Option Reply :=
  match queryText (queryFields queryString) with
  | .error r => some (.rejection r)
  | .ok text => runQuery c fs write text

/-! ## Fresh lines -/

/-- The lines of a text without their terminators. What follows the last line feed
is a line if it is not empty, and keeps a carriage return at its end. -/
def linesOf (cs : List Char) : List (List Char) :=
  let parts := splitOn '\n' cs
  parts.dropLast.map (dropLastIf '\r') ++ (parts.getLast?.toList.filter (!·.isEmpty))

/-- The lines of a body that are not blank. -/
def freshLines (body : List Char) : List String :=
  ((linesOf body).filter fun l => !l.all isBlank).map String.ofList

/-- Ingests lines one after the other, and counts the subscriptions that accepted them. -/
def ingestAll (source : String) : Broadcaster → List String → Broadcaster × Nat
  | b, [] => (b, 0)
  | b, line :: lines =>
    let (b', n) := ingestAll source (b.ingest source line) lines
    (b', b.accepting source line + n)

/-- The longest body, in bytes. -/
def maxBodyLength : Nat := 2097152

/-- The source and the text of a request to ingest. -/
def ingestion (source : List Char) (body : Bytes) : Except Rejection (String × List Char) :=
  match decode? (percentDecode (encodeChars source)) with
  | none => .error .sourceNotText
  | some name =>
    if body.length > maxBodyLength then .error .bodyTooLong
    else
      match decode? body with
      | none => .error .bodyNotText
      | some text => .ok (String.ofList name, text)

def ingest (b : Broadcaster) (source : List Char) (body : Bytes) : Broadcaster × Reply :=
  match ingestion source body with
  | .error r => (b, .rejection r)
  | .ok (name, text) =>
    let lines := freshLines text
    let (b, delivered) := ingestAll name b lines
    (b, .json 200 [("lines", Reply.number lines.length), ("delivered", Reply.number delivered)])

/-! ## All requests -/

/-- The reply that tells how the hub is. -/
def statusReply (b : Broadcaster) (uptimeSeconds : Nat) : Reply :=
  .json 200 [("status", .string "up"), ("uptime_seconds", Reply.number uptimeSeconds),
    ("live_subscriptions", Reply.number b.size)]

/-- Answers a request, unless its query is broken off. Only fresh lines change anything. -/
def handle (c : Config) (fs : FileSystem) (uptimeSeconds : Nat) (b : Broadcaster) (r : Request) :
    Broadcaster × Option Reply :=
  let (path, queryString) := splitTarget r.target
  match Route.ofPath? path with
  | none => (b, some (.empty 404))
  | some route =>
    if route.method != r.method then (b, some (.empty 405))
    else
      match route with
      | .status => (b, some (statusReply b uptimeSeconds))
      | .query => (b, replyTo c fs .ofAnswer queryString)
      | .queryForLines => (b, replyTo c fs .linesOfAnswer queryString)
      | .ingest source =>
        let (b, reply) := ingest b source r.body
        (b, some reply)
      | .socket => (b, some (.rejection .notAnUpgrade))

end LogQuery.Hub
