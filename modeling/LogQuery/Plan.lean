import LogQuery.Predicate.Field
import LogQuery.Predicate.Date

/-!
# Query plans

What is left of a query once it is compiled: where to read, what to test, and
what to answer with. A record matches a plan when it satisfies every condition.
-/

namespace LogQuery

open LogQuery.Record LogQuery.Predicate LogQuery.Json

/-- What a query answers with. -/
inductive ResultKind
  | search | count | distinct | countDistinct
deriving DecidableEq, Repr

def ResultKind.text : ResultKind → String
  | search => "search"
  | count => "count"
  | distinct => "distinct"
  | countDistinct => "count-distinct"

/-- A column of the output. -/
structure Projection where
  path : Path
  label : String
deriving DecidableEq, Repr

/-- `fields` holds the conditions of the query first and then those that its
columns be there. Without projections the whole record is the output. -/
structure Plan where
  sources : List String
  fields : List FieldCondition
  dates : List DateCondition
  projections : List Projection
  aggregation : Option Path
  kind : ResultKind
deriving DecidableEq, Repr

/-- The source that stands for every source. -/
def allSources : String := "*"

namespace Plan

/-- The paths that are looked up, in order. -/
def lookupPaths (p : Plan) : List String := p.fields.map (·.path.text)

/-- Whether lines of a source are for this plan. -/
def readsSource (p : Plan) (source : String) : Bool :=
  p.sources.any fun s => s == source || s == allSources

/-- Whether a record satisfies every condition. -/
def accepts (p : Plan) (record : Value) : Bool :=
  p.fields.all (·.holds record) && datesHold p.dates record

/-- The record on a line, if there is one and it matches. -/
def matchLine? (p : Plan) (line : Text.Bytes) : Option Value :=
  (Record.ofLine? line).filter p.accepts

/-- Whether a line holds a record that matches. -/
def matchesLine (p : Plan) (line : Text.Bytes) : Bool := (p.matchLine? line).isSome

end Plan

end LogQuery
