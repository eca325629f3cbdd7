import LogQuery.Plan
import LogQuery.Store.FileSystem

/-!
# Sources and their log files

The log root holds a directory for each source, in it a directory for each day,
and in that a file for each run of the logger, `<source>/<day>/<start>.log`.
What does not fit the layout is passed over.
-/

namespace LogQuery.Store

open LogQuery.Predicate LogQuery.Calendar

/-- The end of the name of a log file. -/
def logSuffix : List Char := ".log".toList

/-- When the log file of a name was started. -/
def startOf? (name : String) : Option Instant :=
  let cs := name.toList
  if logSuffix.isSuffixOf cs then instant? fileNameLayout (cs.take (cs.length - logSuffix.length))
  else none

namespace FileSystem

variable (fs : FileSystem) (root : FilePath)

/-- The directories of a source that conditions on the date may accept. -/
def dayDirectories (source : String) (dates : List DateCondition) : List FilePath :=
  (fs.entriesOf (root.join source) true).filterMap fun (name, path) =>
    if (day? name.toList).any (allAcceptDay dates) then some path else none

/-- The log files of a directory that conditions on the date accept. -/
def filesOfDay (dates : List DateCondition) (directory : FilePath) : List FilePath :=
  (fs.entriesOf directory false).filterMap fun (name, path) =>
    if (startOf? name).any (allAcceptInstant dates) then some path else none

/-- The log files of a source that conditions on the date accept, by day and start. -/
def filesOfSource (source : String) (dates : List DateCondition) : List FilePath :=
  (fs.dayDirectories root source dates).flatMap (fs.filesOfDay dates)

/-- The names of all sources. -/
def sources : List String := (fs.entriesOf root true).map Prod.fst

/-- The sources a plan reads, each once, with the star for all. -/
def sourcesOfPlan (p : Plan) : List String :=
  (p.sources.flatMap fun s => if s == allSources then fs.sources root else [s]).eraseDups

/-- The paths without those that an earlier one equals. -/
def withoutRepeats (ps : List FilePath) : List FilePath :=
  ps.foldl (fun found p => if p.isIn found then found else found ++ [p]) []

/-- The log files a plan reads, each once. -/
def filesOfPlan (p : Plan) : List FilePath :=
  withoutRepeats ((fs.sourcesOfPlan root p).flatMap fun s => fs.filesOfSource root s p.dates)

end FileSystem

end LogQuery.Store
