import Whyrun.Library.TableDiff
import Whyrun.Model.Show

/-!
`whyrun diff`: the summaries that `src/diff.cpp` loads from two capsules and
the text it prints for them. A `std::map` or `std::set` is a table that is
read in the order of its keys.
-/

namespace Whyrun

open ByteText Relational

structure Counts where
  calls : ℤ := 0
  successes : ℤ := 0
  failures : ℤ := 0
  bytes : ℤ := 0
  deriving DecidableEq

/-- `std::set<std::string>`. -/
abbrev NameSet := Table Bytes Unit

structure Summary where
  exitCode : ℤ
  session : Bool := false
  reads : Table Bytes Counts := ∅
  writes : Table Bytes Counts := ∅
  network : Table Bytes Counts := ∅
  localIpc : Table Bytes Counts := ∅
  executables : NameSet := ∅
  commands : NameSet := ∅

/-! ### The summary of a capsule -/

/-- `validate_schema`, on the row of `metadata` under `schema_version`. -/
def validateSchema : Option Bytes → Except Failure ℕ
  | none => .error "not a WhyRun capsule: schema_version is missing"
  | some value =>
      let version := columnText value
      if version = lit "1" then .ok 1
      else if version = lit "2" then .ok 2
      else if version = lit "3" then .ok 3
      else
        .error ("unsupported WhyRun capsule schema version " ++
          String.ofList (version.map fun byte => Char.ofNat byte.toNat))

/-- The rows of the queries without `ORDER BY`, as SQLite returns them. -/
structure QueryRows (capsule : Capsule) where
  files : List (Bytes × FileActivity)
  network : List (Bytes × NetworkActivity)
  localIpc : List Bytes
  files_perm : files.Perm (orderedRows capsule.fileActivity)
  network_perm : network.Perm (orderedRows capsule.networkActivity)
  localIpc_perm :
    localIpc.Perm (groups EventRow.resource (rowsOfType capsule .localIpcConnect none))

/-- `insert` for each row. -/
def insertNames (names : List Bytes) : NameSet :=
  names.foldl (fun set name => set.insert (columnText name) ()) ∅

/-- `operator[]` and an assignment for each row that has counts. -/
def assignCounts (rows : List (Bytes × Option Counts)) : Table Bytes Counts :=
  rows.foldl
    (fun map row =>
      match row.2 with
      | none => map
      | some counts => map.insert (columnText row.1) counts)
    ∅

/-- `SELECT DISTINCT command FROM commands`. -/
def distinctCommands (capsule : Capsule) : List Bytes :=
  groups CommandRow.command (capsule.commands.entries.map fun entry => entry.2)

/-- `SELECT DISTINCT executable FROM processes` where it is not empty. -/
def distinctExecutables (capsule : Capsule) : List Bytes :=
  groups ProcessRow.executable
    ((capsule.processes.entries.map fun entry => entry.2).filter fun row => row.executable ≠ [])

/-- What a path with these columns is assigned. -/
def fileCounts (calls bytes : ℤ) : Option Counts :=
  if 0 < calls then some { calls, bytes } else none

def readCounts (row : FileActivity) : Option Counts := fileCounts row.readCalls row.bytesRead

def writeCounts (row : FileActivity) : Option Counts := fileCounts row.writeCalls row.bytesWritten

def networkCounts (row : NetworkActivity) : Counts :=
  { calls := row.connectCount, successes := row.successCount, failures := row.failureCount }

/-- `COUNT(*)` and the two sums of the local IPC query, for one resource. -/
def localIpcCounts (capsule : Capsule) (resource : Bytes) : Counts :=
  let own := (rowsOfType capsule .localIpcConnect none).filter fun row => row.resource = resource
  { calls := own.length
    successes := countRows own fun row => row.errnoValue = 0
    failures := countRows own fun row => 0 < row.errnoValue }

def loadSummary (capsule : Capsule) (rows : QueryRows capsule) : Except Failure Summary := do
  let schemaVersion ← validateSchema (some capsule.schemaVersion)
  let session := 2 ≤ schemaVersion && columnText capsule.run.mode = lit "session"
  .ok
    { exitCode := columnInteger capsule.run.exitCode
      session
      commands := if session then insertNames (distinctCommands capsule) else ∅
      reads := assignCounts (rows.files.map fun row => (row.1, readCounts row.2))
      writes := assignCounts (rows.files.map fun row => (row.1, writeCounts row.2))
      network := assignCounts (rows.network.map fun row => (row.1, some (networkCounts row.2)))
      localIpc :=
        assignCounts (rows.localIpc.map fun name => (name, some (localIpcCounts capsule name)))
      executables := insertNames (distinctExecutables capsule) }

/-! ### The printed lines -/

def removedLine (label name : Bytes) : Bytes := lit "- " ++ label ++ name ++ newline

def addedLine (label name : Bytes) : Bytes := lit "+ " ++ label ++ name ++ newline

/-- The figures of `counts` that a line shows. -/
def shownCounts (network : Bool) (counts : Counts) : ℤ × ℤ :=
  if network then (counts.calls, counts.failures) else (counts.calls, counts.bytes)

def changedLine (label : Bytes) (network : Bool) (name : Bytes) (counts found : Counts) : Bytes :=
  let (a, b) := shownCounts network counts
  let (a', b') := shownCounts network found
  lit "~ " ++ label ++ name ++ (if network then lit " (attempts " else lit " (calls ") ++
    decimal a ++ lit " -> " ++ decimal a' ++
    (if network then lit ", failures " else lit ", bytes ") ++
    decimal b ++ lit " -> " ++ decimal b' ++ lit ")" ++ newline

/-- The lines of `print_activity_diff`, which returns whether there are any. -/
def printActivityDiff (label : Bytes) (before after : Table Bytes Counts)
    (network : Bool := false) : List Bytes :=
  ((orderedRows before).filterMap fun (name, counts) =>
    match after.lookup name with
    | none => some (removedLine label name)
    | some found =>
        if counts = found then none else some (changedLine label network name counts found)) ++
  (orderedRows after).filterMap fun (name, _) =>
    if name ∈ before then none else some (addedLine label name)

/-- The lines of `print_set_diff`, which returns whether there are any. -/
def printSetDiff (before after : NameSet) : List Bytes :=
  ((orderedRows before).filterMap fun (value, _) =>
    if value ∈ after then none else some (removedLine [] value)) ++
  (orderedRows after).filterMap fun (value, _) =>
    if value ∈ before then none else some (addedLine [] value)

/-! ### The whole output -/

def diffExit (a b : Summary) : Bytes :=
  lit "Exit" ++ newline ++
    (if a.exitCode = b.exitCode then
      lit "  unchanged (" ++ decimal a.exitCode ++ lit ")" ++ newline
    else
      lit "- " ++ decimal a.exitCode ++ newline ++ lit "+ " ++ decimal b.exitCode ++ newline)

/-- A heading, and the lines under it or `none`. -/
def diffSection (heading : Bytes) (lines : List Bytes) : Bytes :=
  heading ++ newline ++ orNone (lit "  none" ++ newline) lines

def fileDiffLines (a b : Summary) : List Bytes :=
  printActivityDiff (lit "READ ") a.reads b.reads ++
    printActivityDiff (lit "WRITE ") a.writes b.writes

/-- What `diff_capsules` prints for two summaries. -/
def diffText (a b : Summary) : Bytes :=
  diffExit a b ++ newline ++
  (if a.session || b.session then
    diffSection (lit "Commands") (printSetDiff a.commands b.commands) ++ newline else []) ++
  diffSection (lit "Files") (fileDiffLines a b) ++ newline ++
  diffSection (lit "Network") (printActivityDiff [] a.network b.network true) ++ newline ++
  diffSection (lit "Local IPC") (printActivityDiff [] a.localIpc b.localIpc true) ++ newline ++
  diffSection (lit "Processes") (printSetDiff a.executables b.executables)

/-- `diff_capsules`; an error is printed instead. -/
def diffCapsules {before after : Capsule} (rows : QueryRows before) (rows' : QueryRows after) :
    Except Failure Bytes := do
  let a ← loadSummary before rows
  let b ← loadSummary after rows'
  .ok (diffText a b)

end Whyrun
