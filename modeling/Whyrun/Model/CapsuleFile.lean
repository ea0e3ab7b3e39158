import Whyrun.Library.NameSearch
import Whyrun.Library.Transactions
import Whyrun.Model.Diff
import Whyrun.Model.RecordCommand

/-!
`CapsuleWriter::Impl` of `src/sqlite_store.cpp` statement by statement, and
`record_command` of `src/main.cpp` with the files it makes. Every SQL
statement, the opening of the database, the collector and the copy of the
capsule may throw; an exception runs the destructors of the writer and of
`TemporaryCapsuleGuard`. `remove` reports its errors by a code and takes the
file away.
-/

namespace Whyrun

open ByteText Relational CapsuleWriter Transactions

/-! ### The database of a capsule -/

/-- The tables and indexes that the constructor creates. -/
inductive SchemaObject
  | metadata
  | runs
  | commands
  | processes
  | events
  | fileActivity
  | networkActivity
  | eventsByTime
  | eventsByErrno
  | eventsByCommand
  | commandsByTime
  deriving DecidableEq

/-- The content of a database file. -/
structure Store where
  schema : List SchemaObject := []
  metadata : Table Bytes Bytes := ∅
  runs : List RunRow := []
  commands : Table ℤ CommandRow := ∅
  processes : Table ℤ ProcessRow := ∅
  events : List EventRow := []
  fileActivity : Table Bytes FileActivity := ∅
  networkActivity : Table Bytes NetworkActivity := ∅

/-- A statement: the new content, or the exception of a statement that fails. -/
abbrev StoreStatement := Store → Except Failure Store

namespace Store

/-- `CREATE TABLE`, `CREATE INDEX`. -/
def create (object : SchemaObject) : StoreStatement := fun s =>
  if object ∈ s.schema then .error "already exists"
  else .ok { s with schema := s.schema ++ [object] }

/-- A statement on a table. -/
def on (table : SchemaObject) (statement : StoreStatement) : StoreStatement := fun s =>
  if table ∈ s.schema then statement s else .error "no such table"

/-- A statement that changes no table. -/
def pragma : StoreStatement := .ok

def insertMetadata (key value : Bytes) : StoreStatement :=
  on .metadata fun s =>
    if key ∈ s.metadata then .error "UNIQUE constraint failed: metadata.key"
    else .ok { s with metadata := s.metadata.insert key value }

/-- The row of a new run. -/
def runRow (run : RunMetadata) : RunRow :=
  { id := run.id, mode := runModeName run.mode, command := formatCommand run.command
    cwd := run.cwd, startNs := asI64 run.startNs }

def insertRun (run : RunMetadata) : StoreStatement :=
  on .runs fun s =>
    if s.runs.any fun row => row.id = run.id then .error "UNIQUE constraint failed: runs.id"
    else .ok { s with runs := s.runs ++ [runRow run] }

/-- The columns that `finish` sets. -/
def finishedRow (result : CollectionResult) (row : RunRow) : RunRow :=
  { row with
    endNs := some (asI64 result.endNs)
    exitCode := some result.exitCode.toInt
    termSignal := some result.termSignal.toInt }

/-- `UPDATE runs`, of every row. -/
def updateRuns (result : CollectionResult) : StoreStatement :=
  on .runs fun s => .ok { s with runs := s.runs.map (finishedRow result) }

def insertEvent (event : Event) : StoreStatement :=
  on .events fun s =>
    .ok { s with events := s.events ++ [eventRow (s.events.length + 1) event] }

end Store

/-! ### The writer -/

/-- The statements of the constructor outside of its transaction. -/
def schemaStatements : List StoreStatement :=
  [ Store.pragma, Store.pragma, Store.create .metadata, Store.create .runs,
    Store.create .commands, Store.create .processes, Store.create .events,
    Store.create .fileActivity, Store.create .networkActivity, Store.create .eventsByTime,
    Store.create .eventsByErrno, Store.create .eventsByCommand, Store.create .commandsByTime ]

/-- The rows that the constructor inserts. -/
def headerStatements (run : RunMetadata) : List StoreStatement :=
  [ Store.insertMetadata (lit "schema_version") (lit "3"),
    Store.insertMetadata (lit "tool_version") kVersion, Store.insertRun run ]

def setupCommands (run : RunMetadata) : List (Command Store Failure) :=
  schemaStatements.map .statement ++ .beginTransaction ::
    (headerStatements run).map .statement

/-- The second statement of `emit`, if there is one; the conversion of a text
may throw in its place. -/
def activityStatement (event : Event) : Option StoreStatement :=
  match event.type with
  | .commandStart =>
      some (Store.on .commands fun s =>
        (startCommand s.commands event).map fun commands => { s with commands })
  | .commandEnd =>
      some (Store.on .commands fun s =>
        (endCommand s.commands event).map fun commands => { s with commands })
  | .fileRead | .fileWrite =>
      some (Store.on .fileActivity fun s =>
        .ok { s with fileActivity := fileTransfer s.fileActivity event })
  | .networkConnect =>
      some (Store.on .networkActivity fun s =>
        .ok { s with networkActivity := networkConnect s.networkActivity event })
  | .processExec =>
      some (Store.on .processes fun s =>
        (processExec s.processes event).map fun processes => { s with processes })
  | .processFork =>
      some (Store.on .processes fun s =>
        (processFork s.processes event).map fun processes => { s with processes })
  | .processExit =>
      some (Store.on .processes fun s =>
        (processExit s.processes event).map fun processes => { s with processes })
  | .fileOpen | .localIpcConnect => none

/-- The statements of `emit`. -/
def emitStatements (event : Event) : List StoreStatement :=
  Store.insertEvent event :: (activityStatement event).toList

def emitCommands (event : Event) : List (Command Store Failure) :=
  (emitStatements event).map .statement

/-- The statements of `finish`, called once. -/
def finishCommands (result : CollectionResult) : List (Command Store Failure) :=
  [.statement (Store.updateRuns result), .commit]

/-! ### The files of a recording -/

inductive FileContent
  | capsule (store : Store)
  | other (data : Bytes)

abbrev FileSystem := Table Bytes FileContent

/-- `capsule_path`: the id of a run is the stem of its path. -/
def capsulePath (run : RunMetadata) : Bytes := run.id ++ lit ".wrun"

/-- A candidate of `temporary_capsule_path`. -/
def temporaryCandidate (directory runId : Bytes) (pid : Pid) (suffix : UInt32) : Bytes :=
  directory ++ lit "/.whyrun-" ++ runId ++ lit "-" ++ decimal pid.toInt ++
    (if suffix = 0 then [] else lit "-" ++ decimalNat suffix.toNat) ++ lit ".tmp"

/-- The loop of `temporary_capsule_path`, of one turn more than there are
files. -/
def temporaryCapsulePath (files : FileSystem) (directory runId : Bytes) (pid : Pid) :
    Option Bytes :=
  NameSearch.firstFree (fun path => decide (path ∈ files)) (temporaryCandidate directory runId pid)
    (files.keys.length + 1) 0

/-- What throws in a recording, beside the collector. -/
structure Faults where
  openDatabase : Option Failure := none
  statement : ℕ → Option Failure := fun _ => none
  copyFile : Option Failure := none

/-- What the collector does: the calls of `emit`, one after another, and then
its result or an exception. -/
structure Collection where
  events : List Event
  outcome : Except Failure CollectionResult

/-- `publish_capsule`: what it throws, and the files. -/
def publishCapsule (fault : Option Failure) (files : FileSystem)
    (temporaryPath finalPath : Bytes) : Except Failure Unit × FileSystem :=
  match fault, files.lookup temporaryPath with
  | some e, _ => (.error e, files)
  | none, none => (.error "publish capsule: no such file", files)
  | none, some content =>
      if finalPath ∈ files then (.error "publish capsule: file exists", files)
      else (.ok (), (files.insert finalPath content).erase temporaryPath)

/-- `collect`, then `finish`. -/
def collectAndFinish (faults : Faults) (c : Connection Store) (collection : Collection) :
    Except (Failure × Connection Store) (CollectionResult × Connection Store) := do
  let c ← c.executeAll faults.statement (collection.events.flatMap emitCommands)
  match collection.outcome with
  | .error e => .error (e, c)
  | .ok result => do
      let c ← c.executeAll faults.statement (finishCommands result)
      .ok (result, c)

/-- The block of the writer: what it throws or the result, and what it leaves
in the temporary file when the writer has gone. -/
def writeCapsule (faults : Faults) (run : RunMetadata) (collection : Collection) :
    Except Failure CollectionResult × Option Store :=
  match faults.openDatabase with
  | some e => (.error e, none)
  | none =>
      let opened : Connection Store := { committed := {} }
      match opened.executeAll faults.statement (setupCommands run) with
      -- only the database is destroyed when the constructor throws
      | .error (e, c) => (.error e, some c.close)
      | .ok c =>
          match collectAndFinish faults c collection with
          | .error (e, c) => (.error e, some (c.rollback faults.statement).close)
          | .ok (result, c) => (.ok result, some c.close)

/-- How `record_command` ends. -/
structure RecordEnd where
  outcome : Except Failure CollectionResult
  files : FileSystem

/-- `TemporaryCapsuleGuard` removes the file of a recording that throws. -/
def RecordEnd.thrown (e : Failure) (files : FileSystem) (temporaryPath : Bytes) : RecordEnd :=
  ⟨.error e, files.erase temporaryPath⟩

/-- The exit status. -/
def RecordEnd.status (r : RecordEnd) : Int32 :=
  match r.outcome with
  | .error _ => 1
  | .ok result => if result.collectorOk then result.exitCode else 1

/-- `record_command` after its arguments are read. -/
def recordCommand (faults : Faults) (files : FileSystem) (directory : Bytes) (pid : Pid)
    (run : RunMetadata) (collection : Collection) : Option RecordEnd :=
  (temporaryCapsulePath files directory run.id pid).map fun temporaryPath =>
    let (outcome, left) := writeCapsule faults run collection
    let written :=
      match left with
      | none => files
      | some store => files.insert temporaryPath (.capsule store)
    match outcome with
    | .error e => .thrown e written temporaryPath
    | .ok result =>
        match publishCapsule faults.copyFile written temporaryPath (capsulePath run) with
        | (.error e, files) => .thrown e files temporaryPath
        | (.ok (), files) => ⟨.ok result, files⟩

end Whyrun
