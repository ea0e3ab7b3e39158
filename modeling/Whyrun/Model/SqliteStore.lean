import Whyrun.Library.Relational
import Whyrun.Model.Event

/-!
The capsule of `src/sqlite_store.cpp`: its tables and `CapsuleWriter`.
INTEGER columns hold integers; the sums of the activity tables are taken
without the 64-bit limit. An insertion that breaks a constraint throws, and
so does `std::stoll` on a text without a number that fits.
-/

namespace Whyrun

open ByteText Relational

/-- `kVersion`, the version of the project in `CMakeLists.txt`. -/
def kVersion : Bytes := lit "0.2.0"

/-- `as_i64`. -/
def asI64 (value : UInt64) : ℤ := value.toInt64.toInt

/-! ### Texts -/

def jsonEscapeByte (character : UInt8) : Bytes :=
  if character = 34 then lit "\\\""
  else if character = 92 then lit "\\\\"
  else if character = 8 then lit "\\b"
  else if character = 12 then lit "\\f"
  else if character = 10 then lit "\\n"
  else if character = 13 then lit "\\r"
  else if character = 9 then lit "\\t"
  else if character < 0x20 then lit "\\u00" ++ hexPair character
  else [character]

def jsonEscape (input : Bytes) : Bytes := input.flatMap jsonEscapeByte

/-- One entry of the object. -/
def jsonEntry (entry : Bytes × Bytes) : Bytes :=
  lit "\"" ++ jsonEscape entry.1 ++ lit "\":\"" ++ jsonEscape entry.2 ++ lit "\""

def metadataJson (metadata : List (Bytes × Bytes)) : Bytes :=
  let entries := metadata.insertionSort fun a b => a.1 < b.1 ∨ (a.1 = b.1 ∧ a.2 ≤ b.2)
  lit "\x7b" ++ (lit ",").intercalate (entries.map jsonEntry) ++ lit "\x7d"

/-- `isalnum` in the C locale. -/
def isAlnum (b : UInt8) : Bool :=
  isDigit b || (65 ≤ b && b ≤ 90) || (97 ≤ b && b ≤ 122)

def shellQuote (argument : Bytes) : Bytes :=
  if argument ≠ [] ∧ (argument.all fun b =>
      isAlnum b || b = 47 || b = 95 || b = 45 || b = 46 || b = 58) then argument
  else
    [39] ++ (argument.flatMap fun b => if b = 39 then lit "'\\''" else [b]) ++ [39]

def formatCommand (command : List Bytes) : Bytes :=
  (lit " ").intercalate (command.map shellQuote)

/-! ### Tables -/

inductive RunMode
  | command
  | session
  deriving DecidableEq, Repr

def runModeName : RunMode → Bytes
  | .command => lit "command"
  | .session => lit "session"

structure RunMetadata where
  id : Bytes
  mode : RunMode := .command
  command : List Bytes
  cwd : Bytes
  startNs : UInt64
  deriving DecidableEq

/-- The row of `runs`. -/
structure RunRow where
  id : Bytes
  mode : Bytes
  command : Bytes
  cwd : Bytes
  startNs : ℤ
  endNs : Option ℤ := none
  exitCode : Option ℤ := none
  termSignal : Option ℤ := none
  deriving DecidableEq

/-- A row of `commands` under its id. -/
structure CommandRow where
  sequence : ℤ
  shellPid : ℤ
  command : Bytes
  cwd : Bytes
  startNs : ℤ
  endNs : Option ℤ := none
  endCwd : Option Bytes := none
  exitCode : Option ℤ := none
  deriving DecidableEq

/-- A row of `processes` under its pid. -/
structure ProcessRow where
  ppid : ℤ
  executable : Bytes
  startNs : ℤ
  endNs : Option ℤ := none
  exitCode : Option ℤ := none
  termSignal : Option ℤ := none
  deriving DecidableEq

structure EventRow where
  id : ℕ
  timestampNs : ℤ
  pid : ℤ
  tid : ℤ
  type : Bytes
  resource : Bytes
  result : ℤ
  errnoValue : ℤ
  metadataJson : Bytes
  commandId : Option ℤ
  deriving DecidableEq

/-- A row of `file_activity` under its path. -/
@[ext]
structure FileActivity where
  readCalls : ℤ := 0
  writeCalls : ℤ := 0
  bytesRead : ℤ := 0
  bytesWritten : ℤ := 0
  deriving DecidableEq

/-- A row of `network_activity` under its endpoint. -/
@[ext]
structure NetworkActivity where
  connectCount : ℤ := 0
  successCount : ℤ := 0
  failureCount : ℤ := 0
  lastErrno : ℤ := 0
  deriving DecidableEq

structure Capsule where
  schemaVersion : Bytes := lit "3"
  run : RunRow
  commands : Table ℤ CommandRow := ∅
  processes : Table ℤ ProcessRow := ∅
  events : List EventRow := []
  fileActivity : Table Bytes FileActivity := ∅
  networkActivity : Table Bytes NetworkActivity := ∅

/-- `CollectionResult`. -/
structure CollectionResult where
  collectorOk : Bool := false
  exitCode : Int32 := -1
  termSignal : Int32 := 0
  endNs : UInt64 := 0
  error : Failure := ""
  deriving DecidableEq

/-! ### The writer -/

namespace CapsuleWriter

/-- The constructor of `CapsuleWriter::Impl`. -/
def create (run : RunMetadata) : Capsule where
  run :=
    { id := run.id, mode := runModeName run.mode, command := formatCommand run.command
      cwd := run.cwd, startNs := asI64 run.startNs }

/-- The row that `emit` inserts into `events`. -/
def eventRow (id : ℕ) (event : Event) : EventRow :=
  { id, timestampNs := asI64 event.timestampNs, pid := event.pid.toInt, tid := event.tid.toInt
    type := eventTypeName event.type, resource := event.resource, result := event.result.toInt
    errnoValue := event.errnoValue.toInt, metadataJson := metadataJson event.metadata
    commandId := event.commandId.map asI64 }

/-- `std::stoll` of a metadata entry. -/
def integerEntry (event : Event) (key fallback : Bytes) : Except Failure ℤ :=
  match stoll (metadataValue event key fallback) with
  | .ok value => .ok value
  | .error _ => .error "stoll"

/-- `INSERT INTO commands`: `id` is the primary key, `sequence` is unique. -/
def insertCommand (commands : Table ℤ CommandRow) (id : ℤ) (row : CommandRow) :
    Except Failure (Table ℤ CommandRow) :=
  if id ∈ commands then .error "UNIQUE constraint failed: commands.id"
  else if commands.entries.any fun other => other.2.sequence = row.sequence then
    .error "UNIQUE constraint failed: commands.sequence"
  else .ok (commands.insert id row)

/-- The row that a `CommandStart` inserts. -/
def startRow (event : Event) (sequence : ℤ) : CommandRow :=
  { sequence, shellPid := event.pid.toInt, command := event.resource
    cwd := metadataValue event (lit "cwd") [], startNs := asI64 event.timestampNs }

def startCommand (commands : Table ℤ CommandRow) (event : Event) :
    Except Failure (Table ℤ CommandRow) :=
  match event.commandId with
  | none => .error "command_start event has no command id"
  | some id => do
      let sequence ← integerEntry event (lit "sequence") (lit "0")
      insertCommand commands (asI64 id) (startRow event sequence)

/-- The columns that a `CommandEnd` sets. -/
def endRow (event : Event) (row : CommandRow) : CommandRow :=
  { row with
    endNs := some (asI64 event.timestampNs)
    endCwd := some (metadataValue event (lit "cwd") [])
    exitCode := some event.result.toInt }

def endCommand (commands : Table ℤ CommandRow) (event : Event) :
    Except Failure (Table ℤ CommandRow) :=
  match event.commandId with
  | none => .error "command_end event has no command id"
  | some id => .ok (commands.modify (asI64 id) (endRow event))

/-- The row that a read or write would insert for a new path. -/
def fileIncrement (event : Event) : FileActivity :=
  let isRead := event.type = .fileRead
  let bytes := max 0 event.result.toInt
  { readCalls := if isRead then 1 else 0, writeCalls := if isRead then 0 else 1
    bytesRead := if isRead then bytes else 0, bytesWritten := if isRead then 0 else bytes }

def addFile (excluded row : FileActivity) : FileActivity :=
  { readCalls := row.readCalls + excluded.readCalls
    writeCalls := row.writeCalls + excluded.writeCalls
    bytesRead := row.bytesRead + excluded.bytesRead
    bytesWritten := row.bytesWritten + excluded.bytesWritten }

def fileTransfer (files : Table Bytes FileActivity) (event : Event) :
    Table Bytes FileActivity :=
  files.upsert event.resource (fileIncrement event) (addFile (fileIncrement event))

/-- The row that a connect would insert for a new endpoint. -/
def connectIncrement (event : Event) : NetworkActivity :=
  { connectCount := 1
    successCount := if event.errnoValue = 0 then 1 else 0
    failureCount := if event.errnoValue = 0 then 0 else 1
    lastErrno := event.errnoValue.toInt }

def addConnect (excluded row : NetworkActivity) : NetworkActivity :=
  { connectCount := row.connectCount + 1
    successCount := row.successCount + excluded.successCount
    failureCount := row.failureCount + excluded.failureCount
    lastErrno := excluded.lastErrno }

def networkConnect (network : Table Bytes NetworkActivity) (event : Event) :
    Table Bytes NetworkActivity :=
  network.upsert event.resource (connectIncrement event) (addConnect (connectIncrement event))

def processExec (processes : Table ℤ ProcessRow) (event : Event) :
    Except Failure (Table ℤ ProcessRow) := do
  let ppid ← integerEntry event (lit "ppid") (lit "0")
  .ok (processes.upsert event.pid.toInt
    { ppid, executable := event.resource, startNs := asI64 event.timestampNs }
    fun row => { row with executable := event.resource })

def processFork (processes : Table ℤ ProcessRow) (event : Event) :
    Except Failure (Table ℤ ProcessRow) := do
  let child ← integerEntry event (lit "child_pid") (lit "0")
  .ok (processes.insertOrIgnore child
    { ppid := event.pid.toInt
      executable := metadataValue event (lit "executable") (lit "<unknown>")
      startNs := asI64 event.timestampNs })

def processExit (processes : Table ℤ ProcessRow) (event : Event) :
    Except Failure (Table ℤ ProcessRow) := do
  let exitCode ← integerEntry event (lit "exit_code") (lit "-1")
  let termSignal ← integerEntry event (lit "term_signal") (lit "0")
  .ok (processes.modify event.pid.toInt fun row =>
    { row with
      endNs := some (asI64 event.timestampNs)
      exitCode := some exitCode
      termSignal := some termSignal })

/-- `CapsuleWriter::Impl::emit`. -/
def emit (capsule : Capsule) (event : Event) : Except Failure Capsule :=
  let capsule :=
    { capsule with events := capsule.events ++ [eventRow (capsule.events.length + 1) event] }
  match event.type with
  | .commandStart =>
      (startCommand capsule.commands event).map fun commands => { capsule with commands }
  | .commandEnd =>
      (endCommand capsule.commands event).map fun commands => { capsule with commands }
  | .fileRead | .fileWrite =>
      .ok { capsule with fileActivity := fileTransfer capsule.fileActivity event }
  | .networkConnect =>
      .ok { capsule with networkActivity := networkConnect capsule.networkActivity event }
  | .processExec =>
      (processExec capsule.processes event).map fun processes => { capsule with processes }
  | .processFork =>
      (processFork capsule.processes event).map fun processes => { capsule with processes }
  | .processExit =>
      (processExit capsule.processes event).map fun processes => { capsule with processes }
  | .fileOpen | .localIpcConnect => .ok capsule

/-- The events of a recording, in the order in which the sink receives them. -/
def emitAll (capsule : Capsule) (events : List Event) : Except Failure Capsule :=
  events.foldlM emit capsule

/-- `CapsuleWriter::Impl::finish`, called once. -/
def finish (capsule : Capsule) (result : CollectionResult) : Capsule :=
  { capsule with
    run := { capsule.run with
      endNs := some (asI64 result.endNs)
      exitCode := some result.exitCode.toInt
      termSignal := some result.termSignal.toInt } }

end CapsuleWriter

end Whyrun
