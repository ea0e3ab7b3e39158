import Whyrun.Model.SqliteStore

/-!
`whyrun show`: the queries of `src/show.cpp` on a capsule and the text
printed for their rows. The timeline keeps a time offset as a number of
nanoseconds; the source prints it in milliseconds. `--command` is read as
in `src/main.cpp`.
-/

namespace Whyrun

open ByteText Relational

/-- The command id of `show --command`, if given. -/
abbrev CommandFilter := Option ℤ

/-- How `show_command` of `main.cpp` reads the argument of `--command`. -/
def parseCommandId (value : Bytes) : Option ℤ :=
  match fromCharsSigned (2 ^ 63) value with
  | some (commandId, []) => if commandId ≤ 0 then none else some commandId
  | _ => none

/-- `ReadStatement::text`: the column up to its first NUL. -/
def columnText (value : Bytes) : Bytes := value.takeWhile (· ≠ 0)

def errnoName (value : Int32) : Bytes :=
  if value = 13 then lit "EACCES"
  else if value = 98 then lit "EADDRINUSE"
  else if value = 99 then lit "EADDRNOTAVAIL"
  else if value = 111 then lit "ECONNREFUSED"
  else if value = 104 then lit "ECONNRESET"
  else if value = 17 then lit "EEXIST"
  else if value = 115 then lit "EINPROGRESS"
  else if value = 22 then lit "EINVAL"
  else if value = 21 then lit "EISDIR"
  else if value = 24 then lit "EMFILE"
  else if value = 101 then lit "ENETUNREACH"
  else if value = 2 then lit "ENOENT"
  else if value = 20 then lit "ENOTDIR"
  else if value = 1 then lit "EPERM"
  else if value = 32 then lit "EPIPE"
  else if value = 110 then lit "ETIMEDOUT"
  else lit "ERRNO_" ++ decimal value.toInt

def newline : Bytes := [10]

/-- `command_clause`, as a condition on a row. -/
def inCommand (commandId : CommandFilter) (row : EventRow) : Bool :=
  match commandId with
  | none => true
  | some id => row.commandId = some id

/-- The rows of `WHERE type='…'` with the command clause. -/
def rowsOfType (capsule : Capsule) (type : EventType) (commandId : CommandFilter) :
    List EventRow :=
  capsule.events.filter fun row => row.type = eventTypeName type && inCommand commandId row

/-- `COUNT(*)` over the rows with a property. -/
def countRows (rows : List EventRow) (p : EventRow → Bool) : ℤ := (rows.filter p).length

def printCommandText (command indent : Bytes) : Bytes :=
  command.flatMap fun character => if character = 10 then newline ++ indent else [character]

/-- The printed rows of a section, or a line saying that there are none. -/
def orNone (none : Bytes) (rows : List Bytes) : Bytes :=
  if rows = [] then none else rows.flatten

/-! ### Files -/

/-- A row of the file query: path, calls, bytes. -/
structure FileLine where
  path : Bytes
  calls : ℤ
  bytes : ℤ
  deriving DecidableEq

def positiveBytes (rows : List EventRow) : ℤ :=
  (rows.map fun row => if 0 < row.result then row.result else 0).sum

def groupedFileLine (rows : List EventRow) (path : Bytes) : FileLine :=
  let own := rows.filter fun row => row.resource = path
  ⟨path, own.length, positiveBytes own⟩

/-- `GROUP BY resource` over the transfers of a command. -/
def groupedFileLines (rows : List EventRow) : List FileLine :=
  (groups EventRow.resource rows).map (groupedFileLine rows)

/-- The read or write columns of `file_activity`. -/
def activityFileLine (read : Bool) (row : Bytes × FileActivity) : FileLine :=
  if read then ⟨row.1, row.2.readCalls, row.2.bytesRead⟩
  else ⟨row.1, row.2.writeCalls, row.2.bytesWritten⟩

def transferType (read : Bool) : EventType := if read then .fileRead else .fileWrite

def fileLines (capsule : Capsule) (commandId : CommandFilter) (read : Bool) : List FileLine :=
  match commandId with
  | some _ => groupedFileLines (rowsOfType capsule (transferType read) commandId)
  | none =>
      ((orderedRows capsule.fileActivity).map (activityFileLine read)).filter fun line =>
        0 < line.calls

def printFileLine (line : FileLine) : Bytes :=
  lit "    " ++ columnText line.path ++ lit " (" ++ decimal line.calls ++ lit " calls, " ++
    decimal line.bytes ++ lit " bytes)" ++ newline

def showFiles (capsule : Capsule) (commandId : CommandFilter) : Bytes :=
  let part := fun read : Bool =>
    lit "  " ++ (if read then lit "READ" else lit "WRITE") ++ newline ++
      orNone (lit "    none" ++ newline)
        ((fileLines capsule commandId read).map printFileLine) ++ newline
  lit "Files" ++ newline ++ part true ++ part false

/-! ### Network -/

/-- A row of the network query: endpoint, attempts, successes, failures and
last error. -/
structure NetworkLine where
  endpoint : Bytes
  attempts : ℤ
  succeeded : ℤ
  failed : ℤ
  lastErrno : ℤ
  deriving DecidableEq

/-- `ORDER BY timestamp_ns DESC, id DESC LIMIT 1`. -/
def latestRow (rows : List EventRow) : Option EventRow :=
  rows.foldl
    (fun best row =>
      match best with
      | none => some row
      | some other =>
          if other.timestampNs < row.timestampNs ∨
              (other.timestampNs = row.timestampNs ∧ other.id < row.id) then some row
          else some other)
    none

def groupedNetworkLine (rows : List EventRow) (endpoint : Bytes) : NetworkLine :=
  let own := rows.filter fun row => row.resource = endpoint
  { endpoint, attempts := own.length
    succeeded := countRows own fun row => row.errnoValue = 0
    failed := countRows own fun row => 0 < row.errnoValue
    lastErrno := ((latestRow own).map EventRow.errnoValue).getD 0 }

/-- `GROUP BY resource` over the connects of a command. -/
def groupedNetworkLines (rows : List EventRow) : List NetworkLine :=
  (groups EventRow.resource rows).map (groupedNetworkLine rows)

def activityNetworkLine (row : Bytes × NetworkActivity) : NetworkLine :=
  ⟨row.1, row.2.connectCount, row.2.successCount, row.2.failureCount, row.2.lastErrno⟩

def networkLines (capsule : Capsule) (commandId : CommandFilter) : List NetworkLine :=
  match commandId with
  | some _ => groupedNetworkLines (rowsOfType capsule .networkConnect commandId)
  | none => (orderedRows capsule.networkActivity).map activityNetworkLine

def printNetworkLine (line : NetworkLine) : Bytes :=
  lit "  " ++ columnText line.endpoint ++ lit " (" ++ decimal line.attempts ++
    lit " attempts, " ++ decimal line.succeeded ++ lit " succeeded, " ++
    decimal line.failed ++ lit " failed" ++
    (if line.lastErrno ≠ 0 then
      lit ", last " ++ errnoName (Int32.ofInt line.lastErrno) else []) ++
    lit ")" ++ newline

def showNetwork (capsule : Capsule) (commandId : CommandFilter) : Bytes :=
  lit "Network" ++ newline ++
    orNone (lit "  none" ++ newline)
      ((networkLines capsule commandId).map printNetworkLine) ++ newline

/-! ### Local IPC and errors -/

def printLocalIpcLine (rows : List EventRow) (resource : Bytes) : Bytes :=
  let own := rows.filter fun row => row.resource = resource
  lit "  " ++ columnText resource ++ lit " (" ++ decimal own.length ++ lit " attempts, " ++
    decimal (countRows own fun row => row.errnoValue = 0) ++ lit " succeeded, " ++
    decimal (countRows own fun row => 0 < row.errnoValue) ++ lit " failed)" ++ newline

def showLocalIpc (capsule : Capsule) (commandId : CommandFilter) : Bytes :=
  let rows := rowsOfType capsule .localIpcConnect commandId
  lit "Local IPC" ++ newline ++
    orNone (lit "  none" ++ newline)
      ((groups EventRow.resource rows).map (printLocalIpcLine rows)) ++ newline

/-- The grouping columns of the error query. -/
structure ErrorKey where
  resource : Bytes
  type : Bytes
  errnoValue : ℤ
  deriving DecidableEq

/-- The order by resource, then type, then error number. -/
instance : LE ErrorKey where
  le a b := a.resource < b.resource ∨ (a.resource = b.resource ∧
    (a.type < b.type ∨ (a.type = b.type ∧ a.errnoValue ≤ b.errnoValue)))

instance : DecidableLE ErrorKey := fun a b =>
  inferInstanceAs (Decidable (a.resource < b.resource ∨ (a.resource = b.resource ∧
    (a.type < b.type ∨ (a.type = b.type ∧ a.errnoValue ≤ b.errnoValue)))))

def errorKey (row : EventRow) : ErrorKey := ⟨row.resource, row.type, row.errnoValue⟩

/-- The operation shown for an event type: `connect`, or what follows the
first underscore. -/
def operationName (type : Bytes) : Bytes :=
  if (lit "_connect").isSuffixOf type then lit "connect"
  else if type.contains 95 then (type.dropWhile (· ≠ 95)).tail
  else type

def printErrorLine (rows : List EventRow) (key : ErrorKey) : Bytes :=
  let times := (rows.filter fun row => errorKey row = key).length
  lit "  " ++ columnText key.resource ++ newline ++ lit "    " ++
    operationName (columnText key.type) ++ lit " -> " ++
    errnoName (Int32.ofInt key.errnoValue) ++
    (if 1 < times then lit " (" ++ decimal times ++ lit " times)" else []) ++ newline

def showErrors (capsule : Capsule) (commandId : CommandFilter) : Bytes :=
  let rows := capsule.events.filter fun row =>
    0 < row.errnoValue && inCommand commandId row
  lit "Errors" ++ newline ++
    orNone (lit "  none" ++ newline) ((groups errorKey rows).map (printErrorLine rows)) ++
    newline

/-! ### Commands, processes and headers -/

def exitText (exitCode : Option ℤ) : Bytes :=
  match exitCode with
  | none => lit " (incomplete)"
  | some code => lit " (exit " ++ decimal code ++ lit ")"

/-- `ORDER BY sequence`. -/
def commandsBySequence (capsule : Capsule) : List CommandRow :=
  (capsule.commands.entries.map fun entry => entry.2).insertionSort fun a b =>
    a.sequence ≤ b.sequence

def printCommandLine (row : CommandRow) : Bytes :=
  lit "  " ++ decimal row.sequence ++ lit "  " ++
    printCommandText (columnText row.command) (lit "     ") ++ exitText row.exitCode ++ newline

def showCommands (capsule : Capsule) : Bytes :=
  lit "Commands" ++ newline ++
    orNone (lit "  none" ++ newline) ((commandsBySequence capsule).map printCommandLine) ++
    newline

/-- What `show_command_header` prints and the start time it returns. -/
def showCommandHeader (capsule : Capsule) (commandId : ℤ) : Except Failure (Bytes × ℤ) :=
  match capsule.commands.lookup commandId with
  | none => .error ("capsule does not contain command " ++ toString commandId)
  | some row =>
      .ok (lit "Command " ++ decimal row.sequence ++ newline ++ lit "  " ++
        printCommandText (columnText row.command) (lit "  ") ++ newline ++ newline ++
        lit "Cwd" ++ newline ++ lit "  " ++ columnText row.cwd ++ newline ++ newline ++
        lit "Exit" ++ newline ++ lit "  " ++
        (match row.exitCode with
          | none => lit "incomplete"
          | some code => lit "code " ++ decimal code) ++ newline ++ newline, row.startNs)

/-- The number under `Processes`. -/
def processCount (capsule : Capsule) (commandId : CommandFilter) : ℕ :=
  match commandId with
  | none => capsule.processes.keys.length
  | some _ => ((rowsOfType capsule .processExec commandId).map EventRow.pid).dedup.length

def showProcesses (capsule : Capsule) (commandId : CommandFilter) : Bytes :=
  lit "Processes" ++ newline ++ lit "  " ++ decimal (processCount capsule commandId) ++
    newline ++ newline

/-- `statement.integer`: a NULL column reads as zero. -/
def columnInteger (value : Option ℤ) : ℤ := value.getD 0

def showRunHeader (capsule : Capsule) : Bytes × ℤ :=
  let run := capsule.run
  ((if run.mode = lit "session" then lit "Session" ++ newline ++ lit "  shell "
      else lit "Command" ++ newline ++ lit "  ") ++ columnText run.command ++ newline ++
    newline ++ lit "Exit" ++ newline ++ lit "  code " ++
    decimal (columnInteger run.exitCode) ++
    (if columnInteger run.termSignal ≠ 0 then
      lit " (signal " ++ decimal (columnInteger run.termSignal) ++ lit ")" else []) ++
    newline ++ newline, run.startNs)

/-! ### The timeline -/

/-- A printed event: its offset from the start, and the rest of the line. -/
structure TimelineLine where
  offsetNs : ℤ
  text : Bytes
  deriving DecidableEq

/-- `CASE type WHEN 'command_start' THEN 0 ELSE 1 END`. -/
def startRank (row : EventRow) : ℕ :=
  if row.type = eventTypeName .commandStart then 0 else 1

/-- `ORDER BY timestamp_ns, CASE …, id`. -/
def timelineLE (a b : EventRow) : Prop :=
  a.timestampNs < b.timestampNs ∨ (a.timestampNs = b.timestampNs ∧
    (startRank a < startRank b ∨ (startRank a = startRank b ∧ a.id ≤ b.id)))

instance : DecidableRel timelineLE := fun a b =>
  inferInstanceAs (Decidable (a.timestampNs < b.timestampNs ∨
    (a.timestampNs = b.timestampNs ∧
      (startRank a < startRank b ∨ (startRank a = startRank b ∧ a.id ≤ b.id)))))

/-- The events of the timeline in the order in which they are printed. -/
def timelineRows (capsule : Capsule) (commandId : CommandFilter) : List EventRow :=
  (capsule.events.filter (inCommand commandId)).insertionSort timelineLE

def timelineText (row : EventRow) : Bytes :=
  lit " ms pid=" ++ decimal row.pid ++ lit " tid=" ++ decimal row.tid ++ lit " " ++
    columnText row.type ++
    (if columnText row.resource ≠ [] then lit " " ++ columnText row.resource else []) ++
    lit " -> " ++ decimal row.result ++
    (if row.errnoValue ≠ 0 then
      lit " (" ++ errnoName (Int32.ofInt row.errnoValue) ++ lit ")" else []) ++ newline

def showTimeline (capsule : Capsule) (startNs : ℤ) (commandId : CommandFilter) :
    List TimelineLine :=
  (timelineRows capsule commandId).map fun row =>
    ⟨row.timestampNs - startNs, timelineText row⟩

/-! ### The whole output -/

/-- The sections that `show_capsule` prints after the header. -/
def showSections (capsule : Capsule) (commandId : CommandFilter) : Bytes :=
  showProcesses capsule commandId ++ showFiles capsule commandId ++
    showNetwork capsule commandId ++ showLocalIpc capsule commandId ++
    showErrors capsule commandId

/-- `show_capsule` on a capsule written by this version: the text up to the
timeline, and the timeline when `--events` is given. -/
def showCapsule (capsule : Capsule) (events : Bool) (commandId : CommandFilter) :
    Except Failure (Bytes × List TimelineLine) := do
  let (header, startNs) ←
    match commandId with
    | some id => showCommandHeader capsule id
    | none =>
        let (header, startNs) := showRunHeader capsule
        .ok (header ++ (if capsule.run.mode = lit "session" then showCommands capsule else []),
          startNs)
  .ok (header ++ showSections capsule commandId,
    if events then showTimeline capsule startNs commandId else [])

end Whyrun
