import Whyrun.Library.LexicalPath
import Whyrun.Model.ExecutionState

/-!
The decoding of finished system calls in `src/execution_state.cpp`: paths,
socket endpoints and `ExecutionState::on_syscall_exit`. Numbers and
constants are those of Linux on x86_64.
-/

namespace Whyrun

open ByteText

/-- Tracee memory as the collector can read it at one stop. A successful
`readBytes` delivers exactly the requested number of bytes. -/
structure TraceeMemory where
  readString : Pid → UInt64 → Bytes
  readBytes : Pid → UInt64 → ℕ → Option Bytes
  readBytes_length : ∀ {tid address size bytes},
    readBytes tid address size = some bytes → bytes.length = size

structure RawSyscall where
  pid : Pid
  tid : Pid
  number : Int64
  args : Vector UInt64 6
  result : Int64
  timestampNs : UInt64
  deriving DecidableEq

/-- `args[0]` to `args[2]` of a call. -/
def arg0 (args : Vector UInt64 6) : UInt64 := args[0]
def arg1 (args : Vector UInt64 6) : UInt64 := args[1]
def arg2 (args : Vector UInt64 6) : UInt64 := args[2]

def nrRead : Int64 := 0
def nrWrite : Int64 := 1
def nrOpen : Int64 := 2
def nrClose : Int64 := 3
def nrDup : Int64 := 32
def nrDup2 : Int64 := 33
def nrSocket : Int64 := 41
def nrConnect : Int64 := 42
def nrFcntl : Int64 := 72
def nrChdir : Int64 := 80
def nrFchdir : Int64 := 81
def nrOpenat : Int64 := 257
def nrDup3 : Int64 := 292
def nrOpenat2 : Int64 := 437

def atFdcwd : Int32 := -100

def oDirectory : UInt64 := 0x10000

def kMaxErrno : Int64 := 4095

/-- `static_cast<int>` of an argument register. -/
def asInt (value : UInt64) : Int32 := value.toUInt32.toInt32

def syscallErrno (result : Int64) : Int32 :=
  if result < 0 ∧ -kMaxErrno ≤ result then (-result).toInt32 else 0

def unreadableAddress (address : UInt64) : Bytes :=
  lit "<unreadable@0x" ++ hexNat address.toNat ++ lit ">"

/-- `normalize_path`; `lexically_normal` is that of the C++ standard, which makes
any run of separators one. -/
def normalizePath (path : Bytes) : Bytes :=
  let normalized := LexicalPath.lexicallyNormal path
  if 1 < normalized.length ∧ normalized.getLast? = some LexicalPath.separator then
    normalized.dropLast
  else normalized

/-- `ExecutionState::resolve_path`. -/
def resolvePath (process : ProcessState) (dirfd : Int32) (path : Bytes) : Bytes :=
  if path = [] then path
  else if LexicalPath.isAbsolute path then normalizePath path
  else if dirfd = atFdcwd then normalizePath (LexicalPath.join process.cwd path)
  else
    let unresolved := lit "<dirfd:" ++ decimal dirfd.toInt ++ lit ">/" ++ path
    match process.fdTable dirfd with
    | none => unresolved
    | some resource =>
        if resource.type = .file ∧ resource.isDirectory then
          normalizePath (LexicalPath.join resource.name path)
        else unresolved

/-! ### Socket endpoints -/

def afUnix : ℕ := 1
def afInet : ℕ := 2
def afInet6 : ℕ := 10

structure SocketEndpoint where
  eventType : EventType
  resource : Bytes
  familyName : Bytes
  deriving DecidableEq

/-- The name part of an `AF_UNIX` address as shown; `path` holds the bytes
of `sun_path` that the address length covers. -/
def renderUnixName (path : Bytes) : Bytes :=
  if path = [] then lit "unix:<unnamed>"
  else
    let abstract := path.head? = some 0
    let name := if abstract then path.tail else path.takeWhile (· ≠ 0)
    let shown := name.flatMap fun b =>
      if isPrint b ∧ b ≠ 92 then [b] else lit "\\x" ++ hexPair b
    lit "unix:" ++ (if abstract then lit "@" else []) ++ shown

/-- `inet_ntop(AF_INET, …)` on four address bytes. -/
def inetNtop4 (address : Bytes) : Bytes :=
  (lit ".").intercalate (address.map fun b => decimalNat b.toNat)

/-- The 16-bit words of an address in network order. -/
def words : Bytes → List ℕ
  | high :: low :: rest => (256 * high.toNat + low.toNat) :: words rest
  | _ => []

/-- Start and length of the first longest run of zero words. -/
def zeroRun (ws : List ℕ) : ℕ × ℕ :=
  (List.range ws.length).foldl
    (fun best i =>
      let length := ((ws.drop i).takeWhile (· = 0)).length
      if best.2 < length then (i, length) else best)
    (0, 0)

/-- `inet_ntop(AF_INET6, …)` on sixteen address bytes. -/
def inetNtop6 (address : Bytes) : Bytes :=
  let ws := words address
  let hex := fun part : List ℕ => (lit ":").intercalate (part.map hexNat)
  let run := zeroRun ws
  if run.2 < 2 then hex ws
  else if run.1 = 0 ∧ (run.2 = 6 ∨ (run.2 = 5 ∧ ws.getD 5 0 = 0xffff)) then
    lit "::" ++ (if run.2 = 5 then lit "ffff:" else []) ++ inetNtop4 (address.drop 12)
  else hex (ws.take run.1) ++ lit "::" ++ hex (ws.drop (run.1 + run.2))

/-- `ntohs` of the port field at offset 2. -/
def portText (sockaddr : Bytes) : Bytes :=
  decimalNat (256 * (sockaddr.getD 2 0).toNat + (sockaddr.getD 3 0).toNat)

def socketEndpoint (memory : TraceeMemory) (tid : Pid) (address length : UInt64) :
    Option SocketEndpoint :=
  if address = 0 ∨ length.toNat < 2 then
    some ⟨.networkConnect, lit "<invalid-sockaddr>", lit "unknown"⟩
  else
    match memory.readBytes tid address 2 with
    | none => some ⟨.networkConnect, unreadableAddress address, lit "unreadable"⟩
    | some familyBytes =>
        let family := littleEndian familyBytes
        if family = afInet ∧ 16 ≤ length.toNat then
          match memory.readBytes tid address 16 with
          | none => some ⟨.networkConnect, unreadableAddress address, lit "inet"⟩
          | some value =>
              some ⟨.networkConnect,
                inetNtop4 ((value.drop 4).take 4) ++ lit ":" ++ portText value, lit "inet"⟩
        else if family = afInet6 ∧ 28 ≤ length.toNat then
          match memory.readBytes tid address 28 with
          | none => some ⟨.networkConnect, unreadableAddress address, lit "inet6"⟩
          | some value =>
              some ⟨.networkConnect,
                lit "[" ++ inetNtop6 ((value.drop 8).take 16) ++ lit "]:" ++ portText value,
                lit "inet6"⟩
        else if family = afUnix then
          match memory.readBytes tid address (min length.toNat 110) with
          | none => some ⟨.localIpcConnect, unreadableAddress address, lit "unix"⟩
          | some value => some ⟨.localIpcConnect, renderUnixName (value.drop 2), lit "unix"⟩
        else none

/-! ### Finished system calls

Each function gives the process after one kind of call and the event to
emit, before `emit` fills in the command. -/

/-- `make_event` of `on_syscall_exit`. -/
def makeEvent (process : ProcessState) (call : RawSyscall) (type : EventType)
    (resource : Bytes) (metadata : List (Bytes × Bytes)) : Event :=
  { timestampNs := call.timestampNs, pid := process.pid, tid := call.tid, type, resource,
    result := call.result, errnoValue := syscallErrno call.result, metadata,
    commandId := none }

def ProcessState.setFd (process : ProcessState) (fd : Int32) (resource : Option Resource) :
    ProcessState :=
  { process with fdTable := Function.update process.fdTable fd resource }

/-- The path argument as the event shows it when it cannot be read. -/
def readPath (memory : TraceeMemory) (tid : Pid) (address : UInt64) : Bytes :=
  let rawPath := memory.readString tid address
  if rawPath = [] then unreadableAddress address else rawPath

/-- The entry that a successful open leaves behind. -/
def installFile (process : ProcessState) (result : Int64) (path : Bytes) (flags : UInt64) :
    ProcessState :=
  if 0 ≤ result then
    process.setFd result.toInt32 (some ⟨.file, path, flags &&& oDirectory ≠ 0⟩)
  else process

def openExit (memory : TraceeMemory) (process : ProcessState) (call : RawSyscall) :
    ProcessState × Option Event :=
  let path := resolvePath process atFdcwd (readPath memory call.tid (arg0 call.args))
  -- `flags` is an `int` here; sign extension keeps the bits below 32
  let flags := asInt (arg1 call.args)
  (installFile process call.result path flags.toInt64.toUInt64,
    some (makeEvent process call .fileOpen path
      [(lit "operation", lit "open"), (lit "flags", decimal flags.toInt)]))

def openatFlags (memory : TraceeMemory) (call : RawSyscall) : UInt64 :=
  if call.number = nrOpenat2 then
    match memory.readBytes call.tid (arg2 call.args) 24 with
    | some how => UInt64.ofNat (littleEndian (how.take 8))
    | none => 0
  else arg2 call.args

def openatExit (memory : TraceeMemory) (process : ProcessState) (call : RawSyscall) :
    ProcessState × Option Event :=
  let dirfd := asInt (arg0 call.args)
  let path := resolvePath process dirfd (readPath memory call.tid (arg1 call.args))
  let flags := openatFlags memory call
  (installFile process call.result path flags,
    some (makeEvent process call .fileOpen path
      [(lit "operation", if call.number = nrOpenat then lit "openat" else lit "openat2"),
        (lit "flags", decimal flags.toNat), (lit "dirfd", decimal dirfd.toInt)]))

/-- `read` and `write`. -/
def transferExit (process : ProcessState) (call : RawSyscall) :
    ProcessState × Option Event :=
  let fd := asInt (arg0 call.args)
  match process.fdTable fd with
  | none => (process, none)
  | some resource =>
      if resource.type ≠ .file then (process, none)
      else
        let type := if call.number = nrRead then .fileRead else .fileWrite
        (process, some (makeEvent process call type resource.name
          [(lit "fd", decimal fd.toInt),
            (lit "requested_bytes", decimal (arg2 call.args).toNat)]))

def closeExit (process : ProcessState) (call : RawSyscall) : ProcessState × Option Event :=
  if call.result = 0 then (process.setFd (asInt (arg0 call.args)) none, none)
  else (process, none)

/-- `dup`, `dup2` and `dup3`. -/
def dupExit (process : ProcessState) (call : RawSyscall) : ProcessState × Option Event :=
  if call.result < 0 then (process, none)
  else (process.setFd call.result.toInt32 (process.fdTable (asInt (arg0 call.args))), none)

def socketExit (process : ProcessState) (call : RawSyscall) : ProcessState × Option Event :=
  if 0 ≤ call.result then
    (process.setFd call.result.toInt32 (some ⟨.socket, lit "<socket>", false⟩), none)
  else (process, none)

def connectExit (memory : TraceeMemory) (process : ProcessState) (call : RawSyscall) :
    ProcessState × Option Event :=
  let fd := asInt (arg0 call.args)
  match socketEndpoint memory call.tid (arg1 call.args) (arg2 call.args) with
  | none => (process, none)
  | some endpoint =>
      let event := makeEvent process call endpoint.eventType endpoint.resource
        [(lit "operation", lit "connect"), (lit "fd", decimal fd.toInt),
          (lit "family", endpoint.familyName)]
      match process.fdTable fd with
      | none => (process, some event)
      | some resource =>
          if resource.type = .socket then
            (process.setFd fd (some { resource with name := endpoint.resource }), some event)
          else (process, some event)

def chdirExit (memory : TraceeMemory) (process : ProcessState) (call : RawSyscall) :
    ProcessState × Option Event :=
  let rawPath := memory.readString call.tid (arg0 call.args)
  if rawPath ≠ [] then
    ({ process with cwd := resolvePath process atFdcwd rawPath }, none)
  else (process, none)

def fchdirExit (process : ProcessState) (call : RawSyscall) : ProcessState × Option Event :=
  match process.fdTable (asInt (arg0 call.args)) with
  | none => (process, none)
  | some resource =>
      if resource.type = .file then ({ process with cwd := resource.name }, none)
      else (process, none)

/-- The dispatch of `on_syscall_exit` on the call number. -/
def syscallExit (memory : TraceeMemory) (process : ProcessState) (call : RawSyscall) :
    ProcessState × Option Event :=
  if call.number = nrOpen then openExit memory process call
  else if call.number = nrOpenat ∨ call.number = nrOpenat2 then openatExit memory process call
  else if call.number = nrRead ∨ call.number = nrWrite then transferExit process call
  else if call.number = nrClose then closeExit process call
  else if call.number = nrDup ∨ call.number = nrDup2 ∨ call.number = nrDup3 then
    dupExit process call
  else if call.number = nrSocket then socketExit process call
  else if call.number = nrConnect then connectExit memory process call
  else if call.number = nrChdir ∧ call.result = 0 then chdirExit memory process call
  else if call.number = nrFchdir ∧ call.result = 0 then fchdirExit process call
  else (process, none)

/-- `ExecutionState::on_syscall_exit`. -/
def ExecutionState.onSyscallExit (σ : ExecutionState) (memory : TraceeMemory)
    (call : RawSyscall) : ExecutionState × List Event :=
  let key := σ.processForThread call.tid
  match σ.processes key with
  | none => (σ, [])
  | some process =>
      let (process', event) := syscallExit memory process call
      (σ.setProcess key process', event.toList.map σ.emit)

/-! ### Notifications -/

/-- The calls that the collector makes on the execution state. -/
inductive Notification
  | marker (tid : Pid) (marker : CommandMarker) (timestampNs : UInt64)
  | exec (tid : Pid) (links : ProcLinks) (timestampNs : UInt64)
  | created (parentTid childTid : Pid) (ptraceEvent : UInt32) (cloneFlags : UInt64)
      (timestampNs : UInt64)
  | exited (tid : Pid) (exitCode termSignal : Int32) (timestampNs : UInt64)
  | syscall (memory : TraceeMemory) (call : RawSyscall)

namespace Notification

/-- The task that the notification is about; for a creation, the parent. -/
def task : Notification → Pid
  | marker tid _ _ => tid
  | exec tid _ _ => tid
  | created parentTid _ _ _ _ => parentTid
  | exited tid _ _ _ => tid
  | syscall _ call => call.tid

def timestampNs : Notification → UInt64
  | marker _ _ t => t
  | exec _ _ t => t
  | created _ _ _ _ t => t
  | exited _ _ _ t => t
  | syscall _ call => call.timestampNs

end Notification

namespace ExecutionState

/-- One notification: the new state and the events handed to the sink. -/
def notify (σ : ExecutionState) :
    Notification → Except Failure (ExecutionState × List Event)
  | .marker tid marker timestampNs => σ.onCommandMarker tid marker timestampNs
  | .exec tid links timestampNs => .ok (σ.onProcessExec tid links timestampNs)
  | .created parentTid childTid ptraceEvent cloneFlags timestampNs =>
      .ok (σ.onProcessCreated parentTid childTid ptraceEvent cloneFlags timestampNs)
  | .exited tid exitCode termSignal timestampNs =>
      .ok (σ.onProcessExit tid exitCode termSignal timestampNs)
  | .syscall memory call => .ok (σ.onSyscallExit memory call)

/-- The events of a whole run that starts with `add_initial_process`. -/
def record (root : Pid) (cwd : Bytes) (rootCommand : Option Bytes) (startNs : UInt64)
    (notifications : List Notification) : Except Failure (ExecutionState × List Event) :=
  let (σ, first) := addInitialProcess root cwd rootCommand startNs
  (Transducer.run notify σ notifications).map fun r => (r.1, first ++ r.2)

end ExecutionState

end Whyrun
