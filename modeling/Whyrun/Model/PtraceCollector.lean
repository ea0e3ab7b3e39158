import Mathlib.Data.Finset.Insert
import Whyrun.Model.SqliteStore
import Whyrun.Model.Syscalls

/-!
The collector of `src/ptrace_collector.cpp`: the channel that carries command
markers, the per-thread system call state and the body of the `collect`
loop. One `Report` is what one turn of the loop can learn from the kernel:
the answer of `waitpid`, the answers to the ptrace requests of the turn, the
tracee's memory and the clock.
-/

namespace Whyrun

open ByteText

/-! ### The marker channel -/

def kMaximumCommandWrite : ℕ := 65 * 1024

/-- `F_DUPFD` and `F_DUPFD_CLOEXEC`. -/
def isDupCommand (command : UInt64) : Bool := command = 0 || command = 1030

/-- `CommandChannelTracker`: the descriptors of the root that refer to the
channel. -/
structure CommandChannelTracker where
  aliases : Finset Int32

namespace CommandChannelTracker

def create (channelFd : Option Int32) : CommandChannelTracker :=
  ⟨match channelFd with
    | none => ∅
    | some fd => {fd}⟩

def receives (tracker : CommandChannelTracker) (call : RawSyscall) : Bool :=
  call.number = nrWrite && asInt (arg0 call.args) ∈ tracker.aliases

def assignAlias (tracker : CommandChannelTracker) (fd : Int32) (isAlias : Bool) :
    CommandChannelTracker :=
  ⟨if isAlias then insert fd tracker.aliases else tracker.aliases.erase fd⟩

def observe (tracker : CommandChannelTracker) (call : RawSyscall) : CommandChannelTracker :=
  let source := asInt (arg0 call.args)
  if call.result < 0 then tracker
  else if call.number = nrClose then ⟨tracker.aliases.erase source⟩
  else if call.number = nrDup then
    tracker.assignAlias call.result.toInt32 (source ∈ tracker.aliases)
  else if call.number = nrDup2 ∨ call.number = nrDup3 then
    let destination := asInt (arg1 call.args)
    if source ≠ destination then
      tracker.assignAlias destination (source ∈ tracker.aliases)
    else tracker
  else if call.number = nrFcntl ∧ isDupCommand (arg1 call.args) then
    tracker.assignAlias call.result.toInt32 (source ∈ tracker.aliases)
  else tracker

end CommandChannelTracker

/-- What reaches the recording of a session: the root's writes to the
channel, and all other notifications. -/
inductive SessionInput
  | write (bytes : Bytes) (timestampNs : UInt64)
  | other (notification : Notification)

structure SessionState where
  protocol : CommandProtocol := {}
  execution : ExecutionState

/-- The marker path of `collect`: the bytes of a write are decoded, then
every marker is handed to the execution state. -/
def SessionState.consumeMarkers (session : SessionState) (tid : Pid) (bytes : Bytes)
    (timestampNs : UInt64) : Except Failure (SessionState × List Event) := do
  let (protocol, markers) ← session.protocol.consume bytes
  let (execution, events) ← Transducer.run ExecutionState.notify session.execution
    (markers.map fun marker => .marker tid marker timestampNs)
  .ok (⟨protocol, execution⟩, events)

def SessionState.step (root : Pid) (session : SessionState) :
    SessionInput → Except Failure (SessionState × List Event)
  | .write bytes timestampNs => session.consumeMarkers root bytes timestampNs
  | .other notification => do
      let (execution, events) ← session.execution.notify notification
      .ok ({ session with execution }, events)

/-! ### Reports -/

structure Registers where
  origRax : UInt64
  rax : UInt64
  rdi : UInt64
  rsi : UInt64
  rdx : UInt64
  r10 : UInt64
  r8 : UInt64
  r9 : UInt64
  deriving DecidableEq

/-- The answer to a ptrace request. -/
inductive Answer (α : Type)
  | ok (value : α)
  | esrch
  | failed (strerror : String)

/-- `std::strerror(errno)` of a request that did not succeed. -/
def Answer.error {α : Type} : Answer α → Option String
  | .ok _ => none
  | .esrch => some "No such process"
  | .failed strerror => some strerror

/-- What one turn of the loop can learn. `status` is the word that `waitpid`
fills in. -/
structure Report where
  tid : Pid
  status : UInt32
  setOptions : Answer Unit := .ok ()
  registers : Answer Registers := .esrch
  eventMessage : Answer UInt64 := .esrch
  resume : Answer Unit := .ok ()
  memory : TraceeMemory
  links : ProcLinks := ⟨[], []⟩
  nowNs : UInt64

namespace Report

def termSignal (report : Report) : UInt32 := report.status &&& 0x7f

def hasExited (report : Report) : Bool := report.termSignal = 0

def isStopped (report : Report) : Bool := report.status &&& 0xff = 0x7f

def isSignaled (report : Report) : Bool :=
  report.termSignal ≠ 0 && report.termSignal ≠ 0x7f

/-- `WEXITSTATUS`, and `WSTOPSIG` of a stop. -/
def highByte (report : Report) : UInt32 := (report.status >>> 8) &&& 0xff

/-- The ptrace event of a stop. -/
def event (report : Report) : UInt32 := report.status >>> 16

end Report

def sigTrap : UInt32 := 5

def sigStop : UInt32 := 19

/-- `SIGTRAP | 0x80`, the mark of a system call stop. -/
def syscallTrap : UInt32 := 0x85

/-! ### The loop -/

structure ThreadState where
  inSyscall : Bool := false
  syscallNumber : Int64 := 0
  args : Vector UInt64 6 := Vector.replicate 6 0
  deriving DecidableEq

/-- A ptrace request that acts on a tracee. -/
inductive Request
  | setOptions (tid : Pid)
  | resume (tid : Pid) (signal : UInt32)
  deriving DecidableEq

structure CollectorState where
  rootPid : Pid
  execution : ExecutionState
  protocol : CommandProtocol := {}
  channel : CommandChannelTracker
  liveTids : Finset Pid
  configuredTids : Finset Pid
  threads : Pid → Option ThreadState := fun _ => none
  result : CollectionResult := {}
  rootStatusSeen : Bool := false
  /-- The loop has left through a `return`. -/
  returned : Bool := false

/-- The work of one turn: the state after it, the calls on the execution
state in order, and the requests made. -/
structure Turn where
  state : CollectorState
  notifications : List Notification := []
  requests : List Request := []

namespace CollectorState

def setThread (σ : CollectorState) (tid : Pid) (thread : Option ThreadState) :
    CollectorState :=
  { σ with threads := Function.update σ.threads tid thread }

def fail (σ : CollectorState) (message : Failure) : CollectorState :=
  { σ with result := { σ.result with error := message }, returned := true }

/-- The branch of `WIFEXITED` and `WIFSIGNALED`. -/
def exitTurn (σ : CollectorState) (report : Report) : Turn :=
  let exitCode : Int32 := if report.hasExited then report.highByte.toInt32 else -1
  let termSignal : Int32 := if report.isSignaled then report.termSignal.toInt32 else 0
  let σ := { σ.setThread report.tid none with
    liveTids := σ.liveTids.erase report.tid
    configuredTids := σ.configuredTids.erase report.tid }
  { state :=
      if report.tid = σ.rootPid then
        { σ with
          result := { σ.result with exitCode := exitResult exitCode termSignal, termSignal }
          rootStatusSeen := true }
      else σ
    notifications := [.exited report.tid exitCode termSignal report.nowNs] }

/-- `resume_syscall`: a task that is gone counts as resumed. -/
def resumeSyscall (turn : Turn) (report : Report) (signal : UInt32) : Turn :=
  let turn := { turn with requests := turn.requests ++ [.resume report.tid signal] }
  match report.resume with
  | .failed strerror =>
      let message := "PTRACE_SYSCALL for tid " ++ toString report.tid ++ ": " ++ strerror
      { turn with state := turn.state.fail message }
  | _ => turn

/-- The registers that hold the arguments of a system call. -/
def syscallArgs (registers : Registers) : Vector UInt64 6 :=
  #v[registers.rdi, registers.rsi, registers.rdx, registers.r10, registers.r8, registers.r9]

/-- The call of which a stop shows the exit. -/
def rawSyscall (σ : CollectorState) (tid : Pid) (thread : ThreadState)
    (registers : Registers) (nowNs : UInt64) : RawSyscall :=
  { pid := σ.execution.processForThread tid, tid, number := thread.syscallNumber
    args := thread.args, result := registers.rax.toInt64, timestampNs := nowNs }

/-- The bytes of a write to the channel. -/
def channelBytes (report : Report) (call : RawSyscall) : Except Failure Bytes :=
  if kMaximumCommandWrite < call.result.toInt.toNat then
    .error "command marker write exceeds 65 KiB"
  else
    match report.memory.readBytes call.tid (arg1 call.args) call.result.toInt.toNat with
    | none => .error "cannot read command marker from tracee"
    | some bytes => .ok bytes

/-- A system call stop that the collector takes for an exit. -/
def syscallExitTurn (σ : CollectorState) (report : Report) (thread : ThreadState)
    (registers : Registers) : Except Failure Turn := do
  let call := σ.rawSyscall report.tid thread registers report.nowNs
  let (protocol, markers) ←
    if report.tid = σ.rootPid ∧ σ.channel.receives call ∧ 0 < call.result then do
      let bytes ← channelBytes report call
      σ.protocol.consume bytes
    else .ok (σ.protocol, [])
  let channel := if report.tid = σ.rootPid then σ.channel.observe call else σ.channel
  .ok
    { state := { σ.setThread report.tid (some { thread with inSyscall := false }) with
        protocol, channel }
      notifications :=
        (markers.map fun marker => .marker report.tid marker call.timestampNs) ++
          [.syscall report.memory call] }

/-- The branch of system call stops, before the tracee is resumed. -/
def syscallTurn (σ : CollectorState) (report : Report) : Except Failure Turn :=
  match report.registers with
  | .esrch => .ok { state := σ }
  | .failed strerror =>
      let message := "PTRACE_GETREGS for tid " ++ toString report.tid ++ ": " ++ strerror
      .ok { state := σ.fail message }
  | .ok registers =>
      let thread := (σ.threads report.tid).getD {}
      if !thread.inSyscall then
        .ok { state := σ.setThread report.tid (some
          { inSyscall := true, syscallNumber := registers.origRax.toInt64
            args := syscallArgs registers }) }
      else σ.syscallExitTurn report thread registers

/-- The branch of event stops, before the tracee is resumed. -/
def eventTurn (σ : CollectorState) (report : Report) : Turn :=
  if report.event = ptraceEventFork ∨ report.event = ptraceEventVfork ∨
      report.event = ptraceEventClone then
    match report.eventMessage with
    | .ok childTid =>
        let child := asInt childTid
        let cloneFlags :=
          match σ.threads report.tid with
          | none => 0
          | some thread => arg0 thread.args
        { state := { σ with liveTids := insert child σ.liveTids }
          notifications :=
            [.created report.tid child report.event cloneFlags report.nowNs] }
    | answer =>
        let message := "PTRACE_GETEVENTMSG for tid " ++ toString report.tid ++ ": " ++
          answer.error.getD ""
        { state := σ.fail message }
  else if report.event = ptraceEventExec then
    { state := σ, notifications := [.exec report.tid report.links report.nowNs] }
  else { state := σ }

/-- Options are set at the first stop of a task. -/
def configureTurn (σ : CollectorState) (report : Report) : Turn :=
  if report.tid ∈ σ.configuredTids then { state := σ }
  else
    match report.setOptions.error with
    | some strerror =>
        let message := "PTRACE_SETOPTIONS for tid " ++ toString report.tid ++ ": " ++ strerror
        { state := σ.fail message, requests := [.setOptions report.tid] }
    | none =>
        { state := { σ with configuredTids := insert report.tid σ.configuredTids }
          requests := [.setOptions report.tid] }

/-- A stop of a task whose options are set. -/
def stopTurn (σ : CollectorState) (report : Report) : Except Failure Turn :=
  if report.highByte = syscallTrap then do
    let turn ← σ.syscallTurn report
    if turn.state.returned then .ok turn else .ok (resumeSyscall turn report 0)
  else if report.highByte = sigTrap ∧ report.event ≠ 0 then
    let turn := σ.eventTurn report
    if turn.state.returned then .ok turn else .ok (resumeSyscall turn report 0)
  else
    let delivered := if report.highByte = sigStop then 0 else report.highByte
    .ok (resumeSyscall { state := σ } report delivered)

/-- The body of the loop, up to the calls on the execution state. -/
def collectTurn (σ : CollectorState) (report : Report) : Except Failure Turn :=
  if report.hasExited ∨ report.isSignaled then .ok (σ.exitTurn report)
  else if !report.isStopped then .ok { state := σ }
  else
    let configured :=
      configureTurn { σ with liveTids := insert report.tid σ.liveTids } report
    if configured.state.returned then .ok configured
    else do
      let turn ← configured.state.stopTurn report
      .ok { turn with requests := configured.requests ++ turn.requests }

/-- One turn of the loop with its calls on the execution state carried out. -/
def collectStep (σ : CollectorState) (report : Report) :
    Except Failure (CollectorState × List Event) := do
  let turn ← σ.collectTurn report
  let (execution, events) ←
    Transducer.run ExecutionState.notify turn.state.execution turn.notifications
  .ok ({ turn.state with execution }, events)

/-- The state in which the loop starts. -/
def start (root : Pid) (cwd : Bytes) (rootCommand : Option Bytes) (channelFd : Option Int32)
    (startNs : UInt64) : CollectorState × List Event :=
  let (execution, events) := ExecutionState.addInitialProcess root cwd rootCommand startNs
  ({ rootPid := root, execution, channel := .create channelFd, liveTids := {root}
     configuredTids := {root} }, events)

/-- What follows the loop. -/
def finish (σ : CollectorState) (channelFd : Option Int32) (endNs : UInt64) :
    Except Failure CollectionResult := do
  if channelFd.isSome then σ.protocol.finish
  .ok { σ.result with
    endNs
    collectorOk := σ.rootStatusSeen
    error := if σ.rootStatusSeen then σ.result.error else "root tracee status was not observed" }

/-- The loop is about to call `waitpid`. -/
def waits (σ : CollectorState) : Bool := !σ.returned && σ.liveTids ≠ ∅

/-- One report, as far as the loop still asks for it. -/
def loopStep (σ : CollectorState) (report : Report) :
    Except Failure (CollectorState × List Event) :=
  if σ.waits then σ.collectStep report else .ok (σ, [])

/-- The loop, up to `ECHILD` after the last report: the state in which it is
left, and what it has thrown. -/
def collectLoop : CollectorState → List Report → CollectorState × Option Failure
  | σ, [] => (σ, none)
  | σ, report :: reports =>
      if σ.waits then
        match σ.collectStep report with
        | .error e => ({ σ with liveTids := insert report.tid σ.liveTids }, some e)
        | .ok (σ', _) => σ'.collectLoop reports
      else (σ, none)

/-- A root in its initial stop: what the recording starts with, and the
answers to the requests before the loop. -/
structure Launch where
  root : Pid
  cwd : Bytes
  rootCommand : Option Bytes := none
  channelFd : Option Int32 := none
  startNs : UInt64
  setOptions : Answer Unit := .ok ()
  resume : Answer Unit := .ok ()

def Launch.start (launch : Launch) : CollectorState :=
  (CollectorState.start launch.root launch.cwd launch.rootCommand launch.channelFd
    launch.startNs).1

/-- `PtraceCollector::collect` from the initial stop of the root on: the
result, and the tasks that are killed, by `TraceeGuard` unless it is released
and by the branch before it. -/
def collect (launch : Launch) (reports : List Report) (endNs : UInt64) :
    Except Failure CollectionResult × Finset Pid :=
  match launch.setOptions.error with
  | some strerror =>
      let error := "PTRACE_SETOPTIONS for tid " ++ toString launch.root ++ ": " ++ strerror
      (.ok { error }, {launch.root})
  | none =>
      match launch.resume with
      | .failed strerror =>
          let error := "PTRACE_SYSCALL for tid " ++ toString launch.root ++ ": " ++ strerror
          (.ok { error }, launch.start.liveTids)
      | _ =>
          match launch.start.collectLoop reports with
          | (σ, some e) => (.error e, σ.liveTids)
          | (σ, none) =>
              if σ.returned then (.ok σ.result, σ.liveTids)
              else
                match σ.finish launch.channelFd endNs with
                | .error e => (.error e, σ.liveTids)
                | .ok result => (.ok result, ∅)

end CollectorState

end Whyrun
