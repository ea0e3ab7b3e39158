import Mathlib.Logic.Function.Basic
import Whyrun.Model.Session

/-!
`ExecutionState` of `src/execution_state.cpp`: the process table, the
thread map and the active command, and how the notifications of the
collector change them and emit events. The decoding of system calls is in
`Whyrun.Model.Syscalls`.

The maps of the source are functions to `Option`. What the source reads
from `/proc` is part of the notification.
-/

namespace Whyrun

open ByteText

inductive ResourceType
  | file
  | socket
  | pipe
  | unknown
  deriving DecidableEq, Repr

structure Resource where
  type : ResourceType
  name : Bytes
  isDirectory : Bool
  deriving DecidableEq

structure ProcessState where
  pid : Pid
  parentPid : Pid := 0
  executable : Bytes := []
  cwd : Bytes := []
  commandId : Option UInt64 := none
  fdTable : Int32 → Option Resource := fun _ => none

structure ActiveCommand where
  id : UInt64
  firstProcessNs : Option UInt64
  started : Bool
  deriving DecidableEq

structure ExecutionState where
  processes : Pid → Option ProcessState := fun _ => none
  threadToProcess : Pid → Option Pid := fun _ => none
  activeCommand : Option ActiveCommand := none
  rootPid : Pid := 0

/-! ### Parts of notifications and events -/

/-- What `read_proc_link` returns for the `cwd` and `exe` links of a task;
empty when the link cannot be read. -/
structure ProcLinks where
  cwd : Bytes
  exe : Bytes
  deriving DecidableEq

def ptraceEventFork : UInt32 := 1

def ptraceEventVfork : UInt32 := 2

def ptraceEventClone : UInt32 := 3

def ptraceEventExec : UInt32 := 4

def cloneThread : UInt64 := 0x10000

def childKind (ptraceEvent : UInt32) : Bytes :=
  if ptraceEvent = ptraceEventFork then lit "fork"
  else if ptraceEvent = ptraceEventVfork then lit "vfork"
  else if ptraceEvent = ptraceEventClone then lit "clone"
  else lit "unknown"

/-- `is_thread` of `on_process_created`. -/
def isThreadCreation (ptraceEvent : UInt32) (cloneFlags : UInt64) : Bool :=
  ptraceEvent = ptraceEventClone && cloneFlags &&& cloneThread ≠ 0

/-- `term_signal == 0 ? exit_code : 128 + term_signal`. -/
def exitResult (exitCode termSignal : Int32) : Int32 :=
  if termSignal = 0 then exitCode else 128 + termSignal

def commandStartEvent (pid tid : Pid) (id : UInt64) (text cwd : Bytes)
    (timestampNs : UInt64) : Event :=
  { timestampNs, pid, tid, type := .commandStart, resource := text, result := 0,
    errnoValue := 0, commandId := some id,
    metadata := [(lit "cwd", cwd), (lit "sequence", decimal id.toNat)] }

def commandEndEvent (pid tid : Pid) (id : Option UInt64) (result : Int32) (cwd : Bytes)
    (timestampNs : UInt64) : Event :=
  { timestampNs, pid, tid, type := .commandEnd, resource := [], result := result.toInt64,
    errnoValue := 0, commandId := id, metadata := [(lit "cwd", cwd)] }

def execEvent (process : ProcessState) (tid : Pid) (executable : Bytes)
    (timestampNs : UInt64) : Event :=
  { timestampNs, pid := process.pid, tid, type := .processExec, resource := executable,
    result := 0, errnoValue := 0, commandId := none,
    metadata := [(lit "ppid", decimal process.parentPid.toInt)] }

def forkEvent (parent : ProcessState) (parentTid childTid : Pid) (ptraceEvent : UInt32)
    (timestampNs : UInt64) : Event :=
  { timestampNs, pid := parent.pid, tid := parentTid, type := .processFork,
    resource := decimal childTid.toInt, result := childTid.toInt64, errnoValue := 0,
    commandId := parent.commandId,
    metadata := [(lit "child_pid", decimal childTid.toInt),
      (lit "kind", childKind ptraceEvent), (lit "executable", parent.executable)] }

def exitEvent (process : ProcessState) (tid : Pid) (exitCode termSignal : Int32)
    (timestampNs : UInt64) : Event :=
  { timestampNs, pid := process.pid, tid, type := .processExit,
    resource := process.executable, result := (exitResult exitCode termSignal).toInt64,
    errnoValue := 0, commandId := none,
    metadata := [(lit "exit_code", decimal exitCode.toInt),
      (lit "term_signal", decimal termSignal.toInt)] }

namespace ExecutionState

def processForThread (σ : ExecutionState) (tid : Pid) : Pid :=
  (σ.threadToProcess tid).getD tid

def findProcessForThread (σ : ExecutionState) (tid : Pid) : Option ProcessState :=
  σ.processes (σ.processForThread tid)

def setProcess (σ : ExecutionState) (key : Pid) (process : ProcessState) : ExecutionState :=
  { σ with processes := Function.update σ.processes key (some process) }

def setThread (σ : ExecutionState) (tid : Pid) (process : Option Pid) : ExecutionState :=
  { σ with threadToProcess := Function.update σ.threadToProcess tid process }

/-- A command is armed and not yet started. -/
def isArmed (σ : ExecutionState) : Bool :=
  match σ.activeCommand with
  | some active => !active.started
  | none => false

def isStarted (σ : ExecutionState) : Bool :=
  match σ.activeCommand with
  | some active => active.started
  | none => false

/-- `ExecutionState::emit`: the event as it is handed to the sink. -/
def emit (σ : ExecutionState) (event : Event) : Event :=
  match event.commandId with
  | some _ => event
  | none =>
      match σ.findProcessForThread event.tid with
      | none => event
      | some process =>
          if process.pid = σ.rootPid ∧ σ.isArmed then event
          else { event with commandId := process.commandId }

/-! ### The notifications -/

/-- `ExecutionState::add_initial_process` on a fresh state. -/
def addInitialProcess (pid : Pid) (cwd : Bytes) (rootCommand : Option Bytes)
    (timestampNs : UInt64) : ExecutionState × List Event :=
  let process : ProcessState := { pid, cwd, commandId := rootCommand.map fun _ => 1 }
  let σ : ExecutionState :=
    { processes := Function.update (fun _ => none) pid (some process)
      threadToProcess := Function.update (fun _ => none) pid (some pid)
      activeCommand := rootCommand.map fun _ => ⟨1, some timestampNs, true⟩
      rootPid := pid }
  match rootCommand with
  | none => (σ, [])
  | some text => (σ, [σ.emit (commandStartEvent pid pid 1 text cwd timestampNs)])

/-- `ExecutionState::on_command_marker`. -/
def onCommandMarker (σ : ExecutionState) (tid : Pid) (marker : CommandMarker)
    (timestampNs : UInt64) : Except Failure (ExecutionState × List Event) :=
  let key := σ.processForThread tid
  match σ.processes key with
  | none => .ok (σ, [])
  | some process =>
      if process.pid ≠ σ.rootPid then .ok (σ, [])
      else
        match marker.type with
        | .arm =>
            if σ.activeCommand.isSome ∨ process.commandId.isSome then
              .error "command armed before the previous command ended"
            else
              .ok ({ σ.setProcess key { process with commandId := some marker.id } with
                activeCommand := some ⟨marker.id, none, false⟩ }, [])
        | .start =>
            match σ.activeCommand with
            | none => .error "command start marker does not match the armed command"
            | some active =>
                if active.id ≠ marker.id ∨ active.started ∨
                    process.commandId ≠ some marker.id then
                  .error "command start marker does not match the armed command"
                else
                  let σ' := { σ with activeCommand := some { active with started := true } }
                  .ok (σ', [σ'.emit (commandStartEvent process.pid tid marker.id marker.text
                    marker.cwd (active.firstProcessNs.getD timestampNs))])
        | .stop =>
            match σ.activeCommand with
            | none => .error "command end marker does not match the active command"
            | some active =>
                if active.id ≠ marker.id ∨ !active.started ∨
                    process.commandId ≠ some marker.id then
                  .error "command end marker does not match the active command"
                else
                  .ok ({ σ.setProcess key { process with commandId := none } with
                      activeCommand := none },
                    [σ.emit (commandEndEvent process.pid tid (some marker.id) marker.exitCode
                      marker.cwd timestampNs)])

/-- `ExecutionState::on_process_exec`. -/
def onProcessExec (σ : ExecutionState) (tid : Pid) (links : ProcLinks)
    (timestampNs : UInt64) : ExecutionState × List Event :=
  let σ :=
    match σ.findProcessForThread tid with
    | some _ => σ
    | none => (σ.setProcess tid { pid := tid, cwd := links.cwd }).setThread tid (some tid)
  let executable := if links.exe = [] then lit "<unknown>" else links.exe
  let key := σ.processForThread tid
  match σ.processes key with
  | none => (σ, [])
  | some process =>
      let σ := σ.setProcess key { process with executable }
      (σ, [σ.emit (execEvent process tid executable timestampNs)])

/-- The first process that the root forks while a command is armed dates
the command's start. -/
def noteFirstProcess (σ : ExecutionState) (parentPid : Pid) (timestampNs : UInt64) :
    ExecutionState :=
  match σ.activeCommand with
  | none => σ
  | some active =>
      if parentPid = σ.rootPid ∧ !active.started ∧ active.firstProcessNs = none then
        { σ with activeCommand := some { active with firstProcessNs := some timestampNs } }
      else σ

/-- `ExecutionState::on_process_created`. -/
def onProcessCreated (σ : ExecutionState) (parentTid childTid : Pid) (ptraceEvent : UInt32)
    (cloneFlags timestampNs : UInt64) : ExecutionState × List Event :=
  match σ.findProcessForThread parentTid with
  | none => (σ, [])
  | some parent =>
      if isThreadCreation ptraceEvent cloneFlags then
        (σ.setThread childTid (some parent.pid), [])
      else
        let child := { parent with pid := childTid, parentPid := parent.pid }
        let σ := (σ.setProcess childTid child).setThread childTid (some childTid)
        let σ := σ.noteFirstProcess parent.pid timestampNs
        (σ, [σ.emit (forkEvent parent parentTid childTid ptraceEvent timestampNs)])

/-- `ExecutionState::on_process_exit`. -/
def onProcessExit (σ : ExecutionState) (tid : Pid) (exitCode termSignal : Int32)
    (timestampNs : UInt64) : ExecutionState × List Event :=
  if tid ≠ σ.processForThread tid then (σ.setThread tid none, [])
  else
    match σ.processes tid with
    | none => (σ, [])
    | some process =>
        let isRoot := process.pid = σ.rootPid
        let process :=
          if isRoot ∧ σ.isArmed then { process with commandId := none } else process
        let σ := σ.setProcess tid process
        let exit := σ.emit (exitEvent process tid exitCode termSignal timestampNs)
        if isRoot then
          if σ.isStarted ∧ process.commandId.isSome then
            ({ σ.setProcess tid { process with commandId := none } with
                activeCommand := none }.setThread tid none,
              [exit, σ.emit (commandEndEvent process.pid tid process.commandId
                (exitResult exitCode termSignal) process.cwd timestampNs)])
          else ({ σ with activeCommand := none }.setThread tid none, [exit])
        else (σ.setThread tid none, [exit])

def forgetThread (σ : ExecutionState) (tid : Pid) : ExecutionState := σ.setThread tid none

end ExecutionState

end Whyrun
