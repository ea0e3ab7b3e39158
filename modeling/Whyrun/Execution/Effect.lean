import Whyrun.Model.Syscalls

/-!
What one notification can do to the execution state. `Effect` lists the
cases with their guards, the resulting state and the events as the sink
receives them; `notify_effect` is the only place where the notification
handlers are unfolded. Every invariant of runs is a case analysis on it.
-/

namespace Whyrun

open ByteText

namespace ExecutionState

/-! ### Reading an updated state -/

@[simp] theorem processes_setProcess (σ : ExecutionState) (key k : Pid) (P : ProcessState) :
    (σ.setProcess key P).processes k = if k = key then some P else σ.processes k := by
  by_cases h : k = key
  · subst h; simp [setProcess]
  · simp [setProcess, h]

@[simp] theorem threadToProcess_setProcess (σ : ExecutionState) (key : Pid)
    (P : ProcessState) : (σ.setProcess key P).threadToProcess = σ.threadToProcess := rfl

@[simp] theorem activeCommand_setProcess (σ : ExecutionState) (key : Pid)
    (P : ProcessState) : (σ.setProcess key P).activeCommand = σ.activeCommand := rfl

@[simp] theorem rootPid_setProcess (σ : ExecutionState) (key : Pid) (P : ProcessState) :
    (σ.setProcess key P).rootPid = σ.rootPid := rfl

@[simp] theorem processes_setThread (σ : ExecutionState) (tid : Pid) (p : Option Pid) :
    (σ.setThread tid p).processes = σ.processes := rfl

@[simp] theorem threadToProcess_setThread (σ : ExecutionState) (tid t : Pid)
    (p : Option Pid) :
    (σ.setThread tid p).threadToProcess t = if t = tid then p else σ.threadToProcess t := by
  by_cases h : t = tid
  · subst h; simp [setThread]
  · simp [setThread, h]

@[simp] theorem activeCommand_setThread (σ : ExecutionState) (tid : Pid) (p : Option Pid) :
    (σ.setThread tid p).activeCommand = σ.activeCommand := rfl

@[simp] theorem rootPid_setThread (σ : ExecutionState) (tid : Pid) (p : Option Pid) :
    (σ.setThread tid p).rootPid = σ.rootPid := rfl

@[simp] theorem processForThread_setProcess (σ : ExecutionState) (key : Pid)
    (P : ProcessState) : (σ.setProcess key P).processForThread = σ.processForThread := rfl

@[simp] theorem processForThread_setThread (σ : ExecutionState) (tid t : Pid)
    (p : Option Pid) :
    (σ.setThread tid p).processForThread t =
      if t = tid then p.getD tid else σ.processForThread t := by
  unfold processForThread
  rw [threadToProcess_setThread]
  split
  · subst_vars; rfl
  · rfl

@[simp] theorem isArmed_setProcess (σ : ExecutionState) (key : Pid) (P : ProcessState) :
    (σ.setProcess key P).isArmed = σ.isArmed := rfl

@[simp] theorem isStarted_setProcess (σ : ExecutionState) (key : Pid) (P : ProcessState) :
    (σ.setProcess key P).isStarted = σ.isStarted := rfl

theorem isStarted_eq_false_of_isArmed {σ : ExecutionState} (h : σ.isArmed = true) :
    σ.isStarted = false := by
  unfold isArmed at h
  unfold isStarted
  cases hactive : σ.activeCommand with
  | none => rfl
  | some a => simpa [hactive] using h

theorem findProcessForThread_def (σ : ExecutionState) (tid : Pid) :
    σ.findProcessForThread tid = σ.processes (σ.processForThread tid) := rfl

/-! ### The command of an event -/

/-- The command that `emit` fills in for an event of a process: none for
the root while a command is armed, else the command of the process. -/
def attribution (σ : ExecutionState) (P : ProcessState) : Option UInt64 :=
  if P.pid = σ.rootPid ∧ σ.isArmed then none else P.commandId

theorem emit_of_commandId (σ : ExecutionState) {e : Event} {id : UInt64}
    (h : e.commandId = some id) : σ.emit e = e := by
  simp [emit, h]

theorem emit_of_find (σ : ExecutionState) {e : Event} {P : ProcessState}
    (hid : e.commandId = none) (hP : σ.findProcessForThread e.tid = some P) :
    σ.emit e = { e with commandId := σ.attribution P } := by
  unfold emit attribution
  rw [hid, hP]
  dsimp only
  split
  · rw [← hid]
  · rfl

end ExecutionState

/-! ### The branches of a system call -/

theorem toInt_syscallErrno (result : Int64) :
    (syscallErrno result).toInt =
      if result.toInt < 0 ∧ -4095 ≤ result.toInt then -result.toInt else 0 := by
  have hrange : (result < 0 ∧ -kMaxErrno ≤ result) ↔
      result.toInt < 0 ∧ -4095 ≤ result.toInt := by
    rw [Int64.lt_iff_toInt_lt, Int64.le_iff_toInt_le]
    rfl
  rw [syscallErrno]
  split
  · rename_i hfailed
    obtain ⟨hneg, hlow⟩ := hrange.mp hfailed
    have hminus : (-result).toInt = -result.toInt := by
      rw [Int64.toInt_neg, Int.bmod_eq_of_le] <;> omega
    rw [if_pos ⟨hneg, hlow⟩, Int64.toInt_toInt32, hminus, Int.bmod_eq_of_le] <;> omega
  · rename_i hother
    rw [if_neg fun hfailed => hother (hrange.mpr hfailed)]
    rfl

section dispatch

variable {memory : TraceeMemory} {P : ProcessState} {call : RawSyscall}

theorem syscallExit_close (h : call.number = nrClose) :
    syscallExit memory P call = closeExit P call := by
  simp [syscallExit, h, nrClose, nrOpen, nrOpenat, nrOpenat2, nrRead, nrWrite]

theorem syscallExit_dup
    (h : call.number = nrDup ∨ call.number = nrDup2 ∨ call.number = nrDup3) :
    syscallExit memory P call = dupExit P call := by
  rcases h with h | h | h <;>
    simp [syscallExit, h, nrDup, nrDup2, nrDup3, nrClose, nrOpen, nrOpenat, nrOpenat2, nrRead,
      nrWrite]

theorem syscallExit_socket (h : call.number = nrSocket) :
    syscallExit memory P call = socketExit P call := by
  simp [syscallExit, h, nrSocket, nrDup, nrDup2, nrDup3, nrClose, nrOpen, nrOpenat, nrOpenat2,
    nrRead, nrWrite]

theorem syscallExit_chdir (h : call.number = nrChdir) (hresult : call.result = 0) :
    syscallExit memory P call = chdirExit memory P call := by
  simp [syscallExit, h, hresult, nrChdir, nrDup, nrDup2, nrDup3, nrClose, nrOpen, nrOpenat,
    nrOpenat2, nrRead, nrWrite, nrSocket, nrConnect]

theorem syscallExit_fchdir (h : call.number = nrFchdir) (hresult : call.result = 0) :
    syscallExit memory P call = fchdirExit P call := by
  simp [syscallExit, h, hresult, nrFchdir, nrChdir, nrDup, nrDup2, nrDup3, nrClose, nrOpen,
    nrOpenat, nrOpenat2, nrRead, nrWrite, nrSocket, nrConnect]

end dispatch

/-! ### System calls leave the identity of their process alone -/

@[simp] theorem ProcessState.setFd_pid (P : ProcessState) (fd : Int32)
    (r : Option Resource) : (P.setFd fd r).pid = P.pid := rfl

/-- The fields of a process that no system call changes. -/
structure SameIdentity (P P' : ProcessState) : Prop where
  pid : P'.pid = P.pid
  parentPid : P'.parentPid = P.parentPid
  executable : P'.executable = P.executable
  commandId : P'.commandId = P.commandId

theorem SameIdentity.refl (P : ProcessState) : SameIdentity P P := ⟨rfl, rfl, rfl, rfl⟩

theorem sameIdentity_setFd (P : ProcessState) (fd : Int32) (r : Option Resource) :
    SameIdentity P (P.setFd fd r) := ⟨rfl, rfl, rfl, rfl⟩

theorem sameIdentity_installFile (P : ProcessState) (result : Int64) (path : Bytes)
    (flags : UInt64) : SameIdentity P (installFile P result path flags) := by
  unfold installFile
  split
  · exact sameIdentity_setFd _ _ _
  · exact .refl P

/-- The events that a finished system call can emit. -/
def EventType.isIo : EventType → Bool
  | .fileOpen | .fileRead | .fileWrite | .networkConnect | .localIpcConnect => true
  | _ => false

theorem socketEndpoint_isIo {memory : TraceeMemory} {tid : Pid} {address length : UInt64}
    {endpoint : SocketEndpoint}
    (h : socketEndpoint memory tid address length = some endpoint) :
    endpoint.eventType = .networkConnect ∨ endpoint.eventType = .localIpcConnect := by
  unfold socketEndpoint at h
  dsimp only at h
  repeat' split at h
  all_goals first
    | (obtain rfl := Option.some.inj h; simp)
    | exact absurd h (Option.some_ne_none _).symm

/-- A finished call changes only descriptors and the working directory of
its process, and its event carries the call's own task, time and result. -/
structure SyscallSpec (P : ProcessState) (call : RawSyscall)
    (r : ProcessState × Option Event) : Prop where
  identity : SameIdentity P r.1
  event : ∀ e ∈ r.2, ∃ type resource metadata,
    type.isIo = true ∧ e = makeEvent P call type resource metadata

namespace SyscallSpec

variable {P : ProcessState} {call : RawSyscall} {P' : ProcessState}

theorem silent (h : SameIdentity P P') : SyscallSpec P call (P', none) :=
  ⟨h, by simp⟩

theorem emits (h : SameIdentity P P') {type : EventType} (htype : type.isIo = true)
    (resource : Bytes) (metadata : List (Bytes × Bytes)) :
    SyscallSpec P call (P', some (makeEvent P call type resource metadata)) := by
  refine ⟨h, fun e he => ⟨type, resource, metadata, htype, ?_⟩⟩
  simpa using he.symm

end SyscallSpec

theorem connectExit_spec (memory : TraceeMemory) (P : ProcessState) (call : RawSyscall) :
    SyscallSpec P call (connectExit memory P call) := by
  unfold connectExit
  dsimp only
  split
  · exact .silent (.refl P)
  · rename_i endpoint hendpoint
    have hio : endpoint.eventType.isIo = true := by
      rcases socketEndpoint_isIo hendpoint with h | h <;> rw [h] <;> rfl
    split
    · exact .emits (.refl P) hio _ _
    · split
      · exact .emits (sameIdentity_setFd _ _ _) hio _ _
      · exact .emits (.refl P) hio _ _

theorem transferExit_spec (P : ProcessState) (call : RawSyscall) :
    SyscallSpec P call (transferExit P call) := by
  unfold transferExit
  dsimp only
  split
  · exact .silent (.refl P)
  · split
    · exact .silent (.refl P)
    · exact .emits (.refl P) (by split <;> rfl) _ _

theorem syscallExit_spec (memory : TraceeMemory) (P : ProcessState) (call : RawSyscall) :
    SyscallSpec P call (syscallExit memory P call) := by
  unfold syscallExit
  split
  · exact .emits (sameIdentity_installFile _ _ _ _) rfl _ _
  split
  · exact .emits (sameIdentity_installFile _ _ _ _) rfl _ _
  split
  · exact transferExit_spec P call
  split
  · unfold closeExit
    split
    · exact .silent (sameIdentity_setFd _ _ _)
    · exact .silent (.refl P)
  split
  · unfold dupExit
    split
    · exact .silent (.refl P)
    · exact .silent (sameIdentity_setFd _ _ _)
  split
  · unfold socketExit
    split
    · exact .silent (sameIdentity_setFd _ _ _)
    · exact .silent (.refl P)
  split
  · exact connectExit_spec memory P call
  split
  · unfold chdirExit
    dsimp only
    split
    · exact .silent ⟨rfl, rfl, rfl, rfl⟩
    · exact .silent (.refl P)
  split
  · unfold fchdirExit
    split
    · exact .silent (.refl P)
    · split
      · exact .silent ⟨rfl, rfl, rfl, rfl⟩
      · exact .silent (.refl P)
  · exact .silent (.refl P)

/-! ### The cases of one notification -/

/-- The event of a process as the sink receives it. -/
def ExecutionState.attributed (σ : ExecutionState) (P : ProcessState) (e : Event) : Event :=
  { e with commandId := σ.attribution P }

/-- The executable that an exec records. -/
def ProcLinks.executable (links : ProcLinks) : Bytes :=
  if links.exe = [] then lit "<unknown>" else links.exe

/-- `Effect σ n σ' es`: notification `n` takes state `σ` to `σ'` and hands
the events `es` to the sink. -/
inductive Effect (σ : ExecutionState) :
    Notification → ExecutionState → List Event → Prop
  /-- A marker of a task outside the root process. -/
  | markerIgnored {tid : Pid} {m : CommandMarker} {t : UInt64}
      (other : ∀ P, σ.processes (σ.processForThread tid) = some P → P.pid ≠ σ.rootPid) :
      Effect σ (.marker tid m t) σ []
  | arm {tid : Pid} {m : CommandMarker} {t : UInt64} {P : ProcessState}
      (found : σ.processes (σ.processForThread tid) = some P) (root : P.pid = σ.rootPid)
      (type : m.type = .arm) (idle : σ.activeCommand = none) (free : P.commandId = none) :
      Effect σ (.marker tid m t)
        { σ.setProcess (σ.processForThread tid) { P with commandId := some m.id } with
          activeCommand := some ⟨m.id, none, false⟩ } []
  | start {tid : Pid} {m : CommandMarker} {t : UInt64} {P : ProcessState}
      {a : ActiveCommand}
      (found : σ.processes (σ.processForThread tid) = some P) (root : P.pid = σ.rootPid)
      (type : m.type = .start) (active : σ.activeCommand = some a) (id : a.id = m.id)
      (armed : a.started = false) (held : P.commandId = some m.id) :
      Effect σ (.marker tid m t)
        { σ with activeCommand := some { a with started := true } }
        [commandStartEvent P.pid tid m.id m.text m.cwd (a.firstProcessNs.getD t)]
  | stop {tid : Pid} {m : CommandMarker} {t : UInt64} {P : ProcessState}
      {a : ActiveCommand}
      (found : σ.processes (σ.processForThread tid) = some P) (root : P.pid = σ.rootPid)
      (type : m.type = .stop) (active : σ.activeCommand = some a) (id : a.id = m.id)
      (started : a.started = true) (held : P.commandId = some m.id) :
      Effect σ (.marker tid m t)
        { σ.setProcess (σ.processForThread tid) { P with commandId := none } with
          activeCommand := none }
        [commandEndEvent P.pid tid (some m.id) m.exitCode m.cwd t]
  | exec {tid : Pid} {links : ProcLinks} {t : UInt64} {P : ProcessState}
      (found : σ.processes (σ.processForThread tid) = some P) :
      Effect σ (.exec tid links t)
        (σ.setProcess (σ.processForThread tid) { P with executable := links.executable })
        [σ.attributed P (execEvent P tid links.executable t)]
  /-- An exec of a task whose process is not in the table. -/
  | execDiscovered {tid : Pid} {links : ProcLinks} {t : UInt64}
      (unknown : σ.processes (σ.processForThread tid) = none) :
      Effect σ (.exec tid links t)
        ((σ.setProcess tid { pid := tid, cwd := links.cwd, executable := links.executable
          }).setThread tid (some tid))
        [execEvent { pid := tid } tid links.executable t]
  | createdUnknown {parentTid childTid : Pid} {ev : UInt32} {flags t : UInt64}
      (unknown : σ.processes (σ.processForThread parentTid) = none) :
      Effect σ (.created parentTid childTid ev flags t) σ []
  | createdThread {parentTid childTid : Pid} {ev : UInt32} {flags t : UInt64}
      {P : ProcessState}
      (found : σ.processes (σ.processForThread parentTid) = some P)
      (thread : isThreadCreation ev flags = true) :
      Effect σ (.created parentTid childTid ev flags t)
        (σ.setThread childTid (some P.pid)) []
  | createdProcess {parentTid childTid : Pid} {ev : UInt32} {flags t : UInt64}
      {P : ProcessState}
      (found : σ.processes (σ.processForThread parentTid) = some P)
      (process : isThreadCreation ev flags = false) :
      Effect σ (.created parentTid childTid ev flags t)
        (((σ.setProcess childTid { P with pid := childTid, parentPid := P.pid }).setThread
          childTid (some childTid)).noteFirstProcess P.pid t)
        [forkEvent P parentTid childTid ev t]
  | exitedThread {tid : Pid} {code signal : Int32} {t : UInt64}
      (thread : σ.processForThread tid ≠ tid) :
      Effect σ (.exited tid code signal t) (σ.setThread tid none) []
  | exitedUnknown {tid : Pid} {code signal : Int32} {t : UInt64}
      (leader : σ.processForThread tid = tid) (unknown : σ.processes tid = none) :
      Effect σ (.exited tid code signal t) σ []
  | exited {tid : Pid} {code signal : Int32} {t : UInt64} {P : ProcessState}
      (leader : σ.processForThread tid = tid) (found : σ.processes tid = some P)
      (notRoot : P.pid ≠ σ.rootPid) :
      Effect σ (.exited tid code signal t) ((σ.setProcess tid P).setThread tid none)
        [σ.attributed P (exitEvent P tid code signal t)]
  /-- The root exits while its command runs. -/
  | exitedRunning {tid : Pid} {code signal : Int32} {t : UInt64} {P : ProcessState}
      {id : UInt64}
      (leader : σ.processForThread tid = tid) (found : σ.processes tid = some P)
      (root : P.pid = σ.rootPid) (started : σ.isStarted = true)
      (held : P.commandId = some id) :
      Effect σ (.exited tid code signal t)
        ({ σ.setProcess tid { P with commandId := none } with
          activeCommand := none }.setThread tid none)
        [σ.attributed P (exitEvent P tid code signal t),
          commandEndEvent P.pid tid (some id) (exitResult code signal) P.cwd t]
  /-- The root exits with no command, or with one that is only armed. -/
  | exitedIdle {tid : Pid} {code signal : Int32} {t : UInt64} {P : ProcessState}
      (leader : σ.processForThread tid = tid) (found : σ.processes tid = some P)
      (root : P.pid = σ.rootPid) (idle : σ.isStarted = true → P.commandId = none) :
      Effect σ (.exited tid code signal t)
        ({ σ.setProcess tid (if σ.isArmed then { P with commandId := none } else P) with
          activeCommand := none }.setThread tid none)
        [σ.attributed P (exitEvent P tid code signal t)]
  | syscallUnknown {memory : TraceeMemory} {call : RawSyscall}
      (unknown : σ.processes (σ.processForThread call.tid) = none) :
      Effect σ (.syscall memory call) σ []
  | syscall {memory : TraceeMemory} {call : RawSyscall} {P : ProcessState}
      (found : σ.processes (σ.processForThread call.tid) = some P) :
      Effect σ (.syscall memory call)
        (σ.setProcess (σ.processForThread call.tid) (syscallExit memory P call).1)
        ((syscallExit memory P call).2.toList.map (σ.attributed P))

namespace ExecutionState

variable {σ σ' : ExecutionState} {es : List Event}

theorem onCommandMarker_effect {tid : Pid} {m : CommandMarker} {t : UInt64}
    (h : σ.onCommandMarker tid m t = .ok (σ', es)) : Effect σ (.marker tid m t) σ' es := by
  unfold onCommandMarker at h
  dsimp only at h
  cases hfound : σ.processes (σ.processForThread tid) with
  | none =>
      simp only [hfound, Except.ok.injEq, Prod.mk.injEq] at h
      obtain ⟨rfl, rfl⟩ := h
      exact .markerIgnored (by simp [hfound])
  | some P =>
      simp only [hfound] at h
      split at h
      · rename_i hroot
        simp only [Except.ok.injEq, Prod.mk.injEq] at h
        obtain ⟨rfl, rfl⟩ := h
        exact .markerIgnored (by simp [hfound, hroot])
      · rename_i hroot
        rw [not_not] at hroot
        cases htype : m.type with
        | arm =>
            simp only [htype] at h
            split at h
            · contradiction
            · rename_i hidle
              simp only [not_or, Option.not_isSome_iff_eq_none] at hidle
              simp only [Except.ok.injEq, Prod.mk.injEq] at h
              obtain ⟨rfl, rfl⟩ := h
              exact .arm hfound hroot htype hidle.1 hidle.2
        | start =>
            cases hactive : σ.activeCommand with
            | none => simp [htype, hactive] at h
            | some a =>
                simp only [htype, hactive] at h
                split at h
                · contradiction
                · rename_i hmatch
                  simp only [not_or, not_not, Bool.not_eq_true] at hmatch
                  simp only [Except.ok.injEq, Prod.mk.injEq] at h
                  obtain ⟨rfl, rfl⟩ := h
                  rw [emit_of_commandId _ (e := commandStartEvent ..) rfl]
                  exact .start hfound hroot htype hactive hmatch.1 hmatch.2.1 hmatch.2.2
        | stop =>
            cases hactive : σ.activeCommand with
            | none => simp [htype, hactive] at h
            | some a =>
                simp only [htype, hactive] at h
                split at h
                · contradiction
                · rename_i hmatch
                  simp only [Bool.not_eq_true', not_or, not_not, Bool.not_eq_false] at hmatch
                  simp only [Except.ok.injEq, Prod.mk.injEq] at h
                  obtain ⟨rfl, rfl⟩ := h
                  rw [emit_of_commandId _ (e := commandEndEvent ..) rfl]
                  exact .stop hfound hroot htype hactive hmatch.1 hmatch.2.1 hmatch.2.2

theorem setProcess_setThread_setProcess (σ : ExecutionState) (key tid : Pid)
    (P Q : ProcessState) (p : Option Pid) :
    ((σ.setProcess key P).setThread tid p).setProcess key Q =
      (σ.setProcess key Q).setThread tid p := by
  simp [setProcess, setThread]

theorem setProcess_setProcess (σ : ExecutionState) (key : Pid) (P Q : ProcessState) :
    (σ.setProcess key P).setProcess key Q = σ.setProcess key Q := by
  simp [setProcess]

theorem onProcessExec_effect {tid : Pid} {links : ProcLinks} {t : UInt64}
    (h : σ.onProcessExec tid links t = (σ', es)) : Effect σ (.exec tid links t) σ' es := by
  unfold onProcessExec at h
  cases hfound : σ.processes (σ.processForThread tid) with
  | some P =>
      simp only [findProcessForThread_def, hfound, Prod.mk.injEq] at h
      obtain ⟨rfl, rfl⟩ := h
      rw [emit_of_find _ rfl (P := { P with executable := links.executable })
        (by simp [findProcessForThread_def, execEvent, ProcLinks.executable])]
      exact .exec hfound
  | none =>
      simp only [findProcessForThread_def, hfound, processForThread_setThread, if_true,
        Option.getD_some, processes_setThread, processes_setProcess,
        setProcess_setThread_setProcess, Prod.mk.injEq] at h
      obtain ⟨rfl, rfl⟩ := h
      rw [emit_of_find _ rfl
        (P := { pid := tid, cwd := links.cwd, executable := links.executable })
        (by simp [findProcessForThread_def, execEvent, ProcLinks.executable])]
      have hnone : ∀ τ : ExecutionState, τ.attribution
          { pid := tid, cwd := links.cwd, executable := links.executable } = none := by
        intro τ
        simp [attribution]
      rw [hnone]
      exact .execDiscovered hfound

@[simp] theorem rootPid_noteFirstProcess (σ : ExecutionState) (p : Pid) (t : UInt64) :
    (σ.noteFirstProcess p t).rootPid = σ.rootPid := by
  unfold noteFirstProcess
  repeat' split
  all_goals rfl

@[simp] theorem processes_noteFirstProcess (σ : ExecutionState) (p : Pid) (t : UInt64) :
    (σ.noteFirstProcess p t).processes = σ.processes := by
  unfold noteFirstProcess
  repeat' split
  all_goals rfl

@[simp] theorem threadToProcess_noteFirstProcess (σ : ExecutionState) (p : Pid)
    (t : UInt64) : (σ.noteFirstProcess p t).threadToProcess = σ.threadToProcess := by
  unfold noteFirstProcess
  repeat' split
  all_goals rfl

@[simp] theorem processForThread_noteFirstProcess (σ : ExecutionState) (p : Pid)
    (t : UInt64) : (σ.noteFirstProcess p t).processForThread = σ.processForThread := by
  funext tid
  simp [processForThread]

/-- A fork event carries the command of the parent, even when that is none:
the default that `emit` would fill in is then none as well. -/
theorem emit_forkEvent (σ : ExecutionState) (P : ProcessState) (parentTid childTid : Pid)
    (ev : UInt32) (t : UInt64)
    (found : σ.processes (σ.processForThread parentTid) = some P) :
    (((σ.setProcess childTid { P with pid := childTid, parentPid := P.pid }).setThread
        childTid (some childTid)).noteFirstProcess P.pid t).emit
      (forkEvent P parentTid childTid ev t) = forkEvent P parentTid childTid ev t := by
  rcases Option.eq_none_or_eq_some P.commandId with hid | ⟨id, hid⟩
  · have hfind : ∃ Q : ProcessState, Q.commandId = none ∧
        (((σ.setProcess childTid { P with pid := childTid, parentPid := P.pid }).setThread
          childTid (some childTid)).noteFirstProcess P.pid t).findProcessForThread
            parentTid = some Q := by
      by_cases hsame : parentTid = childTid
      · exact ⟨{ P with pid := childTid, parentPid := P.pid }, hid,
          by simp [findProcessForThread_def, hsame]⟩
      · by_cases hkey : σ.processForThread parentTid = childTid
        · exact ⟨{ P with pid := childTid, parentPid := P.pid }, hid,
            by simp [findProcessForThread_def, hsame, hkey]⟩
        · exact ⟨P, hid, by simp [findProcessForThread_def, hsame, hkey, found]⟩
    obtain ⟨Q, hQid, hQ⟩ := hfind
    rw [emit_of_find _ hid hQ]
    simp [attribution, hQid, forkEvent, hid]
  · exact emit_of_commandId _ hid

theorem onProcessCreated_effect {parentTid childTid : Pid} {ev : UInt32} {flags t : UInt64}
    (h : σ.onProcessCreated parentTid childTid ev flags t = (σ', es)) :
    Effect σ (.created parentTid childTid ev flags t) σ' es := by
  unfold onProcessCreated at h
  rw [findProcessForThread_def] at h
  cases hfound : σ.processes (σ.processForThread parentTid) with
  | none =>
      simp only [hfound, Prod.mk.injEq] at h
      obtain ⟨rfl, rfl⟩ := h
      exact .createdUnknown hfound
  | some P =>
      simp only [hfound] at h
      split at h
      · rename_i hthread
        simp only [Prod.mk.injEq] at h
        obtain ⟨rfl, rfl⟩ := h
        exact .createdThread hfound hthread
      · rename_i hprocess
        rw [emit_forkEvent σ P parentTid childTid ev t hfound, Prod.mk.injEq] at h
        obtain ⟨rfl, rfl⟩ := h
        exact .createdProcess hfound (Bool.not_eq_true _ ▸ hprocess)

theorem setProcess_self {key : Pid} {P : ProcessState} (h : σ.processes key = some P) :
    σ.setProcess key P = σ := by
  simp [setProcess, ← h]

theorem onProcessExit_effect {tid : Pid} {code signal : Int32} {t : UInt64}
    (h : σ.onProcessExit tid code signal t = (σ', es)) :
    Effect σ (.exited tid code signal t) σ' es := by
  unfold onProcessExit at h
  split at h
  · rename_i hthread
    simp only [Prod.mk.injEq] at h
    obtain ⟨rfl, rfl⟩ := h
    exact .exitedThread (Ne.symm hthread)
  rename_i hleader
  rw [not_not] at hleader
  cases hfound : σ.processes tid with
  | none =>
      simp only [hfound, Prod.mk.injEq] at h
      obtain ⟨rfl, rfl⟩ := h
      exact .exitedUnknown hleader.symm hfound
  | some P =>
      have hemit : ∀ Q : ProcessState, Q.pid = P.pid → Q.executable = P.executable →
          (σ.setProcess tid Q).emit (exitEvent Q tid code signal t) =
            { exitEvent P tid code signal t with commandId := σ.attribution Q } := by
        intro Q hpid hexe
        rw [emit_of_find _ rfl (P := Q)
          (by simp [findProcessForThread_def, exitEvent, ← hleader])]
        simp [exitEvent, hpid, hexe, attribution]
      simp only [hfound] at h
      -- the process after the armed command has been dropped
      generalize hcleared : (if P.pid = σ.rootPid ∧ σ.isArmed = true then
        { P with commandId := none } else P) = P' at h
      by_cases hroot : P.pid = σ.rootPid
      · by_cases harmed : σ.isArmed = true
        · have hstarted := isStarted_eq_false_of_isArmed harmed
          have hnone : σ.attribution { P with commandId := none } = σ.attribution P := by
            simp [attribution, hroot, harmed]
          rw [if_pos ⟨hroot, harmed⟩] at hcleared
          subst hcleared
          rw [hemit { P with commandId := none } rfl rfl, hnone, if_pos hroot,
            if_neg (by simp), Prod.mk.injEq] at h
          obtain ⟨rfl, rfl⟩ := h
          have heffect : Effect σ (.exited tid code signal t) _ _ :=
            .exitedIdle hleader.symm hfound hroot (by simp [hstarted])
          rw [if_pos harmed] at heffect
          exact heffect
        · rw [if_neg fun hboth => harmed hboth.2] at hcleared
          subst hcleared
          rw [hemit P rfl rfl, if_pos hroot] at h
          split at h
          · rename_i hrun
            obtain ⟨id, hid⟩ := Option.isSome_iff_exists.mp hrun.2
            rw [setProcess_setProcess, emit_of_commandId _ (e := commandEndEvent ..) hid,
              Prod.mk.injEq] at h
            obtain ⟨rfl, rfl⟩ := h
            have heffect : Effect σ (.exited tid code signal t) _ _ :=
              .exitedRunning hleader.symm hfound hroot hrun.1 hid
            rw [← hid] at heffect
            exact heffect
          · rename_i hrun
            rw [Prod.mk.injEq] at h
            obtain ⟨rfl, rfl⟩ := h
            have hidle : σ.isStarted = true → P.commandId = none := by
              intro hstarted
              simpa [hstarted] using hrun
            have heffect : Effect σ (.exited tid code signal t) _ _ :=
              .exitedIdle hleader.symm hfound hroot hidle
            rw [if_neg harmed] at heffect
            exact heffect
      · rw [if_neg fun hboth => hroot hboth.1] at hcleared
        subst hcleared
        rw [hemit P rfl rfl, if_neg hroot, Prod.mk.injEq] at h
        obtain ⟨rfl, rfl⟩ := h
        exact .exited hleader.symm hfound hroot

theorem onSyscallExit_effect {memory : TraceeMemory} {call : RawSyscall}
    (h : σ.onSyscallExit memory call = (σ', es)) :
    Effect σ (.syscall memory call) σ' es := by
  unfold onSyscallExit at h
  dsimp only at h
  cases hfound : σ.processes (σ.processForThread call.tid) with
  | none =>
      simp only [hfound, Prod.mk.injEq] at h
      obtain ⟨rfl, rfl⟩ := h
      exact .syscallUnknown hfound
  | some P =>
      simp only [hfound, Prod.mk.injEq] at h
      obtain ⟨rfl, rfl⟩ := h
      have hmap : (syscallExit memory P call).2.toList.map σ.emit =
          (syscallExit memory P call).2.toList.map (σ.attributed P) := by
        refine List.map_congr_left fun e he => ?_
        obtain ⟨type, resource, metadata, -, rfl⟩ :=
          (syscallExit_spec memory P call).event e (Option.mem_toList.mp he)
        exact emit_of_find _ rfl hfound
      rw [hmap]
      exact .syscall hfound

/-- Every notification that does not throw is one of the listed effects. -/
theorem notify_effect {n : Notification} (h : σ.notify n = .ok (σ', es)) :
    Effect σ n σ' es := by
  cases n with
  | marker tid m t => exact onCommandMarker_effect h
  | exec tid links t => exact onProcessExec_effect (Except.ok.inj h)
  | created parentTid childTid ev flags t => exact onProcessCreated_effect (Except.ok.inj h)
  | exited tid code signal t => exact onProcessExit_effect (Except.ok.inj h)
  | syscall memory call => exact onSyscallExit_effect (Except.ok.inj h)

end ExecutionState

end Whyrun
