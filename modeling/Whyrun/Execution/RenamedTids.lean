import Whyrun.Execution.Effect

/-!
Events and system calls under a renaming of tids. A task under another tid
that makes the same calls and sees the same memory does the same to its
record and emits the same events, but for the pids in them.
-/

namespace Whyrun

open ByteText ExecutionState

/-! ### Renamed events -/

section events

variable (f : Pid → Pid)

/-- A pid in decimal text. -/
def renamePidText (text : Bytes) : Bytes :=
  match fromCharsSigned (2 ^ 31) text with
  | some (value, []) => decimal (f (Int32.ofInt value)).toInt
  | _ => text

/-- The metadata whose values are pids. -/
def holdsPid (key : Bytes) : Bool := key = lit "child_pid" || key = lit "ppid"

def renameEntry (entry : Bytes × Bytes) : Bytes × Bytes :=
  if holdsPid entry.1 then (entry.1, renamePidText f entry.2) else entry

/-- The event of the task with its new tid; a fork names its child. -/
def Event.renameTids (e : Event) : Event :=
  { e with
    pid := f e.pid
    tid := f e.tid
    resource := if e.type = .processFork then renamePidText f e.resource else e.resource
    result := if e.type = .processFork then (f e.result.toInt32).toInt64 else e.result
    metadata := e.metadata.map (renameEntry f) }

def ProcessState.renameTids (P : ProcessState) : ProcessState :=
  { P with pid := f P.pid, parentPid := f P.parentPid }

variable {f}

theorem renamePidText_decimal (p : Pid) :
    renamePidText f (decimal p.toInt) = decimal (f p).toInt := by
  have hread : fromCharsSigned (2 ^ 31) (decimal p.toInt) = some (p.toInt, []) := by
    refine fromCharsSigned_eq_some_iff.mpr ⟨decimalNat p.toInt.natAbs, decimalNat_ne_nil _,
      fun b hb => isDigit_of_mem_decimalNat hb, ?_⟩
    have hlow := p.le_toInt
    have hhigh := p.toInt_lt
    rw [digitsValue_decimalNat]
    by_cases hneg : p.toInt < 0
    · refine .inr ⟨by simp [decimal, hneg], by omega, by omega⟩
    · refine .inl ⟨by simp [decimal, hneg], by omega, by omega⟩
  simp only [renamePidText, hread, Int32.ofInt_toInt]

theorem renameEntry_of_not_holdsPid {key value : Bytes} (h : holdsPid key = false) :
    renameEntry f (key, value) = (key, value) := by
  simp [renameEntry, h]

theorem renameEntry_of_holdsPid {key : Bytes} (p : Pid) (h : holdsPid key = true) :
    renameEntry f (key, decimal p.toInt) = (key, decimal (f p).toInt) := by
  simp [renameEntry, h, renamePidText_decimal]

theorem renameTids_forkEvent (P : ProcessState) (parentTid childTid : Pid) (ev : UInt32)
    (t : UInt64) :
    (forkEvent P parentTid childTid ev t).renameTids f =
      forkEvent (P.renameTids f) (f parentTid) (f childTid) ev t := by
  simp [Event.renameTids, forkEvent, ProcessState.renameTids, renamePidText_decimal,
    renameEntry_of_holdsPid childTid (show holdsPid (lit "child_pid") = true by decide),
    renameEntry_of_not_holdsPid (show holdsPid (lit "kind") = false by decide),
    renameEntry_of_not_holdsPid (show holdsPid (lit "executable") = false by decide)]

theorem renameTids_execEvent (P : ProcessState) (tid : Pid) (executable : Bytes) (t : UInt64) :
    (execEvent P tid executable t).renameTids f =
      execEvent (P.renameTids f) (f tid) executable t := by
  simp [Event.renameTids, execEvent, ProcessState.renameTids,
    renameEntry_of_holdsPid P.parentPid (show holdsPid (lit "ppid") = true by decide)]

/-- An event of a task that names no other task. -/
theorem renameTids_of_keys {e : Event} (htype : e.type ≠ .processFork)
    (hkeys : e.metadata.all fun entry => !holdsPid entry.1) :
    e.renameTids f = { e with pid := f e.pid, tid := f e.tid } := by
  have hmetadata : e.metadata.map (renameEntry f) = e.metadata := by
    rw [List.all_eq_true] at hkeys
    refine List.map_congr_left (g := id) (fun entry hentry => ?_) |>.trans (List.map_id _)
    exact renameEntry_of_not_holdsPid (by simpa using hkeys entry hentry)
  simp [Event.renameTids, htype, hmetadata]

theorem renameTids_commandStartEvent (pid tid : Pid) (id : UInt64) (text cwd : Bytes)
    (t : UInt64) :
    (commandStartEvent pid tid id text cwd t).renameTids f =
      commandStartEvent (f pid) (f tid) id text cwd t :=
  renameTids_of_keys nofun rfl

theorem renameTids_commandEndEvent (pid tid : Pid) (id : Option UInt64) (result : Int32)
    (cwd : Bytes) (t : UInt64) :
    (commandEndEvent pid tid id result cwd t).renameTids f =
      commandEndEvent (f pid) (f tid) id result cwd t :=
  renameTids_of_keys nofun rfl

theorem renameTids_exitEvent (P : ProcessState) (tid : Pid) (code signal : Int32) (t : UInt64) :
    (exitEvent P tid code signal t).renameTids f =
      exitEvent (P.renameTids f) (f tid) code signal t :=
  renameTids_of_keys nofun rfl

end events

/-! ### Renamed system calls -/

/-- The same call by the task with its new tid, which sees the same memory. -/
structure SameCall (f : Pid → Pid) (memory memory' : TraceeMemory) (call call' : RawSyscall) :
    Prop where
  tid : call'.tid = f call.tid
  number : call'.number = call.number
  args : call'.args = call.args
  result : call'.result = call.result
  timestampNs : call'.timestampNs = call.timestampNs
  readString : ∀ address, memory'.readString (f call.tid) address =
    memory.readString call.tid address
  readBytes : ∀ address size, memory'.readBytes (f call.tid) address size =
    memory.readBytes call.tid address size

section calls

variable {f : Pid → Pid} {memory memory' : TraceeMemory} {call call' : RawSyscall}
  {P : ProcessState}

theorem SameCall.makeEvent (h : SameCall f memory memory' call call') (type : EventType)
    (htype : type ≠ .processFork) (resource : Bytes) {metadata : List (Bytes × Bytes)}
    (hkeys : metadata.all fun entry => !holdsPid entry.1) :
    Whyrun.makeEvent (P.renameTids f) call' type resource metadata =
      (Whyrun.makeEvent P call type resource metadata).renameTids f := by
  rw [renameTids_of_keys htype hkeys]
  simp [Whyrun.makeEvent, ProcessState.renameTids, h.tid, h.result, h.timestampNs]

/-- What a finished call leaves and emits, under the new tids. -/
def renameOutcome (f : Pid → Pid) (r : ProcessState × Option Event) :
    ProcessState × Option Event :=
  (r.1.renameTids f, r.2.map (Event.renameTids f))

theorem resolvePath_renameTids (dirfd : Int32) (path : Bytes) :
    resolvePath (P.renameTids f) dirfd path = resolvePath P dirfd path := rfl

theorem installFile_renameTids (result : Int64) (path : Bytes) (flags : UInt64) :
    installFile (P.renameTids f) result path flags =
      (installFile P result path flags).renameTids f := by
  unfold installFile
  split <;> rfl

theorem SameCall.openExit (h : SameCall f memory memory' call call') :
    Whyrun.openExit memory' (P.renameTids f) call' =
      renameOutcome f (Whyrun.openExit memory P call) := by
  have hpath : readPath memory' call'.tid (arg0 call.args) =
      readPath memory call.tid (arg0 call.args) := by
    simp only [readPath, h.tid, h.readString]
  simp only [Whyrun.openExit, h.args, hpath, h.result, resolvePath_renameTids]
  rw [h.makeEvent .fileOpen nofun _ rfl, installFile_renameTids]
  rfl

theorem SameCall.openatExit (h : SameCall f memory memory' call call') :
    Whyrun.openatExit memory' (P.renameTids f) call' =
      renameOutcome f (Whyrun.openatExit memory P call) := by
  have hpath : readPath memory' call'.tid (arg1 call.args) =
      readPath memory call.tid (arg1 call.args) := by
    simp only [readPath, h.tid, h.readString]
  have hflags : openatFlags memory' call' = openatFlags memory call := by
    simp only [openatFlags, h.number, h.args, h.tid, h.readBytes]
  simp only [Whyrun.openatExit, h.args, hpath, hflags, h.number, h.result, resolvePath_renameTids]
  rw [h.makeEvent .fileOpen nofun _ rfl, installFile_renameTids]
  rfl

theorem SameCall.transferExit (h : SameCall f memory memory' call call') :
    Whyrun.transferExit (P.renameTids f) call' =
      renameOutcome f (Whyrun.transferExit P call) := by
  have htable : (P.renameTids f).fdTable = P.fdTable := rfl
  simp only [Whyrun.transferExit, h.args, h.number, htable]
  split
  · rfl
  · split
    · rfl
    · split
      · rw [h.makeEvent .fileRead nofun _ rfl]
        rfl
      · rw [h.makeEvent .fileWrite nofun _ rfl]
        rfl

theorem SameCall.connectExit (h : SameCall f memory memory' call call') :
    Whyrun.connectExit memory' (P.renameTids f) call' =
      renameOutcome f (Whyrun.connectExit memory P call) := by
  have htable : (P.renameTids f).fdTable = P.fdTable := rfl
  have hendpoint : socketEndpoint memory' call'.tid (arg1 call.args) (arg2 call.args) =
      socketEndpoint memory call.tid (arg1 call.args) (arg2 call.args) := by
    simp only [socketEndpoint, h.tid, h.readBytes]
  simp only [Whyrun.connectExit, h.args, hendpoint, htable]
  split
  · rfl
  · rename_i endpoint hendpoint
    have htype : endpoint.eventType ≠ .processFork := by
      rcases socketEndpoint_isIo hendpoint with hio | hio <;> rw [hio] <;> nofun
    rw [h.makeEvent endpoint.eventType htype _ rfl]
    split
    · rfl
    · split <;> rfl

theorem SameCall.chdirExit (h : SameCall f memory memory' call call') :
    Whyrun.chdirExit memory' (P.renameTids f) call' =
      renameOutcome f (Whyrun.chdirExit memory P call) := by
  simp only [Whyrun.chdirExit, h.args, h.tid, h.readString, resolvePath_renameTids]
  split <;> rfl

theorem SameCall.fchdirExit (h : SameCall f memory memory' call call') :
    Whyrun.fchdirExit (P.renameTids f) call' = renameOutcome f (Whyrun.fchdirExit P call) := by
  have htable : (P.renameTids f).fdTable = P.fdTable := rfl
  simp only [Whyrun.fchdirExit, h.args, htable]
  split
  · rfl
  · split <;> rfl

/-- A finished call does the same to the record under the new tids. -/
theorem SameCall.syscallExit (h : SameCall f memory memory' call call') :
    Whyrun.syscallExit memory' (P.renameTids f) call' =
      renameOutcome f (Whyrun.syscallExit memory P call) := by
  have htable : (P.renameTids f).fdTable = P.fdTable := rfl
  unfold Whyrun.syscallExit
  simp only [h.number, h.result]
  split
  · exact h.openExit
  split
  · exact h.openatExit
  split
  · exact h.transferExit
  split
  · simp only [closeExit, h.result, h.args]
    split <;> rfl
  split
  · simp only [dupExit, h.result, h.args, htable]
    split <;> rfl
  split
  · simp only [socketExit, h.result]
    split <;> rfl
  split
  · exact h.connectExit
  split
  · exact h.chdirExit
  split
  · exact h.fchdirExit
  · rfl

end calls

end Whyrun
