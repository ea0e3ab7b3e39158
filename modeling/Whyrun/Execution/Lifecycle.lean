import Whyrun.Execution.Effect

/-!
The life of a command in the event stream. The marks of a run are its
command events; the abstract machine has at most one open command, and
every notification takes one of its steps. The invariant behind it ties the
root's command to the active command for as long as the root lives.
-/

namespace Whyrun

open ByteText

namespace ExecutionState

/-- Every process of the table is stored under its own pid. -/
def Keyed (σ : ExecutionState) : Prop :=
  ∀ k P, σ.processes k = some P → P.pid = k

theorem Keyed.setProcess {σ : ExecutionState} (h : σ.Keyed) {key : Pid} {P : ProcessState}
    (hP : P.pid = key) : (σ.setProcess key P).Keyed := by
  intro k Q hQ
  rw [processes_setProcess] at hQ
  split at hQ
  · obtain rfl := Option.some.inj hQ
    rw [hP]
    exact Eq.symm ‹_›
  · exact h k Q hQ

end ExecutionState

open ExecutionState

variable {σ σ' : ExecutionState} {n : Notification} {es : List Event}

theorem Effect.keyed (he : Effect σ n σ' es) (h : σ.Keyed) : σ'.Keyed := by
  cases he with
  | markerIgnored | createdUnknown | createdThread | exitedThread | exitedUnknown
    | syscallUnknown => exact h
  | start => exact h
  | arm found | stop found | exec found =>
      have hpid := h _ _ found
      exact h.setProcess hpid
  | execDiscovered => exact h.setProcess rfl
  | createdProcess =>
      intro k Q hQ
      rw [processes_noteFirstProcess, processes_setThread, processes_setProcess] at hQ
      split at hQ
      · obtain rfl := Option.some.inj hQ
        exact Eq.symm ‹_›
      · exact h k Q hQ
  | exited leader found | exitedRunning leader found =>
      have hpid := h _ _ found
      exact h.setProcess hpid
  | exitedIdle leader found =>
      have hpid := h _ _ found
      refine h.setProcess ?_
      split <;> exact hpid
  | @syscall memory call P found =>
      exact h.setProcess ((syscallExit_spec memory P call).identity.pid.trans (h _ _ found))

theorem Effect.rootPid (he : Effect σ n σ' es) : σ'.rootPid = σ.rootPid := by
  cases he <;> simp

/-! ### The abstract machine -/

/-- The command events of a stream: type and command. -/
def marks (es : List Event) : List (EventType × Option UInt64) :=
  (es.filter Event.isCommandMark).map fun e => (e.type, e.commandId)

@[simp] theorem marks_nil : marks [] = [] := rfl

@[simp] theorem marks_append (es es' : List Event) : marks (es ++ es') = marks es ++ marks es' := by
  simp [marks]

theorem marks_cons (e : Event) (es : List Event) :
    marks (e :: es) =
      (if e.isCommandMark then [(e.type, e.commandId)] else []) ++ marks es := by
  by_cases h : e.isCommandMark <;> simp [marks, h]

/-- A step of the machine whose state is the open command. -/
inductive MarkStep : Option UInt64 → List (EventType × Option UInt64) → Option UInt64 → Prop
  | quiet (o : Option UInt64) : MarkStep o [] o
  | start (id : UInt64) : MarkStep none [(.commandStart, some id)] (some id)
  | stop (id : UInt64) : MarkStep (some id) [(.commandEnd, some id)] none

/-- A start and the end of the same command. -/
def commandPair (id : UInt64) : List (EventType × Option UInt64) :=
  [(.commandStart, some id), (.commandEnd, some id)]

/-- The marks of the finished commands `ids`, then the start of the open one. -/
def Alternates (ms : List (EventType × Option UInt64)) (o : Option UInt64) : Prop :=
  ∃ ids : List UInt64, ms = ids.flatMap commandPair ++
    o.toList.map fun id => (.commandStart, some id)

theorem Alternates.nil : Alternates [] none := ⟨[], rfl⟩

theorem Alternates.step {ms ms' : List (EventType × Option UInt64)} {o o' : Option UInt64}
    (h : Alternates ms o) (hstep : MarkStep o ms' o') : Alternates (ms ++ ms') o' := by
  obtain ⟨ids, rfl⟩ := h
  cases hstep with
  | quiet => exact ⟨ids, by simp⟩
  | start id => exact ⟨ids, by simp⟩
  | stop id => exact ⟨ids ++ [id], by simp [commandPair]⟩

/-! ### The root's command -/

/-- The command that has started and not ended. -/
def ExecutionState.openCommand (σ : ExecutionState) : Option UInt64 :=
  σ.activeCommand.bind fun a => if a.started then some a.id else none

/-- The command that the root process holds, armed or started. -/
def ExecutionState.heldCommand (σ : ExecutionState) : Option UInt64 :=
  (σ.processes σ.rootPid).bind ProcessState.commandId

/-- What holds of the root while it lives. -/
structure RootHolds (σ : ExecutionState) : Prop where
  /-- The root is the leader of its own process. -/
  leader : σ.threadToProcess σ.rootPid = some σ.rootPid
  /-- The root holds exactly the active command. -/
  held : ∃ P, σ.processes σ.rootPid = some P ∧
    P.commandId = σ.activeCommand.map ActiveCommand.id

theorem RootHolds.heldCommand_eq (h : RootHolds σ) :
    σ.heldCommand = σ.activeCommand.map ActiveCommand.id := by
  obtain ⟨P, hP, hid⟩ := h.held
  rw [ExecutionState.heldCommand, hP, Option.bind_some, hid]

theorem openCommand_eq_none_of_idle (h : σ.activeCommand = none) : σ.openCommand = none := by
  simp [ExecutionState.openCommand, h]

theorem isStarted_iff_openCommand : σ.isStarted = true ↔ ∃ id, σ.openCommand = some id := by
  cases h : σ.activeCommand with
  | none => simp [isStarted, openCommand, h]
  | some a => cases hs : a.started <;> simp [isStarted, openCommand, h, hs]

@[simp] theorem openCommand_noteFirstProcess (σ : ExecutionState) (p : Pid) (t : UInt64) :
    (σ.noteFirstProcess p t).openCommand = σ.openCommand := by
  unfold noteFirstProcess
  split
  · rfl
  · rename_i a ha
    split <;> simp [openCommand, ha]

@[simp] theorem map_id_activeCommand_noteFirstProcess (σ : ExecutionState) (p : Pid)
    (t : UInt64) :
    (σ.noteFirstProcess p t).activeCommand.map ActiveCommand.id =
      σ.activeCommand.map ActiveCommand.id := by
  unfold noteFirstProcess
  split
  · rfl
  · rename_i a ha
    split <;> simp [ha]

theorem marks_syscall (σ : ExecutionState) (memory : TraceeMemory) (P : ProcessState)
    (call : RawSyscall) :
    marks ((syscallExit memory P call).2.toList.map (σ.attributed P)) = [] := by
  have hspec := (syscallExit_spec memory P call).event
  cases hevent : (syscallExit memory P call).2 with
  | none => rfl
  | some e =>
      obtain ⟨type, resource, metadata, hio, rfl⟩ := hspec e (by simp [hevent])
      have htype : Event.isCommandMark
          (σ.attributed P (makeEvent P call type resource metadata)) = false := by
        cases type <;> simp_all [EventType.isIo, Event.isCommandMark, makeEvent,
          ExecutionState.attributed]
      simp [marks_cons, htype]

/-- While the root lives, or once no command is active, a notification takes
one step of the abstract machine. -/
theorem Effect.markStep (he : Effect σ n σ' es) (hkeyed : σ.Keyed)
    (hroot : RootHolds σ ∨ σ.activeCommand = none) :
    MarkStep σ.openCommand (marks es) σ'.openCommand := by
  cases he with
  | markerIgnored | createdUnknown | createdThread | exitedThread | exitedUnknown
    | syscallUnknown => exact .quiet _
  | arm found root type idle free =>
      rw [openCommand_eq_none_of_idle idle]
      exact .quiet none
  | @start tid m t P a found root type active id armed held =>
      have hclosed : σ.openCommand = none := by simp [openCommand, active, armed]
      have hopen : openCommand { σ with activeCommand := some { a with started := true } } =
          some m.id := by simp [openCommand, id]
      rw [hclosed, hopen]
      exact .start m.id
  | @stop tid m t P a found root type active id started held =>
      have hopen : σ.openCommand = some m.id := by simp [openCommand, active, started, id]
      rw [hopen]
      exact .stop m.id
  | exec | execDiscovered => exact .quiet _
  | createdProcess =>
      rw [openCommand_noteFirstProcess]
      exact .quiet _
  | exited => exact .quiet _
  | @exitedRunning tid code signal t P id leader found root started held =>
      obtain ⟨i, hi⟩ := isStarted_iff_openCommand.mp started
      rcases hroot with hroot | hnone
      · obtain ⟨Q, hQ, hQid⟩ := hroot.held
        have htid : tid = σ.rootPid := (hkeyed tid P found).symm.trans root
        rw [htid, hQ] at found
        obtain rfl := Option.some.inj found
        obtain ⟨a, ha, hstarted⟩ : ∃ a, σ.activeCommand = some a ∧ a.started = true := by
          cases h : σ.activeCommand with
          | none => simp [isStarted, h] at started
          | some a => exact ⟨a, rfl, by simpa [isStarted, h] using started⟩
        have hid : id = a.id := by
          rw [held, ha] at hQid
          exact Option.some.inj hQid
        have hopen : σ.openCommand = some id := by simp [openCommand, ha, hstarted, hid]
        rw [hopen]
        exact .stop id
      · rw [openCommand_eq_none_of_idle hnone] at hi
        contradiction
  | @exitedIdle tid code signal t P leader found root idle =>
      have hclosed : σ.openCommand = none := by
        rcases hroot with hroot | hnone
        · by_contra hopen
          obtain ⟨i, hi⟩ := Option.ne_none_iff_exists'.mp hopen
          have hstarted := isStarted_iff_openCommand.mpr ⟨i, hi⟩
          obtain ⟨Q, hQ, hQid⟩ := hroot.held
          have htid : tid = σ.rootPid := (hkeyed tid P found).symm.trans root
          rw [htid, hQ] at found
          obtain rfl := Option.some.inj found
          rw [idle hstarted] at hQid
          cases h : σ.activeCommand with
          | none => simp [isStarted, h] at hstarted
          | some a => simp [h] at hQid
        · exact openCommand_eq_none_of_idle hnone
      rw [hclosed]
      exact .quiet none
  | @syscall memory call P found =>
      rw [marks_syscall]
      exact .quiet _

/-! ### What keeps the invariant -/

/-- The notification reports the exit of the task. -/
def Notification.exits (tid : Pid) : Notification → Bool
  | .exited t _ _ _ => t = tid
  | _ => false

/-- The notification reports the creation of the task. -/
def Notification.creates (tid : Pid) : Notification → Bool
  | .created _ child _ _ _ => child = tid
  | _ => false

def Notification.isMarker : Notification → Bool
  | .marker .. => true
  | _ => false

/-- Only markers are refused. -/
theorem notify_ok_of_not_marker {n : Notification} (σ : ExecutionState) (h : n.isMarker = false) :
    ∃ r, σ.notify n = .ok r := by
  cases n with
  | marker => simp [Notification.isMarker] at h
  | exec | created | exited | syscall => exact ⟨_, rfl⟩

/-- A change that leaves the root's thread entry, the root's command and the
active id alone keeps the invariant. -/
theorem RootHolds.of_frame (h : RootHolds σ) (hroot : σ'.rootPid = σ.rootPid)
    (hthread : σ'.threadToProcess σ.rootPid = σ.threadToProcess σ.rootPid)
    (hprocess : ∀ P, σ.processes σ.rootPid = some P →
      ∃ P', σ'.processes σ.rootPid = some P' ∧ P'.commandId = P.commandId)
    (hactive : σ'.activeCommand.map ActiveCommand.id =
      σ.activeCommand.map ActiveCommand.id) : RootHolds σ' := by
  obtain ⟨P, hP, hid⟩ := h.held
  obtain ⟨P', hP', hid'⟩ := hprocess P hP
  exact ⟨by rw [hroot, hthread, h.leader], P', by rw [hroot, hP'], by rw [hid', hid, hactive]⟩

theorem command_setProcess_of_same {key k : Pid} {P Q : ProcessState}
    (found : σ.processes key = some P) (hsame : Q.commandId = P.commandId)
    (R : ProcessState) (hR : σ.processes k = some R) :
    ∃ R', (σ.setProcess key Q).processes k = some R' ∧ R'.commandId = R.commandId := by
  by_cases hk : k = key
  · subst hk
    rw [found] at hR
    obtain rfl := Option.some.inj hR
    exact ⟨Q, by simp, hsame⟩
  · exact ⟨R, by simp [hk, hR], rfl⟩

theorem RootHolds.leader_eq (h : RootHolds σ) : σ.processForThread σ.rootPid = σ.rootPid := by
  simp [processForThread, h.leader]

/-- While the root neither exits nor has its tid given away, every
notification keeps the root and the active command together. -/
theorem Effect.rootHolds (he : Effect σ n σ' es) (hkeyed : σ.Keyed) (h : RootHolds σ)
    (hexit : n.exits σ.rootPid = false) (hcreate : n.creates σ.rootPid = false) :
    RootHolds σ' := by
  obtain ⟨R, hR, hRid⟩ := h.held
  cases he with
  | markerIgnored | createdUnknown | exitedUnknown | syscallUnknown => exact h
  | @arm tid m t P found root type idle free =>
      have hkey : σ.processForThread tid = σ.rootPid := (hkeyed _ P found).symm.trans root
      exact ⟨h.leader, { P with commandId := some m.id }, by simp [hkey], rfl⟩
  | @start tid m t P a found root type active id armed held =>
      exact h.of_frame rfl rfl (fun P hP => ⟨P, hP, rfl⟩) (by simp [active])
  | @stop tid m t P a found root type active id started held =>
      have hkey : σ.processForThread tid = σ.rootPid := (hkeyed _ P found).symm.trans root
      exact ⟨h.leader, { P with commandId := none }, by simp [hkey], rfl⟩
  | exec found =>
      exact h.of_frame rfl rfl (command_setProcess_of_same found rfl) rfl
  | @execDiscovered tid links t unknown =>
      have htid : σ.rootPid ≠ tid := by
        rintro rfl
        rw [h.leader_eq, hR] at unknown
        contradiction
      exact h.of_frame rfl (by simp [htid]) (fun P hP => ⟨P, by simp [htid, hP], rfl⟩) rfl
  | @createdThread parentTid childTid ev flags t P found thread =>
      have hchild : σ.rootPid ≠ childTid := by
        rintro rfl
        simp [Notification.creates] at hcreate
      exact h.of_frame rfl (by simp [hchild]) (fun P hP => ⟨P, hP, rfl⟩) rfl
  | @createdProcess parentTid childTid ev flags t P found process =>
      have hchild : σ.rootPid ≠ childTid := by
        rintro rfl
        simp [Notification.creates] at hcreate
      exact h.of_frame (by simp) (by simp [hchild])
        (fun P hP => ⟨P, by simp [hchild, hP], rfl⟩) (by simp)
  | @exitedThread tid code signal t thread =>
      have htid : σ.rootPid ≠ tid := by
        rintro rfl
        exact thread h.leader_eq
      exact h.of_frame rfl (by simp [htid]) (fun P hP => ⟨P, hP, rfl⟩) rfl
  | @exited tid code signal t P leader found notRoot =>
      have htid : σ.rootPid ≠ tid := by
        rintro rfl
        exact notRoot (hkeyed _ P found)
      exact h.of_frame rfl (by simp [htid]) (fun P hP => ⟨P, by simp [htid, hP], rfl⟩) rfl
  | @exitedRunning tid code signal t P id leader found root started held =>
      have htid : tid = σ.rootPid := (hkeyed _ P found).symm.trans root
      simp [Notification.exits, htid] at hexit
  | @exitedIdle tid code signal t P leader found root idle =>
      have htid : tid = σ.rootPid := (hkeyed _ P found).symm.trans root
      simp [Notification.exits, htid] at hexit
  | @syscall memory call P found =>
      exact h.of_frame rfl rfl
        (command_setProcess_of_same found (syscallExit_spec memory P call).identity.commandId)
        rfl

/-- The exit of the live root drops both the active command and the command
of the root. -/
theorem Effect.exit_root (he : Effect σ n σ' es) (hkeyed : σ.Keyed) (h : RootHolds σ)
    (hexit : n.exits σ.rootPid = true) :
    σ'.activeCommand = none ∧ σ'.heldCommand = none := by
  obtain ⟨R, hR, hRid⟩ := h.held
  cases he <;> simp only [Notification.exits, Bool.false_eq_true, decide_eq_true_eq] at hexit
  case exitedThread thread =>
    subst hexit
    exact absurd h.leader_eq thread
  case exitedUnknown unknown =>
    subst hexit
    rw [hR] at unknown
    contradiction
  case exited P leader found notRoot =>
    exact absurd ((hkeyed _ P found).trans hexit) notRoot
  case exitedRunning P id leader found root started held =>
    subst hexit
    exact ⟨rfl, by simp [heldCommand]⟩
  case exitedIdle P leader found root idle =>
    subst hexit
    refine ⟨rfl, ?_⟩
    rw [hR] at found
    obtain rfl := Option.some.inj found
    cases hactive : σ.activeCommand with
    | none => simp [heldCommand, isArmed, hactive, hRid]
    | some a =>
        have harmed : σ.isArmed = true := by
          by_contra hnot
          have hstarted : σ.isStarted = true := by
            simpa [isArmed, isStarted, hactive] using hnot
          simp [idle hstarted, hactive] at hRid
        simp [heldCommand, harmed]

/-- Once no command is active, only a marker can make one active. -/
theorem Effect.idle (he : Effect σ n σ' es) (h : σ.activeCommand = none)
    (hmarker : n.isMarker = false) : σ'.activeCommand = none := by
  cases he <;> simp_all [Notification.isMarker, noteFirstProcess]

end Whyrun
