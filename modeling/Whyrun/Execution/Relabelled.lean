import Whyrun.Execution.Commutation
import Whyrun.Execution.ReusedPids

/-!
Two recordings of one execution. The kernel hands out other pids, the clock
shows other times, and neighbouring stops of processes that have nothing to do
with each other are reported in the other order. None of this decides what is
recorded: the second recording throws where the first one does not only if
something else differs, and its events are those of the first one up to the
same pids, times and order.
-/

namespace Whyrun

open ByteText ExecutionState

/-! ### Other times -/

namespace Notification

/-- The notification at another time. -/
def retimed (t : UInt64) : Notification → Notification
  | marker tid m _ => marker tid m t
  | exec tid links _ => exec tid links t
  | created parentTid childTid ev flags _ => created parentTid childTid ev flags t
  | exited tid code signal _ => exited tid code signal t
  | syscall memory call => syscall memory { call with timestampNs := t }

end Notification

/-- The same notification under new tids and at another time. -/
def Retold (f : Pid → Pid) (n n' : Notification) : Prop :=
  ∃ m t, SameNotification f n m ∧ m.retimed t = n'

/-- The same event but for its tids and its time. -/
def SameBut (f : Pid → Pid) (e e' : Event) : Prop := e'.untimed = (e.renameTids f).untimed

/-- A command whose first process may have another time. -/
def ActiveCommand.untimed (a : ActiveCommand) : ActiveCommand :=
  { a with firstProcessNs := a.firstProcessNs.map fun _ => 0 }

theorem ActiveCommand.eq_of_untimed {a a' : ActiveCommand} (h : a'.untimed = a.untimed) :
    a'.id = a.id ∧ a'.started = a.started := by
  obtain ⟨hid, -, hstarted⟩ := ActiveCommand.mk.inj h
  exact ⟨hid, hstarted⟩

/-- The outcome of a call does not depend on the time, except for the time of
its event. -/
theorem syscallExit_retimed (memory : TraceeMemory) (P : ProcessState) (call : RawSyscall)
    (t : UInt64) :
    syscallExit memory P { call with timestampNs := t } =
      ((syscallExit memory P call).1,
        (syscallExit memory P call).2.map fun e => { e with timestampNs := t }) := by
  unfold syscallExit
  dsimp only
  split
  · rfl
  split
  · rfl
  split
  · unfold transferExit
    dsimp only
    split
    · rfl
    · split <;> rfl
  split
  · unfold closeExit
    dsimp only
    split <;> rfl
  split
  · unfold dupExit
    dsimp only
    split <;> rfl
  split
  · unfold socketExit
    dsimp only
    split <;> rfl
  split
  · unfold connectExit
    dsimp only
    split
    · rfl
    · split
      · rfl
      · split <;> rfl
  split
  · unfold chdirExit
    dsimp only
    split <;> rfl
  split
  · unfold fchdirExit
    dsimp only
    split
    · rfl
    · split <;> rfl
  · rfl

/-! ### Other pids -/

/-- The same state under new tids; times aside. -/
structure Relabelled (f : Pid → Pid) (σ σ' : ExecutionState) : Prop where
  processes : ∀ p, σ'.processes (f p) = (σ.processes p).map (ProcessState.renameTids f)
  threads : ∀ tid, σ'.threadToProcess (f tid) = (σ.threadToProcess tid).map f
  active : σ'.activeCommand.map ActiveCommand.untimed = σ.activeCommand.map ActiveCommand.untimed
  root : σ'.rootPid = f σ.rootPid

namespace Relabelled

variable {f : Pid → Pid} {σ σ' τ : ExecutionState} {P Q : ProcessState} {e e' : Event}
  {n n' : Notification} {es : List Event}

theorem key (h : Relabelled f σ σ') (tid : Pid) :
    σ'.processForThread (f tid) = f (σ.processForThread tid) := by
  rw [processForThread, processForThread, h.threads]
  cases σ.threadToProcess tid <;> rfl

theorem unknown (h : Relabelled f σ σ') {tid : Pid}
    (hunknown : σ.processes (σ.processForThread tid) = none) :
    σ'.processes (σ'.processForThread (f tid)) = none := by
  rw [h.key, h.processes, hunknown]
  rfl

theorem found (h : Relabelled f σ σ') {tid : Pid}
    (hfound : σ.processes (σ.processForThread tid) = some P) :
    σ'.processes (σ'.processForThread (f tid)) = some (P.renameTids f) := by
  rw [h.key, h.processes, hfound]
  rfl

theorem pid_root_iff (h : Relabelled f σ σ') (hf : Function.Injective f) :
    (P.renameTids f).pid = σ'.rootPid ↔ P.pid = σ.rootPid := by
  rw [h.root]
  exact hf.eq_iff

theorem isArmed (h : Relabelled f σ σ') : σ'.isArmed = σ.isArmed := by
  have hactive := h.active
  unfold ExecutionState.isArmed
  cases hσ : σ.activeCommand <;> cases hσ' : σ'.activeCommand <;>
    simp_all [ActiveCommand.untimed]

theorem isStarted (h : Relabelled f σ σ') : σ'.isStarted = σ.isStarted := by
  have hactive := h.active
  unfold ExecutionState.isStarted
  cases hσ : σ.activeCommand <;> cases hσ' : σ'.activeCommand <;>
    simp_all [ActiveCommand.untimed]

/-- The command that is active, with its own time. -/
theorem activeCommand (h : Relabelled f σ σ') {a : ActiveCommand}
    (hactive : σ.activeCommand = some a) :
    ∃ a', σ'.activeCommand = some a' ∧ a'.untimed = a.untimed := by
  have hsame := h.active
  rw [hactive, Option.map_some] at hsame
  exact Option.map_eq_some_iff.mp hsame

theorem idle (h : Relabelled f σ σ') (hidle : σ.activeCommand = none) :
    σ'.activeCommand = none := by
  have hsame := h.active
  rw [hidle, Option.map_none] at hsame
  exact Option.map_eq_none_iff.mp hsame

/-! ### Updates -/

theorem setProcess (h : Relabelled f σ σ') (hf : Function.Injective f) (key : Pid)
    (P : ProcessState) :
    Relabelled f (σ.setProcess key P) (σ'.setProcess (f key) (P.renameTids f)) where
  processes p := by
    by_cases hp : p = key
    · subst hp
      simp
    · simp [hp, hf.ne hp, h.processes]
  threads := h.threads
  active := h.active
  root := h.root

theorem setThread (h : Relabelled f σ σ') (hf : Function.Injective f) (tid : Pid)
    (p : Option Pid) :
    Relabelled f (σ.setThread tid p) (σ'.setThread (f tid) (p.map f)) where
  processes := h.processes
  threads t := by
    by_cases ht : t = tid
    · subst ht
      simp
    · simp [ht, hf.ne ht, h.threads]
  active := h.active
  root := h.root

theorem setActive (h : Relabelled f σ σ') {a a' : Option ActiveCommand}
    (ha : a'.map ActiveCommand.untimed = a.map ActiveCommand.untimed) :
    Relabelled f { σ with activeCommand := a } { σ' with activeCommand := a' } where
  processes := h.processes
  threads := h.threads
  active := ha
  root := h.root

theorem noteFirstProcess (h : Relabelled f σ σ') (hf : Function.Injective f) (p : Pid)
    (t t' : UInt64) :
    Relabelled f (σ.noteFirstProcess p t) (σ'.noteFirstProcess (f p) t') := by
  cases hactive : σ.activeCommand with
  | none =>
      have hidle := h.idle hactive
      simpa only [ExecutionState.noteFirstProcess, hactive, hidle] using h
  | some a =>
      obtain ⟨a', hactive', hsame⟩ := h.activeCommand hactive
      obtain ⟨id, first, started⟩ := a
      obtain ⟨id', first', started'⟩ := a'
      simp only [ActiveCommand.untimed, ActiveCommand.mk.injEq] at hsame
      obtain ⟨rfl, hfirst, rfl⟩ := hsame
      have hnone : first' = none ↔ first = none := by
        cases first <;> cases first' <;> simp_all
      have hroot : f p = σ'.rootPid ↔ p = σ.rootPid := by
        rw [h.root]
        exact hf.eq_iff
      simp only [ExecutionState.noteFirstProcess, hactive, hactive', hroot, hnone]
      split
      · exact h.setActive rfl
      · exact h

/-! ### Events -/

theorem attribution (h : Relabelled f σ σ') (hf : Function.Injective f) :
    σ'.attribution (P.renameTids f) = σ.attribution P := by
  simp only [ExecutionState.attribution, h.pid_root_iff hf, h.isArmed]
  rfl

theorem attributed (h : Relabelled f σ σ') (hf : Function.Injective f) (he : SameBut f e e') :
    SameBut f (σ.attributed P e) (σ'.attributed (P.renameTids f) e') := by
  have hid := congrArg (fun x => { x with commandId := σ.attribution P }) he
  rw [SameBut, ExecutionState.attributed, ExecutionState.attributed, h.attribution hf]
  exact hid

/-! ### One notification -/

/-- What a notification does to a state it does to the same state under new
tids, at whatever time. -/
theorem effect (h : Relabelled f σ σ') (hf : Function.Injective f) (hzero : f 0 = 0)
    (he : Effect σ n τ es) (hn : Retold f n n') :
    ∃ τ' es', Effect σ' n' τ' es' ∧ Relabelled f τ τ' ∧ List.Forall₂ (SameBut f) es es' := by
  obtain ⟨m, t', hsame, rfl⟩ := hn
  cases he with
  | @markerIgnored tid m t other =>
      cases hsame
      refine ⟨σ', [], .markerIgnored ?_, h, .nil⟩
      intro P' hP'
      rw [h.key, h.processes] at hP'
      obtain ⟨P, hP, rfl⟩ := Option.map_eq_some_iff.mp hP'
      rw [Ne, h.pid_root_iff hf]
      exact other P hP
  | @arm tid m t P found root type idle free =>
      cases hsame
      refine ⟨_, [], .arm (h.found found) ((h.pid_root_iff hf).mpr root) type (h.idle idle) free,
        ?_, .nil⟩
      rw [h.key]
      exact (h.setProcess hf _ { P with commandId := some m.id }).setActive rfl
  | @start tid m t P a found root type active id armed held =>
      cases hsame
      obtain ⟨a', hactive, ha⟩ := h.activeCommand active
      obtain ⟨hid, hstarted⟩ := ActiveCommand.eq_of_untimed ha
      refine ⟨_, _, .start (h.found found) ((h.pid_root_iff hf).mpr root) type hactive
        (hid.trans id) (hstarted.trans armed) held, h.setActive ?_, .cons ?_ .nil⟩
      · exact congrArg (fun x => some { x with started := true }) ha
      · rw [SameBut, renameTids_commandStartEvent]
        rfl
  | @stop tid m t P a found root type active id started held =>
      cases hsame
      obtain ⟨a', hactive, ha⟩ := h.activeCommand active
      obtain ⟨hid, hstarted⟩ := ActiveCommand.eq_of_untimed ha
      refine ⟨_, _, .stop (h.found found) ((h.pid_root_iff hf).mpr root) type hactive
        (hid.trans id) (hstarted.trans started) held, ?_, .cons ?_ .nil⟩
      · rw [h.key]
        exact (h.setProcess hf _ { P with commandId := none }).setActive rfl
      · rw [SameBut, renameTids_commandEndEvent]
        rfl
  | @exec tid links t P found =>
      cases hsame
      refine ⟨_, _, .exec (h.found found), ?_, .cons (h.attributed hf ?_) .nil⟩
      · rw [h.key]
        exact h.setProcess hf _ { P with executable := links.executable }
      · rw [SameBut, renameTids_execEvent]
        rfl
  | @execDiscovered tid links t unknown =>
      cases hsame
      refine ⟨_, _, .execDiscovered (h.unknown unknown), ?_, .cons ?_ .nil⟩
      · have hchild := (h.setProcess hf tid
          { pid := tid, cwd := links.cwd, executable := links.executable }).setThread hf tid
            (some tid)
        simpa [ProcessState.renameTids, hzero] using hchild
      · rw [SameBut, renameTids_execEvent, ProcessState.renameTids, hzero]
        rfl
  | createdUnknown unknown =>
      cases hsame
      exact ⟨σ', [], .createdUnknown (h.unknown unknown), h, .nil⟩
  | @createdThread parentTid childTid ev flags t P found thread =>
      cases hsame
      exact ⟨_, [], .createdThread (h.found found) thread, h.setThread hf childTid (some P.pid),
        .nil⟩
  | @createdProcess parentTid childTid ev flags t P found process =>
      cases hsame
      refine ⟨_, _, .createdProcess (h.found found) process, ?_, .cons ?_ .nil⟩
      · have hchild := (h.setProcess hf childTid
          { P with pid := childTid, parentPid := P.pid }).setThread hf childTid (some childTid)
        exact hchild.noteFirstProcess hf P.pid t t'
      · rw [SameBut, renameTids_forkEvent]
        rfl
  | @exitedThread tid code signal t thread =>
      cases hsame
      refine ⟨_, [], .exitedThread ?_, h.setThread hf tid none, .nil⟩
      rwa [h.key, hf.ne_iff]
  | @exitedUnknown tid code signal t leader unknown =>
      cases hsame
      refine ⟨σ', [], .exitedUnknown ?_ ?_, h, .nil⟩
      · rw [h.key, leader]
      · rw [h.processes, unknown]
        rfl
  | @exited tid code signal t P leader found notRoot =>
      cases hsame
      refine ⟨_, _, .exited (by rw [h.key, leader]) (by rw [h.processes, found]; rfl)
        (by rwa [Ne, h.pid_root_iff hf]), (h.setProcess hf tid P).setThread hf tid none,
        .cons (h.attributed hf ?_) .nil⟩
      rw [SameBut, renameTids_exitEvent]
      rfl
  | @exitedRunning tid code signal t P id leader found root started held =>
      cases hsame
      refine ⟨_, _, .exitedRunning (by rw [h.key, leader]) (by rw [h.processes, found]; rfl)
        ((h.pid_root_iff hf).mpr root) (h.isStarted.trans started) held,
        ((h.setProcess hf tid { P with commandId := none }).setActive rfl).setThread hf tid none,
        .cons (h.attributed hf ?_) (.cons ?_ .nil)⟩
      · rw [SameBut, renameTids_exitEvent]
        rfl
      · rw [SameBut, renameTids_commandEndEvent]
        rfl
  | @exitedIdle tid code signal t P leader found root idle =>
      cases hsame
      refine ⟨_, _, .exitedIdle (by rw [h.key, leader]) (by rw [h.processes, found]; rfl)
        ((h.pid_root_iff hf).mpr root) (fun hstarted => idle (h.isStarted ▸ hstarted)), ?_,
        .cons (h.attributed hf ?_) .nil⟩
      · rw [h.isArmed]
        have hrecord : (if σ.isArmed then { P.renameTids f with commandId := none }
            else P.renameTids f) =
              (if σ.isArmed then { P with commandId := none } else P).renameTids f := by
          split <;> rfl
        rw [hrecord]
        exact ((h.setProcess hf tid _).setActive rfl).setThread hf tid none
      · rw [SameBut, renameTids_exitEvent]
        rfl
  | @syscallUnknown memory call unknown =>
      cases hsame with
      | @syscall _ memory' _ call' same =>
          have htid : call'.tid = f call.tid := same.tid
          refine ⟨σ', [], .syscallUnknown ?_, h, .nil⟩
          have hunknown := h.unknown unknown
          rwa [← htid] at hunknown
  | @syscall memory call P found =>
      cases hsame with
      | @syscall _ memory' _ call' same =>
          have htid : call'.tid = f call.tid := same.tid
          have hfound := h.found found
          rw [← htid] at hfound
          have houtcome : syscallExit memory' (P.renameTids f) { call' with timestampNs := t' } =
              ((syscallExit memory P call).1.renameTids f,
                ((syscallExit memory P call).2.map (Event.renameTids f)).map
                  fun e => { e with timestampNs := t' }) := by
            rw [syscallExit_retimed, same.syscallExit]
            rfl
          refine ⟨_, _, .syscall hfound, ?_, ?_⟩
          · rw [houtcome]
            have hupdate := h.setProcess hf (σ.processForThread call.tid)
              (syscallExit memory P call).1
            rwa [← h.key, ← htid] at hupdate
          · rw [houtcome]
            cases (syscallExit memory P call).2 with
            | none => exact .nil
            | some e => exact .cons (h.attributed hf rfl) .nil

/-! ### Runs -/

theorem start (hf : Function.Injective f) (hzero : f 0 = 0) (root : Pid) (cwd : Bytes)
    (rootCommand : Option Bytes) (startNs startNs' : UInt64) :
    Relabelled f (initialState root cwd rootCommand startNs)
      (initialState (f root) cwd rootCommand startNs') where
  processes p := by
    simp only [initialState_processes, hf.eq_iff]
    split
    · rw [Option.map_some, ProcessState.renameTids, hzero]
    · rfl
  threads tid := by
    simp only [initialState_threadToProcess, hf.eq_iff]
    split <;> rfl
  active := by
    rw [initialState_activeCommand, initialState_activeCommand]
    cases rootCommand <;> rfl
  root := by rw [initialState_rootPid, initialState_rootPid]

theorem run (h : Relabelled f σ σ') (hf : Function.Injective f) (hzero : f 0 = 0)
    {ns ns' : List Notification} (hns : List.Forall₂ (Retold f) ns ns')
    (hrun : Transducer.run notify σ ns = .ok (τ, es)) :
    ∃ τ' es', Transducer.run notify σ' ns' = .ok (τ', es') ∧
      List.Forall₂ (SameBut f) es es' := by
  induction hns generalizing σ σ' es with
  | nil =>
      obtain ⟨rfl, rfl⟩ := Prod.mk.inj (Except.ok.inj hrun)
      exact ⟨σ', [], rfl, .nil⟩
  | @cons n n' ns ns' hn hns ih =>
      obtain ⟨ρ, out, more, hfirst, hrest, rfl⟩ := Transducer.run_cons_ok_iff.mp hrun
      obtain ⟨ρ', out', he, hnext, hout⟩ := h.effect hf hzero (notify_effect hfirst) hn
      obtain ⟨τ', more', hrest', hmore⟩ := ih hnext hrest
      exact ⟨τ', out' ++ more',
        Transducer.run_cons_ok_iff.mpr ⟨ρ', out', more', he.notify_eq, hrest', rfl⟩,
        List.rel_append hout hmore⟩

/-- A recording of the same notifications under new tids, at other times. -/
theorem record (hf : Function.Injective f) (hzero : f 0 = 0) {root : Pid} {cwd : Bytes}
    {rootCommand : Option Bytes} {startNs : UInt64} (startNs' : UInt64)
    {ns ns' : List Notification} (hns : List.Forall₂ (Retold f) ns ns')
    (hrun : ExecutionState.record root cwd rootCommand startNs ns = .ok (τ, es)) :
    ∃ τ' es', ExecutionState.record (f root) cwd rootCommand startNs' ns' = .ok (τ', es') ∧
      List.Forall₂ (SameBut f) es es' := by
  obtain ⟨out, hout, rfl⟩ := (record_ok_iff ..).mp hrun
  obtain ⟨τ', out', hout', hsame⟩ :=
    (start hf hzero root cwd rootCommand startNs startNs').run hf hzero hns hout
  refine ⟨τ', _, (record_ok_iff ..).mpr ⟨out', hout', rfl⟩, List.rel_append ?_ hsame⟩
  rw [initialEvents_eq, initialEvents_eq]
  cases rootCommand with
  | none => exact .nil
  | some text =>
      refine .cons ?_ .nil
      rw [SameBut, renameTids_commandStartEvent]
      rfl

end Relabelled

end Whyrun
