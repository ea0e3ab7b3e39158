import Whyrun.Execution.Runs

/-!
Stops of a child that are delivered before its creation. The tables do not
know the child yet, so what such a stop reports is lost or lands in a record
that the creation overwrites. Delivery order does not matter as long as the
early stops are exits of system calls that leave no trace.
-/

namespace Whyrun

open ByteText ExecutionState

/-! ### System calls that leave no trace -/

/-- The exit of the call neither emits an event nor changes the descriptor
table or the working directory of a process with this record. -/
def NoTrace (memory : TraceeMemory) (process : ProcessState) (call : RawSyscall) : Prop :=
  if call.number = nrOpen then False
  else if call.number = nrOpenat ∨ call.number = nrOpenat2 then False
  else if call.number = nrRead ∨ call.number = nrWrite then
    ∀ resource, process.fdTable (asInt (arg0 call.args)) = some resource → resource.type ≠ .file
  else if call.number = nrClose then
    call.result = 0 → process.fdTable (asInt (arg0 call.args)) = none
  else if call.number = nrDup ∨ call.number = nrDup2 ∨ call.number = nrDup3 then
    ¬ call.result < 0 →
      process.fdTable call.result.toInt32 = process.fdTable (asInt (arg0 call.args))
  else if call.number = nrSocket then
    0 ≤ call.result →
      process.fdTable call.result.toInt32 = some ⟨.socket, lit "<socket>", false⟩
  else if call.number = nrConnect then
    socketEndpoint memory call.tid (arg1 call.args) (arg2 call.args) = none
  else if call.number = nrChdir ∧ call.result = 0 then
    memory.readString call.tid (arg0 call.args) ≠ [] →
      resolvePath process atFdcwd (memory.readString call.tid (arg0 call.args)) = process.cwd
  else if call.number = nrFchdir ∧ call.result = 0 then
    ∀ resource, process.fdTable (asInt (arg0 call.args)) = some resource → resource.type = .file →
      resource.name = process.cwd
  else True

theorem setFd_eq_self_iff {P : ProcessState} {fd : Int32} {r : Option Resource} :
    P.setFd fd r = P ↔ P.fdTable fd = r := by
  constructor
  · intro h
    rw [← h]
    simp [ProcessState.setFd]
  · rintro rfl
    simp [ProcessState.setFd]

theorem cwd_eq_self_iff {P : ProcessState} {cwd : Bytes} : { P with cwd } = P ↔ cwd = P.cwd := by
  constructor
  · intro h
    exact congrArg ProcessState.cwd h
  · rintro rfl
    rfl

/-- `NoTrace` says exactly that. -/
theorem syscallExit_eq_self_iff {memory : TraceeMemory} {P : ProcessState} {call : RawSyscall} :
    syscallExit memory P call = (P, none) ↔ NoTrace memory P call := by
  unfold syscallExit NoTrace
  split
  · simp [openExit]
  split
  · simp [openatExit]
  split
  · unfold transferExit
    dsimp only
    cases hfd : P.fdTable (asInt (arg0 call.args)) with
    | none => simp
    | some resource => by_cases hfile : resource.type = .file <;> simp [hfile]
  split
  · unfold closeExit
    by_cases hresult : call.result = 0 <;> simp [hresult, setFd_eq_self_iff]
  split
  · unfold dupExit
    by_cases hresult : call.result < 0 <;> simp [hresult, setFd_eq_self_iff]
  split
  · unfold socketExit
    by_cases hresult : 0 ≤ call.result <;> simp [hresult, setFd_eq_self_iff]
  split
  · unfold connectExit
    dsimp only
    cases hendpoint : socketEndpoint memory call.tid (arg1 call.args) (arg2 call.args) with
    | none => simp
    | some endpoint =>
        cases hfd : P.fdTable (asInt (arg0 call.args)) with
        | none => simp
        | some resource => by_cases hsocket : resource.type = .socket <;> simp [hsocket]
  split
  · unfold chdirExit
    dsimp only
    by_cases hpath : memory.readString call.tid (arg0 call.args) = [] <;>
      simp [hpath, cwd_eq_self_iff]
  split
  · unfold fchdirExit
    cases hfd : P.fdTable (asInt (arg0 call.args)) with
    | none => simp
    | some resource => by_cases hfile : resource.type = .file <;> simp [hfile, cwd_eq_self_iff]
  · simp

/-! ### Quiet stops -/

/-- The exit of a system call that leaves no trace on the record of its
process, if the table has one. -/
def QuietStop (σ : ExecutionState) (n : Notification) : Prop :=
  ∃ memory call, n = .syscall memory call ∧
    ∀ P, σ.findProcessForThread call.tid = some P → NoTrace memory P call

variable {σ : ExecutionState} {n : Notification}

theorem QuietStop.idle (h : QuietStop σ n) : σ.notify n = .ok (σ, []) := by
  obtain ⟨memory, call, rfl, htrace⟩ := h
  rw [notify, onSyscallExit]
  dsimp only
  cases hP : σ.processes (σ.processForThread call.tid) with
  | none => rfl
  | some P =>
      simp only [syscallExit_eq_self_iff.mpr (htrace P hP), setProcess_self hP]
      rfl

/-! ### Moving the creation to the front -/

section runs

variable (root : Pid) (cwd : Bytes) (rootCommand : Option Bytes) (startNs : UInt64)

theorem record_eq_map (ns : List Notification) :
    record root cwd rootCommand startNs ns =
      (Transducer.run notify (initialState root cwd rootCommand startNs) ns).map
        fun r => (r.1, initialEvents root cwd rootCommand startNs ++ r.2) := rfl

variable {root cwd rootCommand startNs}

/-- The stops of one task. -/
def stopsOf (tid : Pid) (ns : List Notification) : List Notification :=
  ns.filter fun n => n.task = tid

def stopsOfOthers (tid : Pid) (ns : List Notification) : List Notification :=
  ns.filter fun n => n.task ≠ tid

/-- When every stop of the child that precedes its creation is quiet, both
where it is delivered and after the creation, the run is the one in which the
creation is delivered first. -/
theorem run_creation_first (post : List Notification) {mid : List Notification} {child : Pid}
    {c : Notification}
    (hbefore : ∀ before n after τ out, mid = before ++ n :: after → n.task = child →
      Transducer.run notify σ before = .ok (τ, out) → QuietStop τ n)
    (hafter : ∀ n ∈ mid, n.task = child → ∀ τ out,
      Transducer.run notify σ (mid ++ [c]) = .ok (τ, out) → QuietStop τ n) :
    Transducer.run notify σ (mid ++ c :: post) =
      Transducer.run notify σ (stopsOfOthers child mid ++ c :: (stopsOf child mid ++ post)) := by
  have hothers : Transducer.run notify σ mid =
      Transducer.run notify σ (stopsOfOthers child mid) :=
    Transducer.run_filter_of_idle fun before n after τ out hsplit htask hrun =>
      (hbefore before n after τ out hsplit (by simpa using htask) hrun).idle
  have hcreated := Transducer.run_append_congr hothers [c]
  rw [List.append_cons mid, List.append_cons (stopsOfOthers child mid),
    ← Transducer.run_append_congr hcreated]
  cases hrun : Transducer.run notify σ (mid ++ [c]) with
  | error e => rw [Transducer.run_append_of_error _ hrun, Transducer.run_append_of_error _ hrun]
  | ok r =>
      obtain ⟨τ, out⟩ := r
      have hidle : Transducer.run notify τ (stopsOf child mid) = .ok (τ, []) := by
        refine Transducer.run_of_idle fun n hn => ?_
        obtain ⟨hmem, htask⟩ := List.mem_filter.mp hn
        exact (hafter n hmem (by simpa using htask) τ out hrun).idle
      rw [Transducer.run_append_of_ok _ hrun, Transducer.run_append_of_ok _ hrun,
        Transducer.run_append_of_ok _ hidle]
      cases Transducer.run notify τ post <;> rfl

end runs

/-! ### What is recorded of the child -/

/-- The events of a task or process, and what later events of it depend on:
its executable, working directory and descriptor table. -/
def childView (child : Pid) (r : Except Failure (ExecutionState × List Event)) :
    Except Failure (List Event × Option (Bytes × Bytes × (Int32 → Option Resource))) :=
  r.map fun r => (r.2.filter fun e => e.pid = child || e.tid = child,
    (r.1.processes child).map fun P => (P.executable, P.cwd, P.fdTable))

/-! ### One early stop -/

section single

variable {P : ProcessState} {parentTid child : Pid} {ev : UInt32} {flags t : UInt64}

/-- The tables know nothing of the task. -/
structure Unknown (σ : ExecutionState) (tid : Pid) : Prop where
  thread : σ.threadToProcess tid = none
  process : σ.processes tid = none

theorem Unknown.processForThread {tid : Pid} (h : Unknown σ tid) :
    σ.processForThread tid = tid := by
  rw [ExecutionState.processForThread, h.thread, Option.getD_none]

/-- The record that the creation of a process gives it. -/
def ProcessState.childRecord (P : ProcessState) (child : Pid) : ProcessState :=
  { P with pid := child, parentPid := P.pid }

theorem noTrace_childRecord {memory : TraceeMemory} {call : RawSyscall} (child : Pid) :
    NoTrace memory (P.childRecord child) call ↔ NoTrace memory P call := Iff.rfl

/-- The creation has given the child its record, with an event that is not the
child's. -/
structure Forked (P : ProcessState) (child : Pid) (τ : ExecutionState) (e : Event) : Prop where
  record : τ.processes child = some (P.childRecord child)
  self : τ.processForThread child = child
  other : (decide (e.pid = child) || decide (e.tid = child)) = false

theorem Forked.found {τ : ExecutionState} {e : Event} (h : Forked P child τ e) :
    τ.processes (τ.processForThread child) = some (P.childRecord child) := by
  rw [h.self, h.record]

/-- The creation of a process by a known parent. -/
theorem notify_created (hkeyed : σ.Keyed) (hprocess : σ.processForThread parentTid ≠ child)
    (htid : parentTid ≠ child) (hparent : σ.findProcessForThread parentTid = some P)
    (process : isThreadCreation ev flags = false) :
    ∃ τ e, σ.notify (.created parentTid child ev flags t) = .ok (τ, [e]) ∧
      Forked P child τ e := by
  obtain ⟨τ, es, hstep⟩ : ∃ τ es, σ.notify (.created parentTid child ev flags t) =
      .ok (τ, es) := ⟨_, _, rfl⟩
  cases notify_effect hstep with
  | createdUnknown unknown =>
      rw [findProcessForThread_def, unknown] at hparent
      contradiction
  | createdThread _ thread =>
      rw [process] at thread
      contradiction
  | createdProcess found =>
      obtain rfl := Option.some.inj (found.symm.trans hparent)
      have hpid := hkeyed _ _ found
      exact ⟨_, _, hstep, by simp [ProcessState.childRecord], by simp,
        by simp [forkEvent, hpid, hprocess, htid]⟩

theorem decimal_toInt_injective {p q : Pid} (h : decimal p.toInt = decimal q.toInt) : p = q := by
  have hp := p.toInt_lt
  have hp' := p.le_toInt
  have hq := q.toInt_lt
  have hq' := q.le_toInt
  have hstoll := congrArg stoll h
  rw [stoll_decimal, stoll_decimal, if_pos (by omega), if_pos (by omega)] at hstoll
  exact Int32.toInt_inj.mp (Except.ok.inj hstoll)

theorem run_two {m n : Notification} {τ τ' : ExecutionState} {o o' : List Event}
    (hfirst : σ.notify m = .ok (τ, o)) (hsecond : τ.notify n = .ok (τ', o')) :
    Transducer.run notify σ [m, n] = .ok (τ', o ++ o') :=
  Transducer.run_cons_ok_iff.mpr
    ⟨τ, o, o', hfirst, by rw [Transducer.run_singleton, hsecond], rfl⟩

theorem childView_ok (σ : ExecutionState) (es : List Event) :
    childView child (.ok (σ, es)) = .ok (es.filter fun e => e.pid = child || e.tid = child,
      (σ.processes child).map fun P => (P.executable, P.cwd, P.fdTable)) := rfl

theorem eq_of_sameIdentity {P P' : ProcessState} (h : SameIdentity P P') (hcwd : P'.cwd = P.cwd)
    (hfd : P'.fdTable = P.fdTable) : P' = P := by
  obtain ⟨hpid, hparent, hexe, hcommand⟩ := h
  cases P
  cases P'
  simp_all

section early

variable {τ : ExecutionState} {e : Event}

/-- The exit of a system call is lost before the creation. -/
theorem early_syscall_agrees_iff {memory : TraceeMemory} {call : RawSyscall}
    (hunknown : Unknown σ call.tid) (hforked : Forked P call.tid τ e)
    (hcreated : σ.notify (.created parentTid call.tid ev flags t) = .ok (τ, [e])) :
    childView call.tid (Transducer.run notify σ
        [.syscall memory call, .created parentTid call.tid ev flags t]) =
      childView call.tid (Transducer.run notify σ
        [.created parentTid call.tid ev flags t, .syscall memory call]) ↔
      NoTrace memory P call := by
  have hlost : σ.notify (.syscall memory call) = .ok (σ, []) := by
    obtain ⟨σ', es, hstep⟩ : ∃ σ' es, σ.notify (.syscall memory call) = .ok (σ', es) :=
      ⟨_, _, rfl⟩
    cases notify_effect hstep with
    | syscallUnknown => exact hstep
    | syscall found =>
        rw [hunknown.processForThread, hunknown.process] at found
        contradiction
  obtain ⟨τ', es, hstep⟩ : ∃ τ' es, τ.notify (.syscall memory call) = .ok (τ', es) :=
    ⟨_, _, rfl⟩
  have hspec := syscallExit_spec memory (P.childRecord call.tid) call
  cases notify_effect hstep with
  | syscallUnknown unknown =>
      rw [hforked.found] at unknown
      contradiction
  | @syscall _ _ Q found =>
      obtain rfl : Q = P.childRecord call.tid := Option.some.inj (found.symm.trans hforked.found)
      rw [run_two hlost hcreated, run_two hcreated hstep, childView_ok, childView_ok,
        List.nil_append, List.filter_append, List.filter_singleton, hforked.other, cond_false,
        List.nil_append]
      simp only [Except.ok.injEq, Prod.mk.injEq, hforked.self, hforked.record,
        processes_setProcess, if_true, Option.map_some, Option.some.injEq]
      constructor
      · rintro ⟨hevents, -, hcwd, hfd⟩
        refine (noTrace_childRecord call.tid).mp (syscallExit_eq_self_iff.mp ?_)
        have hnone : (syscallExit memory (P.childRecord call.tid) call).2 = none := by
          cases hevent : (syscallExit memory (P.childRecord call.tid) call).2 with
          | none => rfl
          | some e' =>
              obtain ⟨type, resource, metadata, -, rfl⟩ := hspec.event e' (by simp [hevent])
              rw [hevent] at hevents
              simp [attributed, makeEvent, ProcessState.childRecord] at hevents
        exact Prod.ext (eq_of_sameIdentity hspec.identity hcwd.symm hfd.symm) hnone
      · intro htrace
        rw [syscallExit_eq_self_iff.mpr ((noTrace_childRecord _).mpr htrace)]
        simp

/-- An exec before the creation invents a process without a parent. -/
theorem early_exec_differs {links : ProcLinks} {ts : UInt64} (hkeyed : σ.Keyed)
    (hunknown : Unknown σ child) (hkey : σ.processForThread parentTid ≠ child)
    (htid : parentTid ≠ child) (hparent : σ.findProcessForThread parentTid = some P)
    (hpid : P.pid ≠ 0) (process : isThreadCreation ev flags = false)
    (hforked : Forked P child τ e)
    (hcreated : σ.notify (.created parentTid child ev flags t) = .ok (τ, [e])) :
    childView child (Transducer.run notify σ
        [.exec child links ts, .created parentTid child ev flags t]) ≠
      childView child (Transducer.run notify σ
        [.created parentTid child ev flags t, .exec child links ts]) := by
  intro hview
  obtain ⟨σ', es, hstep⟩ : ∃ σ' es, σ.notify (.exec child links ts) = .ok (σ', es) :=
    ⟨_, _, rfl⟩
  obtain ⟨τ', es', hstep'⟩ : ∃ τ' es', τ.notify (.exec child links ts) = .ok (τ', es') :=
    ⟨_, _, rfl⟩
  have hkeyed' := (notify_effect hstep).keyed hkeyed
  cases notify_effect hstep with
  | exec found =>
      rw [hunknown.processForThread, hunknown.process] at found
      contradiction
  | execDiscovered =>
      obtain ⟨τ₁, e₁, hcreated₁, hforked₁⟩ := notify_created (t := t) hkeyed'
        (by simpa [htid] using hkey) htid
        (by simpa [findProcessForThread_def, htid, hkey] using hparent) process
      cases notify_effect hstep' with
      | execDiscovered unknown =>
          rw [hforked.found] at unknown
          contradiction
      | @exec _ _ _ Q found =>
          obtain rfl : Q = P.childRecord child :=
            Option.some.inj (found.symm.trans hforked.found)
          rw [run_two hstep hcreated₁, run_two hcreated hstep', childView_ok,
            childView_ok] at hview
          simp only [List.filter_append, List.filter_singleton, hforked.other, hforked₁.other,
            execEvent, attributed, ProcessState.childRecord, decide_true, Bool.or_self,
            cond_true, cond_false, List.append_nil, List.nil_append, Except.ok.injEq,
            Prod.mk.injEq, List.cons.injEq, Event.mk.injEq, and_true, true_and] at hview
          exact hpid (decimal_toInt_injective hview.1.1).symm

/-- An exit is lost before the creation. -/
theorem early_exit_differs {code signal : Int32} {ts : UInt64} (hunknown : Unknown σ child)
    (hforked : Forked P child τ e)
    (hcreated : σ.notify (.created parentTid child ev flags t) = .ok (τ, [e])) :
    childView child (Transducer.run notify σ
        [.exited child code signal ts, .created parentTid child ev flags t]) ≠
      childView child (Transducer.run notify σ
        [.created parentTid child ev flags t, .exited child code signal ts]) := by
  intro hview
  have hlost : σ.notify (.exited child code signal ts) = .ok (σ, []) := by
    simp [notify, onProcessExit, hunknown.processForThread, hunknown.process]
  obtain ⟨τ', es', hstep'⟩ : ∃ τ' es', τ.notify (.exited child code signal ts) =
    .ok (τ', es') := ⟨_, _, rfl⟩
  have hevent : ∃ e' ∈ es', e'.pid = child := by
    cases notify_effect hstep' with
    | exitedThread thread => exact absurd hforked.self thread
    | exitedUnknown leader unknown =>
        rw [hforked.record] at unknown
        contradiction
    | exited leader found | exitedRunning leader found | exitedIdle leader found =>
        obtain rfl := Option.some.inj (found.symm.trans hforked.record)
        exact ⟨_, List.mem_cons_self, rfl⟩
  obtain ⟨e', hmem, hpid'⟩ := hevent
  rw [run_two hlost hcreated, run_two hcreated hstep', childView_ok, childView_ok] at hview
  simp only [Except.ok.injEq, Prod.mk.injEq, List.nil_append, List.filter_append,
    List.filter_singleton, hforked.other, cond_false] at hview
  have hnil := hview.1.symm
  rw [List.filter_eq_nil_iff] at hnil
  exact hnil e' hmem (by simp [hpid'])

end early

/-- A single stop of an unknown child that is delivered before the creation
leaves the same record exactly when it is the exit of a system call without
trace. -/
theorem early_stop_agrees_iff (hkeyed : σ.Keyed) (hunknown : Unknown σ child)
    (hparent : σ.findProcessForThread parentTid = some P) (hpid : P.pid ≠ 0)
    (process : isThreadCreation ev flags = false)
    (hkind : (∃ memory call, call.tid = child ∧ n = .syscall memory call) ∨
      (∃ links ts, n = .exec child links ts) ∨
      ∃ code signal ts, n = .exited child code signal ts) :
    childView child (Transducer.run notify σ [n, .created parentTid child ev flags t]) =
        childView child (Transducer.run notify σ [.created parentTid child ev flags t, n]) ↔
      ∃ memory call, n = .syscall memory call ∧ NoTrace memory P call := by
  have hkey : σ.processForThread parentTid ≠ child := by
    intro hkey
    rw [findProcessForThread_def, hkey, hunknown.process] at hparent
    contradiction
  have htid : parentTid ≠ child := by
    rintro rfl
    exact hkey hunknown.processForThread
  obtain ⟨τ, e, hcreated, hforked⟩ := notify_created (t := t) hkeyed hkey htid hparent process
  rcases hkind with ⟨memory, call, rfl, rfl⟩ | ⟨links, ts, rfl⟩ | ⟨code, signal, ts, rfl⟩
  · rw [early_syscall_agrees_iff hunknown hforked hcreated]
    constructor
    · exact fun htrace => ⟨memory, call, rfl, htrace⟩
    · rintro ⟨memory', call', heq, htrace⟩
      obtain ⟨rfl, rfl⟩ := Notification.syscall.inj heq
      exact htrace
  · exact iff_of_false
      (early_exec_differs hkeyed hunknown hkey htid hparent hpid process hforked hcreated)
      (by simp)
  · exact iff_of_false (early_exit_differs hunknown hforked hcreated) (by simp)

end single

/-- Delivery order. When every stop of a child that is delivered before its
creation is the exit of a system call that leaves no trace, neither on a
record left under its tid nor on the record that the creation gives it, the
same is recorded as when the creation is delivered first. -/
theorem delivery_order {root : Pid} {cwd : Bytes} {rootCommand : Option Bytes}
    {startNs : UInt64} {pre mid post : List Notification} {parentTid child : Pid} {ev : UInt32}
    {flags t : UInt64}
    (hbefore : ∀ before n after τ out, mid = before ++ n :: after → n.task = child →
      record root cwd rootCommand startNs (pre ++ before) = .ok (τ, out) → QuietStop τ n)
    (hafter : ∀ n ∈ mid, n.task = child → ∀ τ out,
      record root cwd rootCommand startNs
        (pre ++ (mid ++ [.created parentTid child ev flags t])) = .ok (τ, out) →
      QuietStop τ n) :
    childView child (record root cwd rootCommand startNs
        (pre ++ (mid ++ .created parentTid child ev flags t :: post))) =
      childView child (record root cwd rootCommand startNs
        (pre ++ (stopsOfOthers child mid ++
          .created parentTid child ev flags t :: (stopsOf child mid ++ post)))) := by
  congr 1
  rw [record_eq_map, record_eq_map]
  cases hpre : Transducer.run notify (initialState root cwd rootCommand startNs) pre with
  | error e => rw [Transducer.run_append_of_error _ hpre, Transducer.run_append_of_error _ hpre]
  | ok r =>
      obtain ⟨σ, first⟩ := r
      have hrecord : ∀ {ns τ out}, Transducer.run notify σ ns = .ok (τ, out) →
          record root cwd rootCommand startNs (pre ++ ns) =
            .ok (τ, initialEvents root cwd rootCommand startNs ++ (first ++ out)) := by
        intro ns τ out hrun
        exact (record_ok_iff ..).mpr
          ⟨_, Transducer.run_append_ok_iff.mpr ⟨σ, first, out, hpre, hrun, rfl⟩, rfl⟩
      have hrun := run_creation_first post
        (fun before n after τ out hsplit htask hrun =>
          hbefore before n after τ _ hsplit htask (hrecord hrun))
        (fun n hmem htask τ out hrun => hafter n hmem htask τ _ (hrecord hrun))
      rw [Transducer.run_append_of_ok _ hpre, Transducer.run_append_of_ok _ hpre, hrun]

/-! ### Samples -/

def sampleCall (tid : Pid) (number result : Int64) : Notification :=
  .syscall sampleMemory
    { pid := tid, tid, number, args := Vector.replicate 6 0, result, timestampNs := 2 }

/-- The exit of an open is lost when it is delivered before the creation. -/
theorem early_open_lost :
    childView 8 (record 7 (lit "/") none 0
        ([] ++ ([sampleCall 8 nrOpen 3] ++ .created 7 8 ptraceEventFork 0 1 :: []))) ≠
      childView 8 (record 7 (lit "/") none 0
        ([] ++ (stopsOfOthers 8 [sampleCall 8 nrOpen 3] ++
          .created 7 8 ptraceEventFork 0 1 :: (stopsOf 8 [sampleCall 8 nrOpen 3] ++ [])))) := by
  intro h
  have hlength := congrArg (Except.map fun v => v.1.length) h
  exact absurd hlength (by decide)

theorem delivery_order_sample :
    childView 8 (record 7 (lit "/") none 0
        ([] ++ ([sampleCall 8 39 8] ++ .created 7 8 ptraceEventFork 0 1 ::
          [sampleCall 8 nrOpen 3]))) =
      childView 8 (record 7 (lit "/") none 0
        ([] ++ (stopsOfOthers 8 [sampleCall 8 39 8] ++ .created 7 8 ptraceEventFork 0 1 ::
          (stopsOf 8 [sampleCall 8 39 8] ++ [sampleCall 8 nrOpen 3])))) := by
  have hquiet : ∀ τ n, n ∈ [sampleCall 8 39 8] → QuietStop τ n := by
    intro τ n hn
    refine ⟨sampleMemory, _, List.mem_singleton.mp hn, fun P _ => ?_⟩
    simp [NoTrace, nrOpen, nrOpenat, nrOpenat2, nrRead, nrWrite, nrClose, nrDup, nrDup2, nrDup3,
      nrSocket, nrConnect, nrChdir, nrFchdir]
  refine delivery_order (fun before n after τ out hsplit _ _ => hquiet τ n ?_)
    fun n hn _ τ out _ => hquiet τ n hn
  rw [hsplit]
  simp

end Whyrun
