import Whyrun.Kernel.SyscallPairing

/-!
When the loop of the collector ends. It ends when no task is left that it has
been told of; a task that is attached and of which it has not been told, by a
stop of its own or by the event stop of its creator, does not keep it going.
-/

namespace Whyrun

open CollectorState

/-! ### What the collector is told -/

/-- The task that a creation stop names. -/
def Report.createdTid (report : Report) : Option Pid :=
  if report.highByte = sigTrap ∧ (report.event = ptraceEventFork ∨
      report.event = ptraceEventVfork ∨ report.event = ptraceEventClone) then
    match report.eventMessage with
    | .ok child => some (asInt child)
    | _ => none
  else none

/-- A stop tells of the task that stops and of the one it has created. -/
def Report.Announces (report : Report) (tid : Pid) : Prop :=
  report.isStopped = true ∧ (report.tid = tid ∨ report.createdTid = some tid)

/-- The report is of the end of the task. -/
def Report.Ends (report : Report) (tid : Pid) : Prop :=
  report.isEnd = true ∧ report.tid = tid

namespace TraceAction

def Announces (tid : Pid) (action : TraceAction) : Prop :=
  ∃ report, action.report = some report ∧ report.Announces tid

def Ends (tid : Pid) (action : TraceAction) : Prop :=
  ∃ report, action.report = some report ∧ report.Ends tid

end TraceAction

/-- The collector has been told of the task, and not of its end since. The
root is known from the start. -/
def Announced (root : Pid) (past : List TraceAction) (tid : Pid) : Prop :=
  Transducer.Since (TraceAction.Announces tid) (TraceAction.Ends tid) past ∨
    (tid = root ∧ ∀ action ∈ past, ¬ action.Ends tid)

theorem announced_snoc {root tid : Pid} {past : List TraceAction} {action : TraceAction} :
    Announced root (past ++ [action]) tid ↔
      action.Announces tid ∨ (Announced root past tid ∧ ¬ action.Ends tid) := by
  unfold Announced
  rw [Transducer.since_snoc]
  simp only [List.mem_append, List.mem_singleton, or_imp, forall_and, forall_eq]
  tauto

variable {σ σ' : CollectorState} {report : Report} {turn : Turn} {es : List Event}

/-! ### One turn -/

theorem resumeSyscall_liveTids (turn : Turn) (report : Report) (signal : UInt32) :
    (resumeSyscall turn report signal).state.liveTids = turn.state.liveTids := by
  unfold resumeSyscall
  dsimp only
  split <;> rfl

theorem syscallTurn_liveTids (h : σ.syscallTurn report = .ok turn) :
    turn.state.liveTids = σ.liveTids := by
  rcases syscallTurn_inv h with ⟨-, rfl⟩ | ⟨_, _, -, rfl⟩ | ⟨_, -, -, rfl⟩ | ⟨_, -, -, hexit⟩
  · rfl
  · rfl
  · rfl
  · obtain ⟨_, _, rfl, -⟩ := syscallExitTurn_inv rfl hexit
    rfl

theorem mem_liveTids_eventTurn (htrap : report.highByte = sigTrap) (tid : Pid) :
    tid ∈ (σ.eventTurn report).state.liveTids ↔
      report.createdTid = some tid ∨ tid ∈ σ.liveTids := by
  unfold Report.createdTid eventTurn
  by_cases hcreation : report.event = ptraceEventFork ∨ report.event = ptraceEventVfork ∨
      report.event = ptraceEventClone
  · rw [if_pos hcreation, if_pos ⟨htrap, hcreation⟩]
    cases report.eventMessage <;> simp [CollectorState.fail, eq_comm]
  · have hnone : ¬ (report.highByte = sigTrap ∧ (report.event = ptraceEventFork ∨
        report.event = ptraceEventVfork ∨ report.event = ptraceEventClone)) :=
      fun hboth => hcreation hboth.2
    rw [if_neg hcreation, if_neg hnone]
    split <;> simp

theorem mem_liveTids_stopTurn (h : σ.stopTurn report = .ok turn) (tid : Pid) :
    tid ∈ turn.state.liveTids ↔ report.createdTid = some tid ∨ tid ∈ σ.liveTids := by
  -- only an event stop names a task
  have hquiet (hother : ¬ (report.highByte = sigTrap ∧ report.event ≠ 0)) :
      report.createdTid = none := by
    refine if_neg fun hcreation => hother ⟨hcreation.1, fun hzero => ?_⟩
    have hevent := hcreation.2
    rw [hzero] at hevent
    revert hevent
    decide
  unfold stopTurn at h
  split at h
  · rename_i hsyscall
    have hnone : report.createdTid = none := hquiet fun hevent => by
      rw [hsyscall] at hevent
      exact absurd hevent.1 (by decide)
    obtain ⟨turn', hturn, hrest⟩ := Transducer.bind_ok_iff.mp h
    split at hrest
    · rw [← Except.ok.inj hrest, syscallTurn_liveTids hturn, hnone]
      simp
    · rw [← Except.ok.inj hrest, resumeSyscall_liveTids, syscallTurn_liveTids hturn, hnone]
      simp
  · split at h
    · rename_i htrap
      dsimp only at h
      split at h
      · rw [← Except.ok.inj h]
        exact mem_liveTids_eventTurn htrap.1 tid
      · rw [← Except.ok.inj h, resumeSyscall_liveTids]
        exact mem_liveTids_eventTurn htrap.1 tid
    · rename_i hother
      rw [← Except.ok.inj h, resumeSyscall_liveTids, hquiet hother]
      simp

/-- A turn that goes on keeps the tasks that the collector has been told of. -/
theorem mem_liveTids_collectTurn (h : σ.collectTurn report = .ok turn)
    (hreturned : turn.state.returned = false) (tid : Pid) :
    tid ∈ turn.state.liveTids ↔
      report.Announces tid ∨ (tid ∈ σ.liveTids ∧ ¬ report.Ends tid) := by
  unfold Report.Announces Report.Ends
  cases hstop : report.isStopped with
  | false =>
      cases hend : report.isEnd with
      | true =>
          rw [collectTurn_of_isEnd hend] at h
          rw [← Except.ok.inj h]
          have herase : (σ.exitTurn report).state.liveTids = σ.liveTids.erase report.tid := by
            unfold exitTurn
            dsimp only
            split <;> rfl
          rw [herase, Finset.mem_erase]
          simp only [Bool.false_eq_true, false_and, false_or, true_and]
          tauto
      | false =>
          rw [collectTurn_of_quiet hend hstop] at h
          rw [← Except.ok.inj h]
          simp
  | true =>
      have hend := Report.not_isEnd_of_isStopped hstop
      -- the task that stops is inserted before its stop is looked at
      rw [collectTurn_of_isStopped hstop] at h
      dsimp only at h
      obtain ⟨_, _, _, hstate⟩ :=
        configureTurn_state { σ with liveTids := insert report.tid σ.liveTids } report
      split at h
      · rename_i haborted
        rw [← Except.ok.inj h, haborted] at hreturned
        contradiction
      · obtain ⟨turn', hturn, hlast⟩ := Transducer.bind_ok_iff.mp h
        rw [← Except.ok.inj hlast]
        rw [mem_liveTids_stopTurn hturn, hstate]
        simp [hend, eq_comm, or_left_comm, or_assoc]

/-! ### Runs -/

section runs

variable {past : List TraceAction} {action : TraceAction}

theorem mem_liveTids_traceStep (hwaits : σ.waits = true)
    (hstep : σ.traceStep action = .ok (σ', es)) (hreturned : σ'.returned = false) (tid : Pid) :
    tid ∈ σ'.liveTids ↔
      action.Announces tid ∨ (tid ∈ σ.liveTids ∧ ¬ action.Ends tid) := by
  unfold TraceAction.Announces TraceAction.Ends
  cases hreport : action.report with
  | none =>
      simp only [traceStep, hreport, Except.ok.injEq, Prod.mk.injEq] at hstep
      simp [hstep.1]
  | some report =>
      simp only [traceStep, hreport, loopStep, if_pos hwaits] at hstep
      obtain ⟨turn, execution, hturn, -, rfl⟩ := collectStep_inv hstep
      simpa using mem_liveTids_collectTurn hturn hreturned tid

/-- While the loop goes on, its tasks are those that it has been told of. -/
theorem mem_liveTids_iff (launch : Launch)
    (hrun : Transducer.run traceStep launch.start past = .ok (σ, es)) (hwaits : σ.waits = true)
    (tid : Pid) : tid ∈ σ.liveTids ↔ Announced launch.root past tid := by
  refine Transducer.run_invariant (motive := fun past σ _ => σ.waits = true →
    ∀ tid, tid ∈ σ.liveTids ↔ Announced launch.root past tid) ?_ ?_ hrun hwaits tid
  · intro _ tid
    have hlive : launch.start.liveTids = {launch.root} := rfl
    have hnever : ¬ Transducer.Since (TraceAction.Announces tid) (TraceAction.Ends tid) [] := by
      rintro ⟨before, i, after, hsplit, -⟩
      simp at hsplit
    simp [hlive, Announced, hnever]
  · intro past σ _ action σ' o ih hstep hwaits tid
    have hbefore := waits_of_traceStep hwaits hstep
    have hreturned : σ'.returned = false := by
      simp only [waits, Bool.and_eq_true, Bool.not_eq_true'] at hwaits
      exact hwaits.1
    rw [mem_liveTids_traceStep hbefore hstep hreturned, announced_snoc, ih hbefore]

/-- The loop still waits after these actions. -/
def Waits (launch : Launch) (past : List TraceAction) : Prop :=
  ∃ σ es, Transducer.run traceStep launch.start past = .ok (σ, es) ∧ σ.waits = true

/-- The loop is left by its normal end at this action, with no `ECHILD`. -/
def LeavesAt (launch : Launch) (past : List TraceAction) (action : TraceAction) : Prop :=
  ∃ σ es σ' es', Transducer.run traceStep launch.start past = .ok (σ, es) ∧ σ.waits = true ∧
    σ.traceStep action = .ok (σ', es') ∧ σ'.waits = false ∧ σ'.returned = false

theorem LeavesAt.waits {launch : Launch} (h : LeavesAt launch past action) :
    Waits launch past := by
  obtain ⟨σ, es, _, _, hrun, hwaits, -⟩ := h
  exact ⟨σ, es, hrun, hwaits⟩

/-- When the loop is left, it has been told of no task that still lives. -/
theorem LeavesAt.not_announced {launch : Launch} (h : LeavesAt launch past action) (tid : Pid) :
    ¬ Announced launch.root (past ++ [action]) tid := by
  obtain ⟨σ, es, σ', es', hrun, hwaits, hstep, hleft, hreturned⟩ := h
  have hempty : σ'.liveTids = ∅ := by
    simpa [CollectorState.waits, hreturned] using hleft
  rw [announced_snoc, ← mem_liveTids_iff launch hrun hwaits,
    ← mem_liveTids_traceStep hwaits hstep hreturned, hempty]
  exact Finset.notMem_empty tid

/-- Only the report of an end can leave the loop. -/
theorem LeavesAt.isEnd {launch : Launch} (h : LeavesAt launch past action)
    (hadmits : TraceAdmits launch.root past action) : ∃ report, action = .ended report := by
  have hnone := h.not_announced
  obtain ⟨σ, es, σ', es', hrun, hwaits, hstep, hleft, hreturned⟩ := h
  have hstopped (report : Report) (hreport : action.report = some report)
      (hstop : report.isStopped = true) : False :=
    hnone report.tid (announced_snoc.mpr (.inl ⟨report, hreport, hstop, .inl rfl⟩))
  have hsilent (hreport : action.report = none) : False := by
    simp only [traceStep, hreport, Except.ok.injEq, Prod.mk.injEq] at hstep
    rw [← hstep.1, hwaits] at hleft
    contradiction
  cases action with
  | born | takeover => exact (hsilent rfl).elim
  | enter call report | leave report =>
      have hsyscall := hadmits.1
      simp only [Report.isSyscallStop, Bool.and_eq_true] at hsyscall
      exact (hstopped report rfl hsyscall.1).elim
  | other report => exact (hstopped report rfl hadmits.1).elim
  | ended report => exact ⟨report, rfl⟩

/-- The report of an end never throws and never makes the loop return. -/
theorem collectStep_of_isEnd (hend : report.isEnd = true) :
    ∃ σ' es', σ.collectStep report = .ok (σ', es') ∧ σ'.returned = σ.returned := by
  obtain ⟨r, hr⟩ : ∃ r, Transducer.run ExecutionState.notify (σ.exitTurn report).state.execution
      (σ.exitTurn report).notifications = .ok r := by
    obtain ⟨n, hcalls⟩ : ∃ n, (σ.exitTurn report).notifications = [n] ∧ n.isMarker = false :=
      ⟨_, rfl, rfl⟩
    rw [hcalls.1, Transducer.run_singleton]
    exact notify_ok_of_not_marker _ hcalls.2
  refine ⟨{ (σ.exitTurn report).state with execution := r.1 }, r.2, ?_, ?_⟩
  · simp only [collectStep, collectTurn_of_isEnd hend, Bind.bind, Except.bind, hr]
  · unfold exitTurn
    dsimp only
    split <;> rfl

theorem leavesAt_ended {launch : Launch} (hadmits : TraceAdmits launch.root past (.ended report))
    (hwaits : Waits launch past)
    (hnone : ∀ tid, ¬ Announced launch.root (past ++ [.ended report]) tid) :
    LeavesAt launch past (.ended report) := by
  obtain ⟨σ, es, hrun, hwaits⟩ := hwaits
  obtain ⟨σ', es', hstep, hsame⟩ := collectStep_of_isEnd (σ := σ) hadmits.1
  have hreturned : σ'.returned = false := by
    simp only [CollectorState.waits, Bool.and_eq_true, Bool.not_eq_true'] at hwaits
    rw [hsame, hwaits.1]
  have htrace : σ.traceStep (.ended report) = .ok (σ', es') := by
    simpa only [traceStep, TraceAction.report, loopStep, if_pos hwaits] using hstep
  have hempty : σ'.liveTids = ∅ := by
    refine Finset.eq_empty_of_forall_notMem fun tid hmem => hnone tid ?_
    rwa [announced_snoc, ← mem_liveTids_iff launch hrun hwaits,
      ← mem_liveTids_traceStep hwaits htrace hreturned]
  exact ⟨σ, es, σ', es', hrun, hwaits, htrace, by simp [CollectorState.waits, hempty], hreturned⟩

/-- The loop is left by its normal end only when every task that was ever
attached has ended, exactly when no task is left that the collector has not
been told of at a moment when those that it has been told of have all ended. -/
theorem collection_outlives_iff (launch : Launch) {actions : List TraceAction}
    (legal : Transducer.Legal (TraceAdmits launch.root) actions) :
    (∀ past action rest, actions = past ++ action :: rest → LeavesAt launch past action →
      ∀ tid, tasksAfter launch.root (past ++ [action]) tid = none) ↔
    ∀ past report rest, actions = past ++ .ended report :: rest → Waits launch past →
      (∀ tid, ¬ Announced launch.root (past ++ [.ended report]) tid) →
      ∀ tid, tasksAfter launch.root (past ++ [.ended report]) tid = none := by
  constructor
  · intro h past report rest hsplit hwaits hnone
    exact h past _ rest hsplit (leavesAt_ended (legal _ _ _ hsplit) hwaits hnone)
  · intro h past action rest hsplit hleaves
    obtain ⟨report, rfl⟩ := hleaves.isEnd (legal _ _ _ hsplit)
    exact h past report rest hsplit hleaves.waits hleaves.not_announced

end runs

/-! ### A fork that is killed -/

/-- The report of a stop, or of an end. -/
def sampleStatus (tid : Pid) (status : UInt32) : Report :=
  { tid, status, memory := sampleMemory, nowNs := 1 }

/-- `fork` takes no arguments. -/
def sampleForkCall : EnteredCall := { sampleExecve with number := 57 }

/-- The root 7 enters `fork`, which attaches task 8. -/
def sampleForking : List TraceAction :=
  [.enter sampleForkCall (sampleStatus 7 0x857f), .born 8 8]

theorem sampleForking_legal : Transducer.Legal (TraceAdmits 7) sampleForking := by
  have henter : TraceAdmits 7 [] (.enter sampleForkCall (sampleStatus 7 0x857f)) :=
    ⟨by decide, ⟨_, rfl, rfl⟩, rfl, nofun⟩
  have hborn : TraceAdmits 7 [.enter sampleForkCall (sampleStatus 7 0x857f)] (.born 8 8) :=
    ⟨rfl, .inl rfl⟩
  exact ((Transducer.legal_nil _).snoc henter).snoc hborn

/-- The root is killed inside the fork and its death is reported first: the
loop is left while task 8 lives. -/
theorem unannounced_child_dropped :
    ¬ ∀ (launch : Launch) (actions : List TraceAction),
      Transducer.Legal (TraceAdmits launch.root) actions →
      ∀ past action rest, actions = past ++ action :: rest → LeavesAt launch past action →
        ∀ tid, tasksAfter launch.root (past ++ [action]) tid = none := by
  intro h
  have hkilled : TraceAdmits 7 sampleForking (.ended (sampleStatus 7 9)) :=
    ⟨by decide, by decide⟩
  have hleaves : LeavesAt { root := 7, cwd := [], startNs := 0 } sampleForking
      (.ended (sampleStatus 7 9)) := ⟨_, _, _, _, rfl, rfl, rfl, by decide, rfl⟩
  have hnone := h { root := 7, cwd := [], startNs := 0 } _ (sampleForking_legal.snoc hkilled)
    sampleForking _ [] rfl hleaves 8
  revert hnone
  decide

/-- Task 8 stops before the root is killed. -/
theorem collection_outlives_sample :
    ¬ LeavesAt { root := 7, cwd := [], startNs := 0 }
      (sampleForking ++ [.other (sampleStatus 8 0x137f)]) (.ended (sampleStatus 7 9)) := by
  intro hleaves
  have hstop : TraceAdmits 7 sampleForking (.other (sampleStatus 8 0x137f)) :=
    ⟨by decide, by decide, by decide⟩
  have hkilled : TraceAdmits 7 (sampleForking ++ [.other (sampleStatus 8 0x137f)])
      (.ended (sampleStatus 7 9)) := ⟨by decide, by decide⟩
  have hgone := (collection_outlives_iff { root := 7, cwd := [], startNs := 0 }
    ((sampleForking_legal.snoc hstop).snoc hkilled)).mpr ?_ _ _ [] rfl hleaves 8
  · revert hgone
    decide
  intro past report rest hsplit _ hnone
  obtain ⟨rfl, rfl⟩ : past = sampleForking ++ [.other (sampleStatus 8 0x137f)] ∧
      report = sampleStatus 7 9 := by
    rcases past with _ | ⟨_, _ | ⟨_, _ | ⟨_, _ | ⟨_, _⟩⟩⟩⟩ <;> simp_all [sampleForking]
  refine absurd ?_ (hnone 8)
  refine .inl ⟨sampleForking, .other (sampleStatus 8 0x137f), [.ended (sampleStatus 7 9)], rfl,
    ⟨_, rfl, by decide, .inl rfl⟩, ?_⟩
  intro action haction
  rw [List.mem_singleton.mp haction]
  rintro ⟨_, hreport, -, htid⟩
  obtain rfl := Option.some.inj hreport
  exact absurd htid (by decide)

end Whyrun
