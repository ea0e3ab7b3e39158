import Whyrun.Kernel.LiveTasks
import Whyrun.Kernel.Survival
import Whyrun.Session.Pipeline

/-!
The loop of the collector as a session machine. A turn of the loop feeds the
decoder and the execution state what the machine of sessions reads: the bytes
that the root has written to the channel, and then the other notifications of
the turn. The results about sessions are therefore results about what the
loop records.
-/

namespace Whyrun

open ByteText ExecutionState CollectorState

namespace CollectorState

def session (σ : CollectorState) : SessionState := ⟨σ.protocol, σ.execution⟩

/-- What a turn reads from the channel: the bytes of a write of the root whose
exit the report shows, or why they cannot be had. -/
def received (σ : CollectorState) (report : Report) : Except Failure (Option Bytes) :=
  let σ := (configureTurn { σ with liveTids := insert report.tid σ.liveTids } report).state
  if σ.returned then .ok none
  else
    match σ.markerWrite report with
    | none => .ok none
    | some call => (channelBytes report call).map some

/-- The notifications of a turn that are no markers. -/
def unmarkedCalls (σ : CollectorState) (report : Report) : List Notification :=
  match σ.collectTurn report with
  | .error _ => []
  | .ok turn => turn.notifications.filter fun n => !n.isMarker

/-- The inputs of the session machine that a turn stands for. -/
def sessionInputs (σ : CollectorState) (report : Report) : Except Failure (List SessionInput) :=
  (σ.received report).map fun bytes =>
    bytes.toList.map (fun bytes => .write bytes report.nowNs) ++
      (σ.unmarkedCalls report).map .other

end CollectorState

/-! ### One turn -/

section turns

variable {σ : CollectorState} {report : Report} {turn : Turn}

/-- The turn hands on the notifications and leaves the session alone. -/
structure Plain (σ : CollectorState) (turn : Turn) : Prop where
  session : turn.state.session = σ.session
  rootPid : turn.state.rootPid = σ.rootPid
  unmarked : ∀ n ∈ turn.notifications, n.isMarker = false

theorem Plain.resume (h : Plain σ turn) (signal : UInt32) :
    Plain σ (resumeSyscall turn report signal) := by
  unfold resumeSyscall
  dsimp only
  split
  · exact ⟨h.session, h.rootPid, h.unmarked⟩
  · exact ⟨h.session, h.rootPid, h.unmarked⟩

theorem plain_exitTurn : Plain σ (σ.exitTurn report) := by
  unfold exitTurn
  dsimp only
  refine ⟨?_, ?_, by simp [Notification.isMarker]⟩
  · split <;> rfl
  · split <;> rfl

theorem plain_eventTurn : Plain σ (σ.eventTurn report) := by
  unfold eventTurn
  split
  · split
    · exact ⟨rfl, rfl, by simp [Notification.isMarker]⟩
    · exact ⟨rfl, rfl, by simp⟩
  · split
    · exact ⟨rfl, rfl, by simp [Notification.isMarker]⟩
    · exact ⟨rfl, rfl, by simp⟩

theorem run_others (root : Pid) (session : SessionState) (ns : List Notification) :
    Transducer.run (SessionState.step root) session (ns.map .other) =
      (Transducer.run notify session.execution ns).map fun r =>
        ({ session with execution := r.1 }, r.2) := by
  induction ns generalizing session with
  | nil => rfl
  | cons n ns ih =>
      rw [List.map_cons]
      cases hstep : session.execution.notify n with
      | error e =>
          have hother : SessionState.step root session (.other n) = .error e := by
            simp only [SessionState.step, hstep, Bind.bind, Except.bind]
          rw [Transducer.run_cons_of_error _ hstep, Transducer.run_cons_of_error _ hother]
          rfl
      | ok r =>
          obtain ⟨τ, es⟩ := r
          have hother : SessionState.step root session (.other n) =
              .ok ({ session with execution := τ }, es) := by
            simp only [SessionState.step, hstep, Bind.bind, Except.bind]
          rw [Transducer.run_cons_of_ok _ hstep, Transducer.run_cons_of_ok _ hother, ih]
          cases Transducer.run notify τ ns <;> rfl

/-- What a step does to the session and the sink. -/
def sessionStep (σ : CollectorState) (report : Report) :
    Except Failure (SessionState × List Event) :=
  (σ.collectStep report).map fun r => (r.1.session, r.2)

theorem sessionStep_of_error {e : Failure} (h : σ.collectTurn report = .error e) :
    sessionStep σ report = .error e := by
  simp only [sessionStep, collectStep, h, Bind.bind, Except.bind]
  rfl

theorem sessionStep_of_ok (h : σ.collectTurn report = .ok turn) :
    sessionStep σ report =
      (Transducer.run notify turn.state.execution turn.notifications).map fun r =>
        (⟨turn.state.protocol, r.1⟩, r.2) := by
  simp only [sessionStep, collectStep, h, Bind.bind, Except.bind]
  cases Transducer.run notify turn.state.execution turn.notifications <;> rfl

/-- The step runs the session machine on its inputs. -/
def RunsSession (σ : CollectorState) (report : Report) : Prop :=
  sessionStep σ report = (σ.sessionInputs report).bind fun inputs =>
    Transducer.run (SessionState.step σ.rootPid) σ.session inputs

/-- A turn that reads nothing from the channel. -/
theorem Plain.runsSession (h : Plain σ turn) (hturn : σ.collectTurn report = .ok turn)
    (hnothing : σ.received report = .ok none) : RunsSession σ report := by
  have hcalls : σ.unmarkedCalls report = turn.notifications := by
    rw [unmarkedCalls, hturn]
    exact List.filter_eq_self.mpr fun n hn => by simp [h.unmarked n hn]
  obtain ⟨hprotocol, hexecution⟩ := SessionState.mk.inj h.session
  rw [RunsSession, sessionStep_of_ok hturn, sessionInputs, hnothing, hcalls, hprotocol, hexecution]
  exact (run_others σ.rootPid σ.session turn.notifications).symm

theorem filter_unmarked (root : Pid) (ms : List CommandMarker) (t : UInt64) (memory : TraceeMemory)
    (call : RawSyscall) :
    ((markerNotifications root ms t ++ [Notification.syscall memory call]).filter fun n =>
      !n.isMarker) = [.syscall memory call] := by
  rw [List.filter_append, List.filter_eq_nil_iff.mpr]
  · rfl
  · intro n hn
    obtain ⟨m, -, rfl⟩ := List.mem_map.mp hn
    simp [Notification.isMarker]

/-- A turn that reads a write of the root from the channel. -/
theorem runsSession_of_received (call : RawSyscall) {bytes : Bytes}
    (hreceived : σ.received report = .ok (some bytes))
    (hrefused : ∀ e, σ.protocol.consume bytes = .error e → σ.collectTurn report = .error e)
    (hread : ∀ protocol ms, σ.protocol.consume bytes = .ok (protocol, ms) →
      ∃ turn, σ.collectTurn report = .ok turn ∧ turn.state.session = ⟨protocol, σ.execution⟩ ∧
        turn.notifications = markerNotifications σ.rootPid ms report.nowNs ++
          [.syscall report.memory call]) : RunsSession σ report := by
  cases hconsume : σ.protocol.consume bytes with
  | error e =>
      have hwrite : SessionState.step σ.rootPid σ.session (.write bytes report.nowNs) =
          .error e := by
        simp only [SessionState.step, SessionState.consumeMarkers, session, hconsume, Bind.bind,
          Except.bind]
      have hturn := hrefused e hconsume
      rw [RunsSession, sessionStep_of_error hturn, sessionInputs, hreceived, unmarkedCalls, hturn]
      show _ = Transducer.run (SessionState.step σ.rootPid) σ.session [.write bytes report.nowNs]
      rw [Transducer.run_singleton, hwrite]
  | ok r =>
      obtain ⟨protocol, ms⟩ := r
      obtain ⟨turn, hturn, hsession, hcalls⟩ := hread protocol ms hconsume
      obtain ⟨hprotocol, hexecution⟩ := SessionState.mk.inj hsession
      have hunmarked : σ.unmarkedCalls report = [.syscall report.memory call] := by
        rw [unmarkedCalls, hturn]
        simp only [hcalls]
        exact filter_unmarked ..
      rw [RunsSession, sessionStep_of_ok hturn, sessionInputs, hreceived, hunmarked, hcalls,
        hexecution, hprotocol]
      show _ = Transducer.run (SessionState.step σ.rootPid) σ.session
        (.write bytes report.nowNs :: [Notification.syscall report.memory call].map .other)
      cases hmarkers : Transducer.run notify σ.execution
          (markerNotifications σ.rootPid ms report.nowNs) with
      | error e =>
          have hwrite : SessionState.step σ.rootPid σ.session (.write bytes report.nowNs) =
              .error e := by
            simp only [SessionState.step, SessionState.consumeMarkers, session, hconsume, Bind.bind,
              Except.bind]
            rw [← markerNotifications, hmarkers]
          rw [Transducer.run_append_of_error _ hmarkers, Transducer.run_cons_of_error _ hwrite]
          rfl
      | ok r =>
          obtain ⟨τ, es⟩ := r
          have hwrite : SessionState.step σ.rootPid σ.session (.write bytes report.nowNs) =
              .ok (⟨protocol, τ⟩, es) := by
            simp only [SessionState.step, SessionState.consumeMarkers, session, hconsume, Bind.bind,
              Except.bind]
            rw [← markerNotifications, hmarkers]
          rw [Transducer.run_append_of_ok _ hmarkers, Transducer.run_cons_of_ok _ hwrite, run_others]
          cases Transducer.run notify τ [Notification.syscall report.memory call] <;> rfl

theorem resumeSyscall_notifications (turn : Turn) (report : Report) (signal : UInt32) :
    (resumeSyscall turn report signal).notifications = turn.notifications := by
  unfold resumeSyscall
  dsimp only
  split <;> rfl

theorem resumeSyscall_session (turn : Turn) (report : Report) (signal : UInt32) :
    (resumeSyscall turn report signal).state.session = turn.state.session := by
  unfold resumeSyscall
  dsimp only
  split <;> rfl

/-! ### A stop

The options leave the session alone, and the rest of the turn works from
there. -/

section stops

variable {τ : CollectorState}
  (hconfigured : (configureTurn { σ with liveTids := insert report.tid σ.liveTids }
    report).state = τ)

include hconfigured

theorem configured_session : τ.session = σ.session := by
  obtain ⟨_, _, _, hstate⟩ :=
    configureTurn_state { σ with liveTids := insert report.tid σ.liveTids } report
  rw [← hconfigured, hstate]
  rfl

theorem configured_rootPid : τ.rootPid = σ.rootPid := by
  obtain ⟨_, _, _, hstate⟩ :=
    configureTurn_state { σ with liveTids := insert report.tid σ.liveTids } report
  rw [← hconfigured, hstate]

theorem Plain.of_configured (h : Plain τ turn) : Plain σ turn :=
  ⟨h.session.trans (configured_session hconfigured),
    h.rootPid.trans (configured_rootPid hconfigured), h.unmarked⟩

theorem collectTurn_of_goes (hstop : report.isStopped = true) (hgoes : τ.returned = false) :
    σ.collectTurn report = (τ.stopTurn report).map fun turn =>
      { turn with requests := (configureTurn { σ with
          liveTids := insert report.tid σ.liveTids } report).requests ++ turn.requests } := by
  rw [collectTurn_of_isStopped hstop]
  dsimp only
  rw [hconfigured, hgoes]
  simp only [Bool.false_eq_true, if_false, Bind.bind, Except.bind]
  cases τ.stopTurn report <;> rfl

theorem collectTurn_of_syscall (hsyscall : report.isSyscallStop = true)
    (hgoes : τ.returned = false) :
    σ.collectTurn report = (τ.syscallTurn report).map fun turn =>
      let turn := if turn.state.returned then turn else resumeSyscall turn report 0
      { turn with requests := (configureTurn { σ with
          liveTids := insert report.tid σ.liveTids } report).requests ++ turn.requests } := by
  have hstop : report.isStopped = true := by
    simp only [Report.isSyscallStop, Bool.and_eq_true] at hsyscall
    exact hsyscall.1
  have htrap : report.highByte = syscallTrap := by
    simpa [Report.isSyscallStop, hstop] using hsyscall
  rw [collectTurn_of_goes hconfigured hstop hgoes, stopTurn, if_pos htrap]
  cases τ.syscallTurn report with
  | error e => rfl
  | ok turn =>
      cases hreturned : turn.state.returned <;>
        simp [hreturned, Bind.bind, Except.bind, Except.map]

theorem received_of_goes (hgoes : τ.returned = false) :
    σ.received report =
      match τ.markerWrite report with
      | none => .ok none
      | some call => (channelBytes report call).map some := by
  rw [received, hconfigured, if_neg (by simp [hgoes])]

/-- A system call stop of which the turn hands on the notifications. -/
theorem runsSession_of_plain {inner : Turn} (hsyscall : report.isSyscallStop = true)
    (hgoes : τ.returned = false) (hinner : τ.syscallTurn report = .ok inner)
    (hplain : Plain τ inner) (hnothing : σ.received report = .ok none) :
    RunsSession σ report := by
  have hturn := collectTurn_of_syscall hconfigured hsyscall hgoes
  rw [hinner] at hturn
  refine Plain.runsSession ?_ hturn hnothing
  have hafter := hplain.of_configured hconfigured
  dsimp only
  split
  · exact ⟨hafter.session, hafter.rootPid, hafter.unmarked⟩
  · have hresumed : Plain σ (resumeSyscall inner report 0) := hafter.resume 0
    exact ⟨hresumed.session, hresumed.rootPid, hresumed.unmarked⟩

/-- The exit of a call of the root that writes to the channel. -/
theorem runsSession_write {call : RawSyscall} {thread : ThreadState} {registers : Registers}
    (hsyscall : report.isSyscallStop = true) (hgoes : τ.returned = false)
    (hinner : τ.syscallTurn report = τ.syscallExitTurn report thread registers)
    (hcall : τ.rawSyscall report.tid thread registers report.nowNs = call)
    (hwrite : report.tid = τ.rootPid ∧ τ.channel.receives call = true ∧ 0 < call.result)
    (hreads : σ.received report = (channelBytes report call).map some) :
    RunsSession σ report := by
  have htime : call.timestampNs = report.nowNs := by
    rw [← hcall]
    rfl
  have hturn := collectTurn_of_syscall hconfigured hsyscall hgoes
  rw [hinner, syscallExitTurn, hcall, htime, if_pos hwrite] at hturn
  have hprotocol : τ.protocol = σ.protocol :=
    (SessionState.mk.inj (configured_session hconfigured)).1
  have hexecution : τ.execution = σ.execution :=
    (SessionState.mk.inj (configured_session hconfigured)).2
  cases hbytes : channelBytes report call with
  | error e =>
      rw [hbytes] at hreads hturn
      rw [RunsSession, sessionStep_of_error hturn, sessionInputs, hreads]
      rfl
  | ok bytes =>
      rw [hbytes] at hreads hturn
      refine runsSession_of_received call hreads ?_ ?_
      · intro e hconsume
        simp only [hturn, hprotocol, hconsume, Bind.bind, Except.bind, Except.map]
      · intro protocol ms hconsume
        simp only [hprotocol, hconsume, Bind.bind, Except.bind, Except.map] at hturn
        refine ⟨_, hturn, ?_, ?_⟩
        · split
          · rw [← hexecution]
            rfl
          · show (resumeSyscall _ report 0).state.session = _
            rw [resumeSyscall_session, ← hexecution]
            rfl
        · split
          · rw [← configured_rootPid hconfigured, ← hwrite.1]
            rfl
          · show (resumeSyscall _ report 0).notifications = _
            rw [resumeSyscall_notifications, ← configured_rootPid hconfigured, ← hwrite.1]
            rfl

/-- A system call stop. -/
theorem runsSession_syscall (hsyscall : report.isSyscallStop = true)
    (hgoes : τ.returned = false) : RunsSession σ report := by
  have hreads := received_of_goes hconfigured hgoes
  cases hregisters : report.registers with
  | esrch =>
      have hinner : τ.syscallTurn report = .ok { state := τ } := by rw [syscallTurn, hregisters]
      exact runsSession_of_plain hconfigured hsyscall hgoes hinner ⟨rfl, rfl, by simp⟩
        (by simp only [hreads, markerWrite, hregisters])
  | failed strerror =>
      have hinner : ∃ message, τ.syscallTurn report = .ok { state := τ.fail message } :=
        ⟨_, by rw [syscallTurn, hregisters]⟩
      obtain ⟨message, hinner⟩ := hinner
      exact runsSession_of_plain hconfigured hsyscall hgoes hinner ⟨rfl, rfl, by simp⟩
        (by simp only [hreads, markerWrite, hregisters])
  | ok registers =>
      cases hinside : ((τ.threads report.tid).getD {}).inSyscall with
      | false =>
          have hinner : ∃ entered, τ.syscallTurn report =
              .ok { state := τ.setThread report.tid (some entered) } := by
            rw [syscallTurn, hregisters]
            simp only [hinside, Bool.not_false, if_true]
            exact ⟨_, rfl⟩
          obtain ⟨entered, hinner⟩ := hinner
          exact runsSession_of_plain hconfigured hsyscall hgoes hinner ⟨rfl, rfl, by simp⟩
            (by simp [hreads, markerWrite, hregisters, hinside])
      | true =>
          have hinner : τ.syscallTurn report =
              τ.syscallExitTurn report ((τ.threads report.tid).getD {}) registers := by
            rw [syscallTurn, hregisters]
            simp [hinside]
          obtain ⟨call, hcall⟩ : ∃ call, τ.rawSyscall report.tid
            ((τ.threads report.tid).getD {}) registers report.nowNs = call := ⟨_, rfl⟩
          have hwritten := markerWrite_eq hregisters hsyscall hinside hcall
          by_cases hwrite : report.tid = τ.rootPid ∧ τ.channel.receives call = true ∧
              0 < call.result
          · rw [hwritten, if_pos hwrite] at hreads
            exact runsSession_write hconfigured hsyscall hgoes hinner hcall hwrite hreads
          · rw [hwritten, if_neg hwrite] at hreads
            rw [syscallExitTurn, hcall, if_neg hwrite] at hinner
            exact runsSession_of_plain hconfigured hsyscall hgoes hinner
              ⟨rfl, rfl, by simp [Notification.isMarker]⟩ hreads

theorem runsSession_of_stop (hstop : report.isStopped = true) : RunsSession σ report := by
  cases hgoes : τ.returned with
  | true =>
      have hturn : σ.collectTurn report = .ok (configureTurn { σ with
          liveTids := insert report.tid σ.liveTids } report) := by
        rw [collectTurn_of_isStopped hstop]
        dsimp only
        rw [hconfigured, hgoes, if_pos rfl]
      refine Plain.runsSession ⟨?_, ?_, ?_⟩ hturn ?_
      · rw [hconfigured, configured_session hconfigured]
      · rw [hconfigured, configured_rootPid hconfigured]
      · simp [configureTurn_notifications]
      · rw [received, hconfigured, hgoes, if_pos rfl]
  | false =>
      by_cases htrap : report.highByte = syscallTrap
      · exact runsSession_syscall hconfigured (by simp [Report.isSyscallStop, hstop, htrap]) hgoes
      · have hnothing : σ.received report = .ok none := by
          rw [received_of_goes hconfigured hgoes,
            markerWrite_eq_none (by simp [Report.isSyscallStop, htrap])]
        have hturn := collectTurn_of_goes hconfigured hstop hgoes
        rw [stopTurn, if_neg htrap] at hturn
        have plain : ∀ inner rs, σ.collectTurn report = .ok { inner with requests := rs } →
            Plain τ inner → RunsSession σ report := by
          intro inner rs hinner hplain
          have hafter := hplain.of_configured hconfigured
          have hasked : Plain σ { inner with requests := rs } :=
            ⟨hafter.session, hafter.rootPid, hafter.unmarked⟩
          exact hasked.runsSession hinner hnothing
        by_cases hevent : report.highByte = sigTrap ∧ report.event ≠ 0
        · rw [if_pos hevent] at hturn
          cases hreturned : (τ.eventTurn report).state.returned with
          | true =>
              simp only [hreturned, if_true, Except.map] at hturn
              exact plain _ _ hturn plain_eventTurn
          | false =>
              simp only [hreturned, Bool.false_eq_true, if_false, Except.map] at hturn
              exact plain _ _ hturn (plain_eventTurn.resume 0)
        · rw [if_neg hevent] at hturn
          have hquiet : Plain τ { state := τ } := ⟨rfl, rfl, by simp⟩
          exact plain _ _ hturn (hquiet.resume _)

end stops

/-- Every turn of the loop is a run of the session machine. -/
theorem runsSession (σ : CollectorState) (report : Report) : RunsSession σ report := by
  have nothing (h : report.isStopped = false) : σ.received report = .ok none := by
    rw [received, markerWrite_eq_none (by simp [Report.isSyscallStop, h])]
    split <;> rfl
  cases hend : report.isEnd with
  | true =>
      have hstop : report.isStopped = false := by
        cases h : report.isStopped with
        | false => rfl
        | true => simp [Report.not_isEnd_of_isStopped h] at hend
      exact plain_exitTurn.runsSession (collectTurn_of_isEnd hend) (nothing hstop)
  | false =>
      cases hstop : report.isStopped with
      | false =>
          exact Plain.runsSession ⟨rfl, rfl, by simp⟩ (collectTurn_of_quiet hend hstop)
            (nothing hstop)
      | true => exact runsSession_of_stop rfl hstop

end turns

/-! ### The tasks that a turn tells of -/

section turns

variable {σ : CollectorState} {report : Report} {turn : Turn}

/-- The notifications tell of no other end and of no other new task than the
report. -/
def TellsOf (report : Report) (ns : List Notification) : Prop :=
  ∀ n ∈ ns, ∀ tid, (n.exits tid = true → report.Ends tid) ∧
    (n.creates tid = true → report.createdTid = some tid)

theorem tellsOf_syscallTurn (h : σ.syscallTurn report = .ok turn) :
    TellsOf report turn.notifications := by
  rcases syscallTurn_inv h with ⟨-, rfl⟩ | ⟨_, _, -, rfl⟩ | ⟨_, -, -, rfl⟩ | ⟨_, -, -, hexit⟩
  · simp [TellsOf]
  · simp [TellsOf]
  · simp [TellsOf]
  · obtain ⟨_, ms, rfl, -⟩ := syscallExitTurn_inv rfl hexit
    intro n hn tid
    rcases List.mem_append.mp hn with hn | hn
    · obtain ⟨m, -, rfl⟩ := List.mem_map.mp hn
      simp [Notification.exits, Notification.creates]
    · rw [List.mem_singleton.mp hn]
      simp [Notification.exits, Notification.creates]

theorem tellsOf_eventTurn (htrap : report.highByte = sigTrap) :
    TellsOf report (σ.eventTurn report).notifications := by
  unfold eventTurn
  split
  · rename_i hcreation
    cases hanswer : report.eventMessage with
    | ok child =>
        intro n hn tid
        rw [List.mem_singleton.mp hn]
        simp [Notification.exits, Notification.creates, Report.createdTid, htrap, hcreation,
          hanswer]
    | esrch => simp [TellsOf]
    | failed strerror => simp [TellsOf]
  · split
    · intro n hn tid
      rw [List.mem_singleton.mp hn]
      simp [Notification.exits, Notification.creates]
    · simp [TellsOf]

theorem tellsOf_stopTurn (h : σ.stopTurn report = .ok turn) : TellsOf report turn.notifications := by
  unfold stopTurn at h
  split at h
  · obtain ⟨inner, hinner, hrest⟩ := Transducer.bind_ok_iff.mp h
    split at hrest
    · rw [← Except.ok.inj hrest]
      exact tellsOf_syscallTurn hinner
    · rw [← Except.ok.inj hrest, resumeSyscall_notifications]
      exact tellsOf_syscallTurn hinner
  · split at h
    · rename_i htrap
      dsimp only at h
      split at h
      · rw [← Except.ok.inj h]
        exact tellsOf_eventTurn htrap.1
      · rw [← Except.ok.inj h, resumeSyscall_notifications]
        exact tellsOf_eventTurn htrap.1
    · rw [← Except.ok.inj h, resumeSyscall_notifications]
      simp [TellsOf]

theorem tellsOf_collectTurn (h : σ.collectTurn report = .ok turn) :
    TellsOf report turn.notifications := by
  cases hend : report.isEnd with
  | true =>
      rw [collectTurn_of_isEnd hend] at h
      rw [← Except.ok.inj h]
      intro n hn tid
      have hexit : n = .exited report.tid _ _ _ := List.mem_singleton.mp hn
      rw [hexit]
      simp [Notification.exits, Notification.creates, Report.Ends, hend]
  | false =>
      cases hstop : report.isStopped with
      | false =>
          rw [collectTurn_of_quiet hend hstop] at h
          rw [← Except.ok.inj h]
          simp [TellsOf]
      | true =>
          rw [collectTurn_of_isStopped hstop] at h
          dsimp only at h
          split at h
          · rw [← Except.ok.inj h, configureTurn_notifications]
            simp [TellsOf]
          · obtain ⟨inner, hinner, hlast⟩ := Transducer.bind_ok_iff.mp h
            rw [← Except.ok.inj hlast]
            show TellsOf report inner.notifications
            exact tellsOf_stopTurn hinner

end turns

/-! ### The loop -/

/-- The inputs that the reports carry, as far as the loop asks for them. -/
def CollectorState.carried : CollectorState → List Report → Except Failure (List SessionInput)
  | _, [] => .ok []
  | σ, report :: reports =>
      if σ.waits then do
        let inputs ← σ.sessionInputs report
        match σ.collectStep report with
        | .error _ => .ok inputs
        | .ok (σ', _) =>
            let more ← σ'.carried reports
            .ok (inputs ++ more)
      else .ok []

section loop

variable {σ σ' : CollectorState} {report : Report} {reports : List Report} {es : List Event}

theorem rootPid_collectStep (h : σ.collectStep report = .ok (σ', es)) :
    σ'.rootPid = σ.rootPid := by
  have houtcome := congrArg Prod.fst (outcome_collectStep h)
  show σ'.outcome.1 = σ.rootPid
  rw [houtcome]
  split <;> rfl

/-- The inputs of a turn that is carried out, and what is carried after it. -/
theorem carried_of_ok (reports : List Report) (hwaits : σ.waits = true)
    (hstep : σ.collectStep report = .ok (σ', es)) :
    ∃ inputs, σ.sessionInputs report = .ok inputs ∧
      Transducer.run (SessionState.step σ.rootPid) σ.session inputs = .ok (σ'.session, es) ∧
      σ.carried (report :: reports) = (σ'.carried reports).map (inputs ++ ·) := by
  have hturn := runsSession σ report
  rw [RunsSession, sessionStep, hstep] at hturn
  rw [carried, hwaits, if_pos rfl, hstep]
  cases hinputs : σ.sessionInputs report with
  | error e =>
      rw [hinputs] at hturn
      simp [Except.map, Except.bind] at hturn
  | ok inputs =>
      rw [hinputs] at hturn
      refine ⟨inputs, rfl, hturn.symm, ?_⟩
      cases hmore : σ'.carried reports <;> simp [hmore, Bind.bind, Except.bind, Except.map]

/-- A run of the loop is a run of the session machine on what the reports
carry. -/
theorem run_session (σ : CollectorState) (reports : List Report) :
    (Transducer.run loopStep σ reports).map (fun r => (r.1.session, r.2)) =
      (σ.carried reports).bind (Transducer.run (SessionState.step σ.rootPid) σ.session) := by
  induction reports generalizing σ with
  | nil => rfl
  | cons report reports ih =>
      cases hwaits : σ.waits with
      | false =>
          have hdone : Transducer.run loopStep σ (report :: reports) = .ok (σ, []) :=
            Transducer.run_of_idle fun r _ => by rw [loopStep, hwaits]; rfl
          rw [hdone, carried, hwaits]
          rfl
      | true =>
          have hloop : σ.loopStep report = σ.collectStep report := by rw [loopStep, hwaits]; rfl
          cases hstep : σ.collectStep report with
          | error e =>
              have hturn := runsSession σ report
              rw [RunsSession, sessionStep, hstep] at hturn
              rw [Transducer.run_cons_of_error _ (hloop.trans hstep), carried, hwaits, if_pos rfl,
                hstep]
              cases hinputs : σ.sessionInputs report with
              | error e' =>
                  rw [hinputs] at hturn
                  exact hturn
              | ok inputs =>
                  rw [hinputs] at hturn
                  exact hturn
          | ok r =>
              obtain ⟨σ', es⟩ := r
              obtain ⟨inputs, -, hrun, hcarried⟩ := carried_of_ok reports hwaits hstep
              have hrest := ih σ'
              rw [rootPid_collectStep hstep] at hrest
              rw [Transducer.run_cons_of_ok _ (hloop.trans hstep), hcarried]
              cases hmore : σ'.carried reports with
              | error e =>
                  rw [hmore] at hrest
                  cases hloops : Transducer.run loopStep σ' reports with
                  | error e' =>
                      rw [hloops] at hrest
                      exact hrest
                  | ok r =>
                      rw [hloops] at hrest
                      simp [Except.map, Except.bind] at hrest
              | ok more =>
                  rw [hmore] at hrest
                  show _ = Transducer.run (SessionState.step σ.rootPid) σ.session (inputs ++ more)
                  have hmoreRun : Transducer.run (SessionState.step σ.rootPid) σ'.session more =
                      (Transducer.run loopStep σ' reports).map fun r => (r.1.session, r.2) :=
                    hrest.symm
                  rw [Transducer.run_append_of_ok _ hrun, hmoreRun]
                  cases Transducer.run loopStep σ' reports <;> rfl

end loop

/-! ### The sessions that the loop can run -/

/-- Nothing is reported under the tid of the root after its end, and no task
is made under it before. -/
structure ReportAdmits (root : Pid) (past : List Report) (report : Report) : Prop where
  reported : report.tid = root → ∀ r ∈ past, ¬ r.Ends root
  created : (∀ r ∈ past, ¬ r.Ends root) → report.createdTid ≠ some root

section legal

variable {root : Pid} {σ : CollectorState} {report : Report} {past : List Report}
  {before inputs : List SessionInput}

@[simp] theorem others_map_other (ns : List Notification) :
    others (ns.map .other) = ns := by
  simp [others, List.filterMap_map]

theorem legal_append_others {ns : List Notification}
    (legal : Transducer.Legal (SessionAdmits root) before)
    (h : ∀ n ∈ ns, n.isMarker = false ∧
      (rootAlive root (others before) = true → n.creates root = false)) :
    Transducer.Legal (SessionAdmits root) (before ++ ns.map .other) := by
  induction ns using List.reverseRecOn with
  | nil => simpa using legal
  | append_singleton ns n ih =>
      rw [List.map_append, ← List.append_assoc, List.map_singleton]
      refine (ih fun m hm => h m (by simp [hm])).snoc ⟨(h n (by simp)).1, fun halive => ?_⟩
      refine (h n (by simp)).2 ?_
      rw [others_append, rootAlive_append, Bool.and_eq_true] at halive
      exact halive.1

theorem tid_of_markerWrite {call : RawSyscall} (h : σ.markerWrite report = some call) :
    report.tid = σ.rootPid := by
  unfold markerWrite at h
  split at h
  · dsimp only at h
    split at h
    · rename_i hwrite
      exact hwrite.2.2.1
    · contradiction
  · contradiction

/-- Only the root's writes are read. -/
theorem tid_of_received {bytes : Bytes} (h : σ.received report = .ok (some bytes)) :
    report.tid = σ.rootPid := by
  have hroot : (configureTurn { σ with liveTids := insert report.tid σ.liveTids }
      report).state.rootPid = σ.rootPid := configured_rootPid rfl
  rw [← hroot]
  unfold received at h
  dsimp only at h
  split at h
  · simp at h
  · split at h
    · simp at h
    · rename_i hwritten
      exact tid_of_markerWrite hwritten

theorem mem_unmarkedCalls {n : Notification} (hn : n ∈ σ.unmarkedCalls report) :
    n.isMarker = false ∧ (∀ tid, n.exits tid = true → report.Ends tid) ∧
      ∀ tid, n.creates tid = true → report.createdTid = some tid := by
  unfold unmarkedCalls at hn
  cases hturn : σ.collectTurn report with
  | error e => simp [hturn] at hn
  | ok turn =>
      simp only [hturn, List.mem_filter] at hn
      have htells := tellsOf_collectTurn hturn n hn.1
      exact ⟨by simpa using hn.2, fun tid => (htells tid).1, fun tid => (htells tid).2⟩

theorem rootAlive_unmarkedCalls :
    rootAlive root (σ.unmarkedCalls report) = true ↔ ¬ report.Ends root := by
  rw [rootAlive, List.all_eq_true]
  constructor
  · rintro hall ⟨hend, htid⟩
    have hcalls : σ.unmarkedCalls report = (σ.exitTurn report).notifications := by
      rw [unmarkedCalls, collectTurn_of_isEnd hend]
      rfl
    rw [hcalls] at hall
    have hexit := hall _ (List.mem_singleton_self _)
    simp [Notification.exits, htid] at hexit
  · intro hgoes n hn
    cases hexits : n.exits root with
    | false => rfl
    | true => exact absurd ((mem_unmarkedCalls hn).2.1 root hexits) hgoes

/-- What a report carries is admitted after what the earlier ones carry. -/
theorem legal_sessionInputs (hroot : σ.rootPid = root) (hadmits : ReportAdmits root past report)
    (legal : Transducer.Legal (SessionAdmits root) before)
    (halive : rootAlive root (others before) = true ↔ ∀ r ∈ past, ¬ r.Ends root)
    (h : σ.sessionInputs report = .ok inputs) :
    Transducer.Legal (SessionAdmits root) (before ++ inputs) ∧
      (rootAlive root (others (before ++ inputs)) = true ↔
        ∀ r ∈ past ++ [report], ¬ r.Ends root) := by
  have hcalls : ∀ n ∈ σ.unmarkedCalls report, n.isMarker = false ∧
      (rootAlive root (others before) = true → n.creates root = false) := by
    intro n hn
    obtain ⟨hmarker, -, hcreates⟩ := mem_unmarkedCalls hn
    refine ⟨hmarker, fun hlives => ?_⟩
    cases hcreated : n.creates root with
    | false => rfl
    | true => exact absurd (hcreates root hcreated) (hadmits.created (halive.mp hlives))
  have hends : ∀ writes, others writes = [] →
      (rootAlive root (others (before ++ (writes ++ (σ.unmarkedCalls report).map .other))) = true ↔
        ∀ r ∈ past ++ [report], ¬ r.Ends root) := by
    intro writes hwrites
    rw [others_append, others_append, hwrites, List.nil_append, others_map_other,
      rootAlive_append, Bool.and_eq_true, halive, rootAlive_unmarkedCalls]
    simp [or_imp, forall_and]
  unfold sessionInputs at h
  cases hreceived : σ.received report with
  | error e => simp [hreceived, Except.map] at h
  | ok bytes =>
      rw [hreceived] at h
      rw [← Except.ok.inj h]
      cases bytes with
      | none => exact ⟨legal_append_others legal hcalls, hends [] rfl⟩
      | some bytes =>
          have hlives : rootAlive root (others before) = true :=
            halive.mpr (hadmits.reported ((tid_of_received hreceived).trans hroot))
          refine ⟨?_, hends [.write bytes report.nowNs] rfl⟩
          have hwrite : Transducer.Legal (SessionAdmits root)
              (before ++ [.write bytes report.nowNs]) := legal.snoc hlives
          have hsame : others (before ++ [.write bytes report.nowNs]) = others before := by
            rw [others_append]
            exact List.append_nil _
          have hrest := legal_append_others hwrite (by rwa [hsame])
          rwa [List.append_assoc] at hrest

theorem legal_carried {reports : List Report} (hroot : σ.rootPid = root)
    (hadmits : ∀ p r rest, reports = p ++ r :: rest → ReportAdmits root (past ++ p) r)
    (legal : Transducer.Legal (SessionAdmits root) before)
    (halive : rootAlive root (others before) = true ↔ ∀ r ∈ past, ¬ r.Ends root)
    (h : σ.carried reports = .ok inputs) :
    Transducer.Legal (SessionAdmits root) (before ++ inputs) := by
  induction reports generalizing σ past before inputs with
  | nil =>
      rw [← Except.ok.inj h, List.append_nil]
      exact legal
  | cons report reports ih =>
      have hreport : ReportAdmits root past report := by
        have hfirst := hadmits [] report reports rfl
        rwa [List.append_nil] at hfirst
      cases hwaits : σ.waits with
      | false =>
          rw [carried, hwaits] at h
          rw [← Except.ok.inj h, List.append_nil]
          exact legal
      | true =>
          cases hstep : σ.collectStep report with
          | error e =>
              rw [carried, hwaits, if_pos rfl, hstep] at h
              obtain ⟨inputs', hinputs, hlast⟩ := Transducer.bind_ok_iff.mp h
              rw [← Except.ok.inj hlast]
              exact (legal_sessionInputs hroot hreport legal halive hinputs).1
          | ok r =>
              obtain ⟨σ', es⟩ := r
              obtain ⟨inputs', hinputs, -, hcarried⟩ :=
                carried_of_ok reports hwaits hstep
              rw [hcarried] at h
              obtain ⟨hlegal, hlives⟩ := legal_sessionInputs hroot hreport legal halive hinputs
              cases hmore : σ'.carried reports with
              | error e => simp [hmore, Except.map] at h
              | ok more =>
                  rw [hmore] at h
                  rw [← Except.ok.inj h, ← List.append_assoc]
                  refine ih ((rootPid_collectStep hstep).trans hroot) ?_ hlegal hlives hmore
                  intro p r rest hsplit
                  rw [List.append_assoc]
                  exact hadmits (report :: p) r rest (by rw [hsplit]; rfl)

end legal

/-- The loop of the collector refines the session machine: what it does to the
decoder and to the execution state, what it hands to the sink and what it
throws is what the machine does on the inputs that the reports carry, and
these are those of a session. -/
theorem collect_refines_session (launch : Launch) {reports : List Report}
    (hadmits : Transducer.Legal (ReportAdmits launch.root) reports) :
    (Transducer.run loopStep launch.start reports).map (fun r => (r.1.session, r.2)) =
        (launch.start.carried reports).bind
          (Transducer.run (SessionState.step launch.root)
            { execution := launch.start.execution }) ∧
      ∀ inputs, launch.start.carried reports = .ok inputs →
        Transducer.Legal (SessionAdmits launch.root) inputs := by
  refine ⟨run_session launch.start reports, fun inputs hinputs => ?_⟩
  have hreports : ∀ p r rest, reports = p ++ r :: rest → ReportAdmits launch.root ([] ++ p) r :=
    fun p r rest hsplit => hadmits p r rest hsplit
  exact legal_carried rfl hreports (Transducer.legal_nil _) (by simp [others]) hinputs

/-! ### A shell with two commands -/

/-- Reports that neither end the root nor create a task under its tid are
those of a session, whatever the last one ends. -/
theorem legal_snoc_of_goesOn {root : Pid} {reports : List Report} {last : Report}
    (hgoes : ∀ r ∈ reports, ¬ r.Ends root ∧ r.createdTid ≠ some root)
    (hlast : last.createdTid ≠ some root) :
    Transducer.Legal (ReportAdmits root) (reports ++ [last]) := by
  refine Transducer.Legal.snoc ?_ ⟨fun _ r hr => (hgoes r hr).1, fun _ => hlast⟩
  induction reports using List.reverseRecOn with
  | nil => exact Transducer.legal_nil _
  | append_singleton reports r ih =>
      have hpast : ∀ r' ∈ reports, ¬ r'.Ends root ∧ r'.createdTid ≠ some root :=
        fun r' hr' => hgoes r' (List.mem_append_left _ hr')
      exact (ih hpast).snoc ⟨fun _ r' hr' => (hpast r' hr').1, fun _ => (hgoes r (by simp)).2⟩

/-- The bytes of two prompts and two started commands. -/
def sampleStream : Bytes :=
  [lit "A", lit "1", lit "/", [],
    lit "S", lit "1", lit "/", lit "1  \x1cls\n",
    lit "E", lit "1", lit "2", lit "/srv",
    lit "A", lit "2", lit "/srv", [],
    lit "S", lit "2", lit "/srv", lit "2  \x1cpwd\n"].flatMap field

/-- The root writes the bytes to descriptor 10. -/
def sampleWrite (bytes : Bytes) (rax : UInt64) : Report :=
  { tid := 7, status := 0x857f
    registers := .ok { origRax := 1, rax, rdi := 10, rsi := 64, rdx := UInt64.ofNat bytes.length
                       r10 := 0, r8 := 0, r9 := 0 }
    memory := sampleMemoryOf [] bytes, nowNs := 1 }

/-- The entry of a write and its exit. -/
def sampleWrites (bytes : Bytes) : List Report :=
  [sampleWrite bytes 0, sampleWrite bytes (UInt64.ofNat bytes.length)]

/-- The first write ends inside the record that ends the first command. -/
def sampleShell : List Report :=
  sampleWrites (sampleStream.take 28) ++ sampleWrites (sampleStream.drop 28) ++
    [sampleStatus 7 0x200]

def shellLaunch : Launch := { root := 7, cwd := [], channelFd := some 10, startNs := 0 }

/-- What a write of the shell carries. -/
def sampleWriteInputs (bytes : Bytes) : List SessionInput :=
  [.write bytes 1,
    .other (.syscall (sampleMemoryOf [] bytes)
      { pid := 7, tid := 7, number := 1, args := #v[10, 64, UInt64.ofNat bytes.length, 0, 0, 0]
        result := Int64.ofNat bytes.length, timestampNs := 1 })]

def sampleInputs : List SessionInput :=
  sampleWriteInputs (sampleStream.take 28) ++ sampleWriteInputs (sampleStream.drop 28)

theorem carried_sampleShell : shellLaunch.start.carried sampleShell =
    .ok (sampleInputs ++ .other (.exited 7 2 0 1) :: []) := rfl

theorem sampleWrite_goesOn (bytes : Bytes) (rax : UInt64) :
    ¬ (sampleWrite bytes rax).Ends 7 ∧ (sampleWrite bytes rax).createdTid ≠ some 7 := by
  constructor
  · intro h
    have hstop : (sampleWrite bytes rax).isStopped = true := by
      show decide ((34175 : UInt32) &&& 0xff = 0x7f) = true
      decide
    rw [Report.Ends, Report.not_isEnd_of_isStopped hstop] at h
    exact absurd h.1 (by simp)
  · intro h
    unfold Report.createdTid at h
    split at h <;> contradiction

theorem sampleShell_legal : Transducer.Legal (ReportAdmits 7) sampleShell := by
  refine legal_snoc_of_goesOn (fun r hr => ?_) ?_
  · simp only [sampleWrites, List.mem_append, List.mem_cons, List.not_mem_nil, or_false] at hr
    rcases hr with (rfl | rfl) | rfl | rfl <;> exact sampleWrite_goesOn _ _
  · rw [show (sampleStatus 7 0x200).createdTid = none from rfl]
    simp

/-- A shell starts two commands and exits: the loop does what the session
machine does on the two writes. -/
theorem collect_refines_session_sample :
    (Transducer.run loopStep shellLaunch.start sampleShell).map (fun r => (r.1.session, r.2)) =
        Transducer.run (SessionState.step 7) { execution := initialState 7 [] none 0 }
          (sampleInputs ++ [.other (.exited 7 2 0 1)]) ∧
      Transducer.Legal (SessionAdmits 7) (sampleInputs ++ [.other (.exited 7 2 0 1)]) := by
  obtain ⟨hrun, hlegal⟩ := collect_refines_session shellLaunch sampleShell_legal
  refine ⟨?_, hlegal _ carried_sampleShell⟩
  rw [hrun, carried_sampleShell]
  rfl

end Whyrun
