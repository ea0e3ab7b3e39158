import Whyrun.Kernel.Turns

/-!
Tasks that are killed between a report and the next request on them: the
request answers `ESRCH`. The turns of the loop that go on after such an
answer are told from those that end the recording.
-/

namespace Whyrun

open CollectorState

def Answer.hasFailed {α : Type} : Answer α → Bool
  | .failed _ => true
  | _ => false

namespace Report

/-- Requests on the task fail only because it is gone. -/
structure OnlyVanishes (report : Report) : Prop where
  setOptions : report.setOptions.hasFailed = false
  registers : report.registers.hasFailed = false
  eventMessage : report.eventMessage.hasFailed = false
  resume : report.resume.hasFailed = false

/-- The stop of a task that has made another one. -/
def isCreation (report : Report) : Bool :=
  report.isStopped && report.highByte = sigTrap &&
    (report.event = ptraceEventFork || report.event = ptraceEventVfork ||
      report.event = ptraceEventClone)

/-- The exit code and the signal that the report of an end stands for. -/
def exitStatus (report : Report) : Int32 × Int32 :=
  let exitCode : Int32 := if report.hasExited then report.highByte.toInt32 else -1
  let termSignal : Int32 := if report.isSignaled then report.termSignal.toInt32 else 0
  (exitResult exitCode termSignal, termSignal)

end Report

namespace CollectorState

/-- The root's write to the channel whose exit a report shows. -/
def markerWrite (σ : CollectorState) (report : Report) : Option RawSyscall :=
  match report.registers with
  | .ok registers =>
      let thread := (σ.threads report.tid).getD {}
      let call := σ.rawSyscall report.tid thread registers report.nowNs
      if report.isSyscallStop ∧ thread.inSyscall ∧ report.tid = σ.rootPid ∧
          σ.channel.receives call ∧ 0 < call.result then some call
      else none
  | _ => none

/-- What the root writes to the channel is of the size of a marker, and its
markers are accepted if they can be read. -/
def AcceptsMarkers (σ : CollectorState) (report : Report) : Prop :=
  ∀ call, σ.markerWrite report = some call →
    call.result.toInt.toNat ≤ kMaximumCommandWrite ∧
    ∀ bytes,
      report.memory.readBytes call.tid (arg1 call.args) call.result.toInt.toNat = some bytes →
      ∃ session es, SessionState.consumeMarkers ⟨σ.protocol, σ.execution⟩ report.tid bytes
        report.nowNs = .ok (session, es)

/-- No task is gone where the turn does not allow for it. -/
structure Spares (σ : CollectorState) (report : Report) : Prop where
  configured : report.isStopped = true → report.tid ∉ σ.configuredTids →
    report.setOptions ≠ .esrch
  created : report.isCreation = true → report.eventMessage ≠ .esrch
  readable : ∀ call, σ.markerWrite report = some call →
    report.memory.readBytes call.tid (arg1 call.args) call.result.toInt.toNat ≠ none

/-- The turn ends with the next `waitpid`, and a task that has stopped is
resumed in it. -/
def GoesOn (σ : CollectorState) (report : Report) : Prop :=
  ∃ turn, σ.collectTurn report = .ok turn ∧ turn.state.returned = false ∧
    (report.isStopped = true → ∃ signal, .resume report.tid signal ∈ turn.requests)

end CollectorState

variable {σ σ' : CollectorState} {report : Report} {turn : Turn}

/-! ### Stops -/

/-- The state in which a stop is looked at. -/
def CollectorState.atStop (σ : CollectorState) (report : Report) : CollectorState :=
  { σ with liveTids := insert report.tid σ.liveTids
           configuredTids := insert report.tid σ.configuredTids }

/-- Options are set or were set before. -/
theorem configureTurn_of_answered (hset : report.setOptions.hasFailed = false)
    (h : report.tid ∉ σ.configuredTids → report.setOptions ≠ .esrch) :
    ∃ requests, (∀ signal, .resume report.tid signal ∉ requests) ∧
      configureTurn { σ with liveTids := insert report.tid σ.liveTids } report =
        { state := σ.atStop report, requests } := by
  by_cases hmem : report.tid ∈ σ.configuredTids
  · refine ⟨[], by simp, ?_⟩
    rw [configureTurn, if_pos hmem, atStop, Finset.insert_eq_of_mem hmem]
  · refine ⟨[.setOptions report.tid], by simp, ?_⟩
    rw [configureTurn, if_neg hmem]
    cases hanswer : report.setOptions with
    | ok value => rfl
    | esrch => exact absurd hanswer (h hmem)
    | failed strerror => simp [hanswer, Answer.hasFailed] at hset

theorem resumeSyscall_of_answered (turn : Turn) (signal : UInt32)
    (h : report.resume.hasFailed = false) :
    resumeSyscall turn report signal =
      { turn with requests := turn.requests ++ [.resume report.tid signal] } := by
  cases hanswer : report.resume with
  | ok value => simp [resumeSyscall, hanswer]
  | esrch => simp [resumeSyscall, hanswer]
  | failed strerror => simp [hanswer, Answer.hasFailed] at h

theorem markerWrite_eq {registers : Registers} (hregisters : report.registers = .ok registers)
    (hstop : report.isSyscallStop = true)
    (hinside : ((σ.threads report.tid).getD {}).inSyscall = true) {call : RawSyscall}
    (hcall : σ.rawSyscall report.tid ((σ.threads report.tid).getD {}) registers report.nowNs =
      call) :
    σ.markerWrite report =
      if report.tid = σ.rootPid ∧ σ.channel.receives call ∧ 0 < call.result then some call
      else none := by
  simp only [markerWrite, hregisters, hstop, hinside, hcall, true_and]

/-- Only a marker that cannot be read makes the exit of a call throw. -/
theorem syscallExitTurn_ok_iff {registers : Registers}
    (hregisters : report.registers = .ok registers) (hstop : report.isSyscallStop = true)
    (hinside : ((σ.threads report.tid).getD {}).inSyscall = true) (h : σ.AcceptsMarkers report) :
    (∃ turn, σ.syscallExitTurn report ((σ.threads report.tid).getD {}) registers = .ok turn) ↔
      ∀ call, σ.markerWrite report = some call →
        report.memory.readBytes call.tid (arg1 call.args) call.result.toInt.toNat ≠ none := by
  obtain ⟨call, hcall⟩ : ∃ call, σ.rawSyscall report.tid ((σ.threads report.tid).getD {})
    registers report.nowNs = call := ⟨_, rfl⟩
  have hwritten := markerWrite_eq hregisters hstop hinside hcall
  simp only [syscallExitTurn, hcall]
  by_cases hwrite : report.tid = σ.rootPid ∧ σ.channel.receives call = true ∧ 0 < call.result
  · rw [if_pos hwrite] at hwritten
    obtain ⟨hsize, haccepted⟩ := h call hwritten
    simp only [if_pos hwrite, channelBytes, if_neg (not_lt.mpr hsize), hwritten,
      Option.some.injEq, forall_eq']
    cases hbytes : report.memory.readBytes call.tid (arg1 call.args) call.result.toInt.toNat with
    | none => simp [Bind.bind, Except.bind]
    | some bytes =>
        obtain ⟨session, es, hconsumed⟩ := haccepted bytes hbytes
        cases hconsume : σ.protocol.consume bytes with
        | error e =>
            simp [SessionState.consumeMarkers, hconsume, Bind.bind, Except.bind] at hconsumed
        | ok r => simp [hconsume, Bind.bind, Except.bind]
  · rw [if_neg hwrite] at hwritten
    simp [if_neg hwrite, hwritten, Bind.bind, Except.bind]

theorem syscallTurn_ok_iff (hregisters : report.registers.hasFailed = false)
    (hstop : report.isSyscallStop = true) (h : σ.AcceptsMarkers report) :
    (∃ turn, σ.syscallTurn report = .ok turn) ↔
      ∀ call, σ.markerWrite report = some call →
        report.memory.readBytes call.tid (arg1 call.args) call.result.toInt.toNat ≠ none := by
  cases hanswer : report.registers with
  | failed strerror => simp [hanswer, Answer.hasFailed] at hregisters
  | esrch =>
      refine iff_of_true ⟨{ state := σ }, by simp only [syscallTurn, hanswer]⟩ fun call hcall => ?_
      simp [markerWrite, hanswer] at hcall
  | ok registers =>
      cases hinside : ((σ.threads report.tid).getD {}).inSyscall with
      | false =>
          refine iff_of_true ⟨_, by simp only [syscallTurn, hanswer, hinside]; rfl⟩
            fun call hcall => ?_
          simp [markerWrite, hanswer, hinside] at hcall
      | true =>
          rw [← syscallExitTurn_ok_iff hanswer hstop hinside h]
          simp only [syscallTurn, hanswer, hinside, Bool.not_true, Bool.false_eq_true, if_false]

theorem syscallTurn_returned (hregisters : report.registers.hasFailed = false)
    (h : σ.syscallTurn report = .ok turn) : turn.state.returned = σ.returned := by
  rcases syscallTurn_inv h with ⟨-, rfl⟩ | ⟨_, _, hfailed, -⟩ | ⟨_, -, -, rfl⟩ |
    ⟨_, -, -, hexit⟩
  · rfl
  · simp [hfailed, Answer.hasFailed] at hregisters
  · rfl
  · obtain ⟨_, _, rfl, -⟩ := syscallExitTurn_inv rfl hexit
    rfl

/-- A stop in which nothing else than a tid of a child is asked for. -/
theorem eventTurn_returned (hmessage : report.eventMessage.hasFailed = false)
    (hreturned : σ.returned = false) :
    (σ.eventTurn report).state.returned = false ↔
      ((report.event = ptraceEventFork ∨ report.event = ptraceEventVfork ∨
        report.event = ptraceEventClone) → report.eventMessage ≠ .esrch) := by
  unfold eventTurn
  by_cases hcreation : report.event = ptraceEventFork ∨ report.event = ptraceEventVfork ∨
      report.event = ptraceEventClone
  · rw [if_pos hcreation]
    cases hanswer : report.eventMessage with
    | ok value => simp [hcreation, hreturned]
    | esrch => simp [hcreation, CollectorState.fail]
    | failed strerror => simp [hanswer, Answer.hasFailed] at hmessage
  · rw [if_neg hcreation]
    refine iff_of_true ?_ fun h => absurd h hcreation
    split <;> exact hreturned

theorem markerWrite_eq_none (h : report.isSyscallStop = false) : σ.markerWrite report = none := by
  unfold markerWrite
  split
  · simp [h]
  · rfl

/-- A stop is got over unless the creator of a task is gone or a marker
cannot be read. -/
theorem stopTurn_goesOn_iff (hr : report.OnlyVanishes) (hreturned : σ.returned = false)
    (hstop : report.isStopped = true) (h : σ.AcceptsMarkers report) :
    (∃ turn, σ.stopTurn report = .ok turn ∧ turn.state.returned = false ∧
        ∃ signal, .resume report.tid signal ∈ turn.requests) ↔
      (report.isCreation = true → report.eventMessage ≠ .esrch) ∧
        ∀ call, σ.markerWrite report = some call →
          report.memory.readBytes call.tid (arg1 call.args) call.result.toInt.toNat ≠ none := by
  have hresume : ∀ turn signal, resumeSyscall turn report signal =
      { turn with requests := turn.requests ++ [.resume report.tid signal] } :=
    fun turn signal => resumeSyscall_of_answered turn signal hr.resume
  unfold stopTurn
  by_cases hsyscall : report.highByte = syscallTrap
  · have hstop' : report.isSyscallStop = true := by simp [Report.isSyscallStop, hstop, hsyscall]
    have hcreation : report.isCreation = false := by
      simp [Report.isCreation, hsyscall, syscallTrap, sigTrap]
    rw [if_pos hsyscall, ← syscallTurn_ok_iff hr.registers hstop' h]
    cases hturn : σ.syscallTurn report with
    | error e => simp [Bind.bind, Except.bind]
    | ok turn =>
        have hgoes : turn.state.returned = false := by
          rw [syscallTurn_returned hr.registers hturn, hreturned]
        simp [hcreation, Bind.bind, Except.bind, hgoes, hresume]
  have hquiet : σ.markerWrite report = none :=
    markerWrite_eq_none (by simp [Report.isSyscallStop, hsyscall])
  rw [if_neg hsyscall]
  simp only [hquiet, reduceCtorEq, false_implies, implies_true, and_true]
  by_cases hevent : report.highByte = sigTrap ∧ report.event ≠ 0
  · have hcreation : report.isCreation = true ↔ (report.event = ptraceEventFork ∨
        report.event = ptraceEventVfork ∨ report.event = ptraceEventClone) := by
      simp [Report.isCreation, hstop, hevent.1, or_assoc]
    rw [if_pos hevent, hcreation, ← eventTurn_returned hr.eventMessage hreturned]
    cases hgoes : (σ.eventTurn report).state.returned with
    | true => simp [hgoes]
    | false => simp [hgoes, hresume]
  · have hcreation : report.isCreation = false := by
      by_contra htrue
      simp only [Report.isCreation, hstop, Bool.true_and, Bool.and_eq_false_iff,
        Bool.or_eq_false_iff, decide_eq_false_iff_not, not_or, not_and_or, not_not] at htrue
      refine hevent ⟨htrue.1, fun hzero => ?_⟩
      rw [hzero] at htrue
      exact absurd htrue.2 (by decide)
    rw [if_neg hevent]
    simp [hcreation, hresume, hreturned]

/-- A turn goes on exactly when it spares the tasks that are gone. -/
theorem goesOn_iff (hr : report.OnlyVanishes) (hreturned : σ.returned = false)
    (h : σ.AcceptsMarkers report) : σ.GoesOn report ↔ σ.Spares report := by
  cases hstop : report.isStopped with
  | false =>
      have hmarker : σ.markerWrite report = none :=
        markerWrite_eq_none (by simp [Report.isSyscallStop, hstop])
      refine iff_of_true ?_ ⟨by simp [hstop], by simp [Report.isCreation, hstop],
        by simp [hmarker]⟩
      cases hend : report.isEnd with
      | true =>
          refine ⟨_, collectTurn_of_isEnd hend, ?_, by simp [hstop]⟩
          unfold exitTurn
          dsimp only
          split <;> exact hreturned
      | false => exact ⟨_, collectTurn_of_quiet hend hstop, hreturned, by simp [hstop]⟩
  | true =>
      unfold GoesOn
      rw [collectTurn_of_isStopped hstop]
      by_cases hset : report.tid ∉ σ.configuredTids → report.setOptions ≠ .esrch
      · obtain ⟨requests, hrequests, hconfigured⟩ := configureTurn_of_answered hr.setOptions hset
        -- setting the options touches nothing that the rest of the turn reads
        have hgoes : (σ.atStop report).returned = false := hreturned
        have haccept : (σ.atStop report).AcceptsMarkers report := h
        have hrest := stopTurn_goesOn_iff hr hgoes hstop haccept
        have hspares : σ.Spares report ↔
            (report.isCreation = true → report.eventMessage ≠ .esrch) ∧
              ∀ call, (σ.atStop report).markerWrite report = some call →
                report.memory.readBytes call.tid (arg1 call.args) call.result.toInt.toNat ≠ none :=
          ⟨fun h => ⟨h.created, h.readable⟩, fun h => ⟨fun _ => hset, h.1, h.2⟩⟩
        rw [hspares, ← hrest, hconfigured]
        simp only [hgoes, Bool.false_eq_true, if_false]
        cases hturn : (σ.atStop report).stopTurn report with
        | error e => simp [Bind.bind, Except.bind]
        | ok turn =>
            simp [Bind.bind, Except.bind, hstop, hrequests]
      · -- the recording ends at the options
        have hanswer : report.tid ∉ σ.configuredTids ∧ report.setOptions = .esrch := by
          simpa using hset
        have hconfigured : (configureTurn
            { σ with liveTids := insert report.tid σ.liveTids } report).state.returned = true := by
          simp [configureTurn, hanswer.1, hanswer.2, Answer.error, CollectorState.fail]
        rw [if_pos hconfigured]
        refine iff_of_false ?_ fun h => hset (h.configured hstop)
        rintro ⟨turn, hturn, hgoes, -⟩
        obtain rfl := Except.ok.inj hturn
        rw [hconfigured] at hgoes
        contradiction

end Whyrun
