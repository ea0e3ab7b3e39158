import Whyrun.Kernel.SyscallPairing

/-!
Threads and processes. Which event stop a creation has and what it creates
follow from the flags that the tracee asks for; the collector sees the event
and the first argument that it has remembered for the tid. For `clone3` that
argument is an address.
-/

namespace Whyrun

open ByteText CollectorState ExecutionState

/-! ### What a tracee can ask for -/

def nrClone : Int64 := 56
def nrFork : Int64 := 57
def nrVfork : Int64 := 58
def nrClone3 : Int64 := 435

def cloneVm : UInt64 := 0x100
def cloneVfork : UInt64 := 0x4000
def sigChld : UInt64 := 17

/-- The flags of a creation, and the signal that the parent gets when the
child has ended. -/
structure CloneRequest where
  flags : UInt64
  exitSignal : UInt64
  deriving DecidableEq

/-- `CLONE_ARGS_SIZE_VER0`. -/
def cloneArgsSize : ℕ := 64

/-- What a call asks for; `clone3` reads it from the tracee's memory. -/
def EnteredCall.request (call : EnteredCall) (memory : TraceeMemory) (tid : Pid) :
    Option CloneRequest :=
  if call.number = nrFork then some ⟨0, sigChld⟩
  else if call.number = nrVfork then some ⟨cloneVfork ||| cloneVm, sigChld⟩
  else if call.number = nrClone then some ⟨arg0 call.args, arg0 call.args &&& 0xff⟩
  else if call.number = nrClone3 then
    (memory.readBytes tid (arg0 call.args) cloneArgsSize).map fun bytes =>
      ⟨UInt64.ofNat (littleEndian (bytes.take 8)),
        UInt64.ofNat (littleEndian ((bytes.drop 32).take 8))⟩
  else none

namespace CloneRequest

def isThread (request : CloneRequest) : Bool := request.flags &&& cloneThread ≠ 0

/-- The event stop that the kernel reports for a creation. -/
def ptraceEvent (request : CloneRequest) : UInt32 :=
  if request.flags &&& cloneVfork ≠ 0 then ptraceEventVfork
  else if request.exitSignal ≠ sigChld then ptraceEventClone
  else ptraceEventFork

end CloneRequest

/-! ### What is recorded -/

/-- The child belongs to the process of its creator, of which there is one
record, and no event is emitted. -/
def RecordedAsThread (σ σ' : ExecutionState) (creator child : Pid) (es : List Event) : Prop :=
  ∃ P, σ.findProcessForThread creator = some P ∧ σ'.findProcessForThread child = some P ∧
    σ'.processForThread child = σ.processForThread creator ∧ σ'.processes = σ.processes ∧ es = []

/-- The child has a record of its own, a copy of its creator's, and a fork
event is emitted. -/
def RecordedAsProcess (σ σ' : ExecutionState) (creator child : Pid) (es : List Event) : Prop :=
  ∃ P ptraceEvent t, σ.findProcessForThread creator = some P ∧
    σ'.processForThread child = child ∧
    σ'.findProcessForThread child = some { P with pid := child, parentPid := P.pid } ∧
    (∀ k, k ≠ child → σ'.processes k = σ.processes k) ∧
    es = [forkEvent P creator child ptraceEvent t]

/-- The creation is recorded as what the tracee asked for. -/
def RecordedAsAsked (request : CloneRequest) (σ σ' : ExecutionState) (creator child : Pid)
    (es : List Event) : Prop :=
  if request.isThread then RecordedAsThread σ σ' creator child es
  else RecordedAsProcess σ σ' creator child es

variable {σ : ExecutionState} {creator child : Pid} {event : UInt32} {flags t : UInt64}

theorem created_thread {P : ProcessState} (child : Pid) (t : UInt64) (hkeyed : σ.Keyed)
    (found : σ.findProcessForThread creator = some P)
    (thread : isThreadCreation event flags = true) :
    σ.onProcessCreated creator child event flags t = (σ.setThread child (some P.pid), []) ∧
      RecordedAsThread σ (σ.setThread child (some P.pid)) creator child [] := by
  have hpid : P.pid = σ.processForThread creator := hkeyed _ _ found
  refine ⟨by simp [onProcessCreated, found, thread], P, found, ?_, ?_, rfl, rfl⟩
  · simpa [findProcessForThread_def, hpid] using found
  · simp [hpid]

theorem created_process {P : ProcessState} (child : Pid) (t : UInt64)
    (found : σ.findProcessForThread creator = some P)
    (process : isThreadCreation event flags = false) :
    ∃ σ' es, σ.onProcessCreated creator child event flags t = (σ', es) ∧
      RecordedAsProcess σ σ' creator child es := by
  refine ⟨_, _, by simp [onProcessCreated, found, process]; exact ⟨rfl, rfl⟩, P, event, t, found,
    ?_, ?_, ?_, ?_⟩
  · simp
  · simp [findProcessForThread_def]
  · intro k hk
    simp [hk]
  · rw [emit_forkEvent _ _ _ _ _ _ found]

theorem created_unknown (unknown : σ.findProcessForThread creator = none) :
    σ.onProcessCreated creator child event flags t = (σ, []) := by
  simp [onProcessCreated, unknown]

/-- A creation is recorded as asked when its creator is known and the test of
the event and the flags comes out as the tracee's own flags do. -/
theorem onProcessCreated_recorded (request : CloneRequest) (hkeyed : σ.Keyed) :
    RecordedAsAsked request σ (σ.onProcessCreated creator child event flags t).1 creator child
        (σ.onProcessCreated creator child event flags t).2 ↔
      σ.findProcessForThread creator ≠ none ∧
        isThreadCreation event flags = request.isThread := by
  unfold RecordedAsAsked
  cases hfound : σ.findProcessForThread creator with
  | none =>
      rw [created_unknown hfound]
      cases request.isThread <;> simp [RecordedAsThread, RecordedAsProcess, hfound]
  | some P =>
      cases hkind : isThreadCreation event flags with
      | true =>
          obtain ⟨hcreated, hthread⟩ := created_thread child t hkeyed hfound hkind
          rw [hcreated]
          cases request.isThread with
          | true => simpa using hthread
          | false => simp [RecordedAsProcess]
      | false =>
          obtain ⟨σ', es, hcreated, hprocess⟩ :=
            created_process child t hfound hkind
          rw [hcreated]
          cases request.isThread with
          | true =>
              obtain ⟨_, _, _, _, _, _, _, rfl⟩ := hprocess
              simp [RecordedAsThread]
          | false => simpa using hprocess

/-! ### The stop -/

/-- The first argument that is remembered under a tid. -/
def CollectorState.cloneFlags (σ : CollectorState) (tid : Pid) : UInt64 :=
  match σ.threads tid with
  | none => 0
  | some thread => arg0 thread.args

/-- A task inside the call `call` stops because it has created `child`. The
requests on a task that has stopped are answered. -/
structure CreationStop (σ : CollectorState) (report : Report) (request : CloneRequest)
    (child : Pid) : Prop where
  stopped : report.isStopped = true
  trap : report.highByte = sigTrap
  event : report.event = request.ptraceEvent
  options : report.tid ∈ σ.configuredTids ∨ report.setOptions = .ok ()
  message : ∃ message, report.eventMessage = .ok message ∧ asInt message = child

theorem CloneRequest.isCreation (request : CloneRequest) :
    request.ptraceEvent = ptraceEventFork ∨ request.ptraceEvent = ptraceEventVfork ∨
      request.ptraceEvent = ptraceEventClone := by
  unfold ptraceEvent
  repeat' split
  all_goals simp

section stop

variable {σ : CollectorState} {report : Report} {request : CloneRequest} {child : Pid}

theorem CreationStop.eventTurn (h : CreationStop σ report request child) :
    σ.eventTurn report =
      { state := { σ with liveTids := insert child σ.liveTids }
        notifications := [.created report.tid child report.event (σ.cloneFlags report.tid)
          report.nowNs] } := by
  obtain ⟨message, hmessage, rfl⟩ := h.message
  unfold CollectorState.eventTurn
  rw [if_pos (h.event ▸ request.isCreation)]
  simp only [hmessage]
  rfl

theorem resumeSyscall_frame (turn : Turn) (report : Report) (signal : UInt32) :
    (resumeSyscall turn report signal).state.execution = turn.state.execution ∧
      (resumeSyscall turn report signal).notifications = turn.notifications := by
  unfold resumeSyscall
  dsimp only
  split <;> exact ⟨rfl, rfl⟩

theorem CreationStop.stopTurn (h : CreationStop σ report request child) :
    ∃ turn, σ.stopTurn report = .ok turn ∧ turn.state.execution = σ.execution ∧
      turn.notifications = [.created report.tid child report.event (σ.cloneFlags report.tid)
        report.nowNs] := by
  have hevent : report.event ≠ 0 := by
    intro hzero
    have hcreation := request.isCreation
    rw [← h.event, hzero] at hcreation
    revert hcreation
    decide
  unfold CollectorState.stopTurn
  rw [if_neg (by rw [h.trap]; decide), if_pos ⟨h.trap, hevent⟩, h.eventTurn]
  dsimp only
  split
  · exact ⟨_, rfl, rfl, rfl⟩
  · obtain ⟨hexecution, hcalls⟩ := resumeSyscall_frame
      { state := { σ with liveTids := insert child σ.liveTids }
        notifications := [.created report.tid child report.event (σ.cloneFlags report.tid)
          report.nowNs] } report 0
    exact ⟨_, rfl, hexecution, hcalls⟩

/-- A creation stop makes one call on the execution state, with the argument
that is remembered for the creator. -/
theorem CreationStop.collectStep (h : CreationStop σ report request child)
    (hwaits : σ.waits = true) :
    ∃ σ' es, σ.collectStep report = .ok (σ', es) ∧
      σ.execution.onProcessCreated report.tid child report.event (σ.cloneFlags report.tid)
        report.nowNs = (σ'.execution, es) := by
  have hgoes : σ.returned = false := by
    simp only [waits, Bool.and_eq_true, Bool.not_eq_true'] at hwaits
    exact hwaits.1
  -- the options are set first, which leaves the threads and the records alone
  obtain ⟨τ, hτ, hframe⟩ : ∃ τ : CollectorState,
      (configureTurn { σ with liveTids := insert report.tid σ.liveTids } report).state = τ ∧
        τ.returned = false ∧ τ.threads = σ.threads ∧ τ.execution = σ.execution ∧
        report.tid ∈ τ.configuredTids := by
    refine ⟨_, rfl, ?_⟩
    unfold configureTurn
    split
    · rename_i hconfigured
      exact ⟨hgoes, rfl, rfl, hconfigured⟩
    · rename_i hnew
      rw [h.options.resolve_left hnew]
      exact ⟨hgoes, rfl, rfl, Finset.mem_insert_self _ _⟩
  obtain ⟨hreturned, hthreads, hexecution, hconfigured⟩ := hframe
  have hstop : CreationStop τ report request child :=
    { h with options := .inl hconfigured }
  obtain ⟨turn, hturn, hsame, hcalls⟩ := hstop.stopTurn
  have hflags : τ.cloneFlags report.tid = σ.cloneFlags report.tid := by
    simp only [cloneFlags, hthreads]
  rw [hflags] at hcalls
  have hcollect : σ.collectTurn report = .ok { turn with requests := (configureTurn { σ with
      liveTids := insert report.tid σ.liveTids } report).requests ++ turn.requests } := by
    rw [collectTurn_of_isStopped h.stopped]
    simp [hτ, hreturned, hturn, Bind.bind, Except.bind]
  have hnotify : Transducer.run ExecutionState.notify turn.state.execution turn.notifications =
      .ok (σ.execution.onProcessCreated report.tid child report.event (σ.cloneFlags report.tid)
        report.nowNs) := by
    rw [hsame, hexecution, hcalls, Transducer.run_singleton]
    rfl
  generalize σ.execution.onProcessCreated report.tid child report.event
    (σ.cloneFlags report.tid) report.nowNs = created at hnotify ⊢
  obtain ⟨execution, es⟩ := created
  refine ⟨{ turn.state with execution }, es, ?_, rfl⟩
  unfold CollectorState.collectStep
  rw [hcollect]
  simp only [Bind.bind, Except.bind, hnotify]

/-! ### Runs -/

/-- Every turn leaves the execution state to its calls. -/
theorem collectTurn_execution {turn : Turn} (h : σ.collectTurn report = .ok turn) :
    turn.state.execution = σ.execution := by
  refine collectTurn_rule (motive := fun τ _ => τ.execution = σ.execution) ?_ ?_ ?_ ?_ ?_ h
  · rintro τ τ' _ ⟨_, _, _, _, rfl⟩ hτ
    exact hτ
  · intro _
    unfold exitTurn
    dsimp only
    split <;> rfl
  · exact fun _ => rfl
  · rintro τ turn - - ⟨_, _, _, _, rfl⟩ hturn
    rcases syscallTurn_inv hturn with ⟨-, rfl⟩ | ⟨_, _, -, rfl⟩ | ⟨_, -, -, rfl⟩ |
      ⟨_, -, -, hexit⟩
    · rfl
    · rfl
    · rfl
    · obtain ⟨_, _, rfl, -⟩ := syscallExitTurn_inv rfl hexit
      rfl
  · rintro τ - ⟨_, _, _, _, rfl⟩
    unfold CollectorState.eventTurn
    repeat' split
    all_goals rfl

/-- A record is stored under its own pid throughout. -/
theorem keyed_of_trace (launch : Launch) {past : List TraceAction} {es : List Event}
    (hrun : Transducer.run traceStep launch.start past = .ok (σ, es)) : σ.execution.Keyed := by
  refine Transducer.run_invariant (motive := fun _ τ _ => τ.execution.Keyed) ?_ ?_ hrun
  · exact initialState_keyed _ _ _ _
  · intro _ τ _ action τ' o hkeyed hstep
    cases hreport : action.report with
    | none =>
        simp only [traceStep, hreport, Except.ok.injEq, Prod.mk.injEq] at hstep
        rwa [← hstep.1]
    | some report =>
        simp only [traceStep, hreport, loopStep] at hstep
        split at hstep
        · obtain ⟨turn, execution, hturn, hcalls, rfl⟩ := collectStep_inv hstep
          rw [collectTurn_execution hturn] at hcalls
          exact Transducer.run_invariant (motive := fun _ σ _ => σ.Keyed) hkeyed
            (fun _ _ _ _ _ _ h hnotify => (notify_effect hnotify).keyed h) hcalls
        · obtain ⟨rfl, -⟩ := Prod.mk.inj (Except.ok.inj hstep)
          exact hkeyed

/-- Where every tid keeps its calls, the remembered argument is the one of the
call that the creator is inside. -/
theorem cloneFlags_of_paired {root : Pid} {past : List TraceAction} {call : EnteredCall}
    (hpaired : Paired root past σ)
    (hinside : (tasksAfter root past).inside report.tid = some call) :
    σ.cloneFlags report.tid = arg0 call.args := by
  have hknown : tasksAfter root past report.tid ≠ none := by
    intro hnone
    simp [Tasks.inside, hnone] at hinside
  have hpending := (hpaired.of_known hknown).trans hinside
  unfold cloneFlags
  cases hthread : σ.threads report.tid with
  | none => simp [pendingCall, hthread, ThreadState.pending] at hpending
  | some thread =>
      simp only [pendingCall, hthread, Option.getD_some, ThreadState.pending] at hpending
      split at hpending
      · rw [← Option.some.inj hpending]
      · contradiction

/-! ### When the two agree -/

/-- The event and the remembered argument tell a thread from a process as the
flags of the request do. -/
def CloneRequest.ToldApart (request : CloneRequest) (remembered : UInt64) : Prop :=
  if request.ptraceEvent = ptraceEventClone then
    remembered &&& cloneThread ≠ 0 ↔ request.flags &&& cloneThread ≠ 0
  else request.flags &&& cloneThread = 0

theorem isThreadCreation_eq_iff (request : CloneRequest) (remembered : UInt64) :
    isThreadCreation request.ptraceEvent remembered = request.isThread ↔
      request.ToldApart remembered := by
  unfold isThreadCreation CloneRequest.isThread CloneRequest.ToldApart
  by_cases hclone : request.ptraceEvent = ptraceEventClone
  · by_cases h : remembered &&& cloneThread = 0 <;>
      by_cases h' : request.flags &&& cloneThread = 0 <;> simp [hclone, h, h']
  · by_cases h' : request.flags &&& cloneThread = 0 <;> simp [hclone, h']

/-- For which calls the two agree when the remembered argument is the call's
own: always for `fork` and `vfork`; for `clone` unless a thread comes with
the event of a process; for `clone3` when the address of the structure looks
like its flags. -/
def EnteredCall.ToldApart (call : EnteredCall) (request : CloneRequest) : Prop :=
  call.number = nrFork ∨ call.number = nrVfork ∨
    (call.number = nrClone ∧
      (request.flags &&& cloneThread ≠ 0 →
        request.flags &&& cloneVfork = 0 ∧ request.exitSignal ≠ sigChld)) ∨
    (call.number = nrClone3 ∧
      if request.flags &&& cloneVfork = 0 ∧ request.exitSignal ≠ sigChld then
        arg0 call.args &&& cloneThread ≠ 0 ↔ request.flags &&& cloneThread ≠ 0
      else request.flags &&& cloneThread = 0)

theorem CloneRequest.ptraceEvent_eq_clone_iff (request : CloneRequest) :
    request.ptraceEvent = ptraceEventClone ↔
      request.flags &&& cloneVfork = 0 ∧ request.exitSignal ≠ sigChld := by
  unfold ptraceEvent
  by_cases hvfork : request.flags &&& cloneVfork = 0 <;>
    by_cases hsignal : request.exitSignal = sigChld <;>
    simp [hvfork, hsignal, ptraceEventVfork, ptraceEventClone, ptraceEventFork]

/-- A creation that is not of a thread and has the event of a process. -/
theorem toldApart_of_process (remembered : UInt64)
    (hevent : request.ptraceEvent ≠ ptraceEventClone) (hflags : request.flags &&& cloneThread = 0) :
    request.ToldApart remembered := by
  unfold CloneRequest.ToldApart
  rwa [if_neg hevent]

theorem toldApart_own_iff {call : EnteredCall} {memory : TraceeMemory} {tid : Pid}
    (hrequest : call.request memory tid = some request) :
    request.ToldApart (arg0 call.args) ↔ call.ToldApart request := by
  unfold EnteredCall.request at hrequest
  split at hrequest
  · rename_i hfork
    obtain rfl := Option.some.inj hrequest
    exact iff_of_true (toldApart_of_process _ (by decide) (by decide)) (.inl hfork)
  split at hrequest
  · rename_i hvfork
    obtain rfl := Option.some.inj hrequest
    exact iff_of_true (toldApart_of_process _ (by decide) (by decide)) (.inr (.inl hvfork))
  rename_i hfork hvfork
  unfold CloneRequest.ToldApart EnteredCall.ToldApart
  simp only [request.ptraceEvent_eq_clone_iff, hfork, hvfork, false_or]
  split at hrequest
  · rename_i hclone
    obtain rfl := Option.some.inj hrequest
    have hne : nrClone ≠ nrClone3 := by decide
    simp only [hclone, hne, true_and, false_and, or_false]
    split
    · rename_i hevent
      exact iff_of_true trivial fun _ => hevent
    · rename_i hevent
      exact ⟨fun h hthread => absurd h hthread,
        fun h => by_contra fun hthread => hevent (h hthread)⟩
  split at hrequest
  · rename_i hclone3
    have hne : nrClone3 ≠ nrClone := by decide
    simp [hclone3, hne]
  · contradiction

/-- A creation stop is recorded as what the tracee asked for exactly when its
creator is known and the event and the remembered argument agree with the
flags. While no tid passes to a task inside another call the argument is the
call's own. -/
theorem threads_told_apart_iff (launch : Launch) {past : List TraceAction} {es : List Event}
    {call : EnteredCall} {memory : TraceeMemory}
    (legal : Transducer.Legal (TraceAdmits launch.root) (past ++ [.other report]))
    (hrun : Transducer.run traceStep launch.start past = .ok (σ, es)) (hwaits : σ.waits = true)
    (hinside : (tasksAfter launch.root past).inside report.tid = some call)
    (hrequest : call.request memory report.tid = some request)
    (hstop : CreationStop σ report request child) :
    ∃ σ' es', σ.collectStep report = .ok (σ', es') ∧
      (RecordedAsAsked request σ.execution σ'.execution report.tid child es' ↔
        σ.execution.findProcessForThread report.tid ≠ none ∧
          request.ToldApart (σ.cloneFlags report.tid)) ∧
      (Transducer.Legal (KeepsPairs launch.root) past →
        (RecordedAsAsked request σ.execution σ'.execution report.tid child es' ↔
          σ.execution.findProcessForThread report.tid ≠ none ∧ call.ToldApart request)) := by
  obtain ⟨σ', es', hstep, hcreated⟩ := hstop.collectStep hwaits
  have hexact := @onProcessCreated_recorded σ.execution report.tid child report.event
    (σ.cloneFlags report.tid) report.nowNs request
    (keyed_of_trace launch hrun)
  rw [hcreated, hstop.event, isThreadCreation_eq_iff] at hexact
  refine ⟨σ', es', hstep, hexact, fun hkeeps => ?_⟩
  rw [hexact, cloneFlags_of_paired (paired_run launch legal.of_append hkeeps hrun hwaits) hinside,
    toldApart_own_iff hrequest]

end stop

/-! ### A thread made with `clone`, and one made with `clone3` -/

/-- `CLONE_VM`, `CLONE_THREAD` and the other flags of `pthread_create`. -/
def sampleThreadFlags : UInt64 := 0x3d0f00

/-- A `struct clone_args` with these flags, wherever it is read. -/
def sampleCloneArgs : TraceeMemory where
  readString _ _ := []
  readBytes _ _ size :=
    if size = cloneArgsSize then some ([0x00, 0x0f, 0x3d] ++ List.replicate 61 0) else none
  readBytes_length {tid address size bytes} h := by
    split at h
    · rename_i hsize
      rw [← Option.some.inj h, hsize]
      rfl
    · contradiction

/-- Task 7 enters a call with one argument. -/
def sampleCloneEntry (number argument : UInt64) : Report :=
  { tid := 7, status := 0x857f
    registers := .ok { origRax := number, rax := 0, rdi := argument, rsi := 88, rdx := 0, r10 := 0
                       r8 := 0, r9 := 0 }
    memory := sampleCloneArgs, nowNs := 1 }

def sampleCloneCall (number argument : UInt64) : EnteredCall :=
  ⟨number.toInt64, #v[argument, 88, 0, 0, 0, 0]⟩

/-- Task 7 stops with `PTRACE_EVENT_CLONE`; its child is task 8. -/
def sampleCreation : Report :=
  { tid := 7, status := 0x3057f, eventMessage := .ok 8, memory := sampleCloneArgs, nowNs := 2 }

theorem sampleCloneEntry_isSyscallStop (number argument : UInt64) :
    (sampleCloneEntry number argument).isSyscallStop = true := by
  have hstatus : (sampleCloneEntry number argument).status = 0x857f := rfl
  rw [Report.isSyscallStop, Report.isStopped, Report.highByte, hstatus]
  rfl

theorem sampleCreation_legal (number argument : UInt64) :
    Transducer.Legal (TraceAdmits 7)
      ([.enter (sampleCloneCall number argument) (sampleCloneEntry number argument)] ++
        [.other sampleCreation]) := by
  have henter : TraceAdmits 7 []
      (.enter (sampleCloneCall number argument) (sampleCloneEntry number argument)) :=
    ⟨sampleCloneEntry_isSyscallStop number argument, ⟨_, rfl, rfl⟩, rfl,
      fun _ h => by rw [← Answer.ok.inj h]; rfl⟩
  have hstop : TraceAdmits 7
      [.enter (sampleCloneCall number argument) (sampleCloneEntry number argument)]
      (.other sampleCreation) := by
    refine ⟨by decide, by decide, ?_⟩
    simp [tasksAfter, Tasks.step, Tasks.initial, sampleCloneEntry, sampleCreation]
  exact ((Transducer.legal_nil _).snoc henter).snoc hstop

theorem sampleCreation_stop (σ : CollectorState) (hconfigured : 7 ∈ σ.configuredTids) :
    CreationStop σ sampleCreation ⟨sampleThreadFlags, 0⟩ 8 where
  stopped := by decide
  trap := by decide
  event := by decide
  options := .inl hconfigured
  message := ⟨8, rfl, by decide⟩

/-- A thread made with `clone`. -/
theorem threads_told_apart_sample :
    ∃ σ es σ' es', Transducer.run traceStep ({ root := 7, cwd := [], startNs := 0 } : Launch).start
        [.enter (sampleCloneCall 56 sampleThreadFlags) (sampleCloneEntry 56 sampleThreadFlags)] =
          .ok (σ, es) ∧ σ.collectStep sampleCreation = .ok (σ', es') ∧
      RecordedAsThread σ.execution σ'.execution 7 8 es' := by
  obtain ⟨σ', es', hstep, -, hexact⟩ := threads_told_apart_iff
    { root := 7, cwd := [], startNs := 0 } (sampleCreation_legal 56 sampleThreadFlags) rfl rfl rfl
    (show (sampleCloneCall 56 sampleThreadFlags).request sampleMemory 7 = some _ from rfl)
    (sampleCreation_stop _ (by decide))
  have henter : KeepsPairs 7 []
      (.enter (sampleCloneCall 56 sampleThreadFlags) (sampleCloneEntry 56 sampleThreadFlags)) :=
    trivial
  have hkeeps := (Transducer.legal_nil (KeepsPairs 7)).snoc henter
  exact ⟨_, _, σ', es', rfl, hstep,
    (hexact hkeeps).mpr ⟨nofun, .inr (.inr (.inl ⟨rfl, fun _ => by decide⟩))⟩⟩

/-- A thread made with `clone3` whose structure lies at the address `0x7000`
is recorded as a process. -/
theorem clone3_thread_recorded_as_process :
    ¬ ∀ (launch : Launch) (past : List TraceAction) (report : Report) (σ : CollectorState)
        (es : List Event) (call : EnteredCall) (memory : TraceeMemory) (request : CloneRequest)
        (child : Pid),
      Transducer.Legal (TraceAdmits launch.root) (past ++ [.other report]) →
      Transducer.run traceStep launch.start past = .ok (σ, es) → σ.waits = true →
      (tasksAfter launch.root past).inside report.tid = some call →
      call.request memory report.tid = some request → CreationStop σ report request child →
      ∃ σ' es', σ.collectStep report = .ok (σ', es') ∧
        RecordedAsAsked request σ.execution σ'.execution report.tid child es' := by
  intro h
  -- the creation emits a fork event
  obtain ⟨σ, es, hrun, hwaits, hconfigured, hevents⟩ : ∃ σ es,
      Transducer.run traceStep ({ root := 7, cwd := [], startNs := 0 } : Launch).start
        [.enter (sampleCloneCall 435 0x7000) (sampleCloneEntry 435 0x7000)] = .ok (σ, es) ∧
      σ.waits = true ∧ 7 ∈ σ.configuredTids ∧
      (σ.execution.onProcessCreated 7 8 sampleCreation.event (σ.cloneFlags 7) 2).2 ≠ [] :=
    ⟨_, _, rfl, rfl, by decide, by decide⟩
  have hstop := sampleCreation_stop σ hconfigured
  obtain ⟨σ', es', hstep, hasked⟩ := h _ _ _ σ es (sampleCloneCall 435 0x7000) sampleCloneArgs _ 8
    (sampleCreation_legal 435 0x7000) hrun hwaits rfl (by decide) hstop
  obtain ⟨τ, out, hsame, hcreated⟩ := hstop.collectStep hwaits
  obtain ⟨-, rfl⟩ := Prod.mk.inj (Except.ok.inj (hstep.symm.trans hsame))
  obtain ⟨_, _, _, _, -, rfl⟩ := hasked
  exact hevents (congrArg Prod.snd hcreated)

end Whyrun
