import Whyrun.Execution.Runs
import Whyrun.Kernel.Turns

/-!
Entries and exits of system calls, as the kernel reports them and as the
collector takes them. The entry that the collector holds for a tid is the
call that the kernel has the task inside, as long as no execve by a thread
that does not lead its group puts one task under the tid of another.
-/

namespace Whyrun

open CollectorState

/-! ### What the collector takes a stop for -/

/-- The call that a thread has entered. -/
def ThreadState.pending (thread : ThreadState) : Option EnteredCall :=
  if thread.inSyscall then some ⟨thread.syscallNumber, thread.args⟩ else none

namespace CollectorState

/-- The next system call stop under the tid is taken for an exit. -/
def treatsAsExit (σ : CollectorState) (tid : Pid) : Bool :=
  ((σ.threads tid).getD {}).inSyscall

/-- The call whose exit the next stop under the tid would be taken for. -/
def pendingCall (σ : CollectorState) (tid : Pid) : Option EnteredCall :=
  ((σ.threads tid).getD {}).pending

/-- The collector follows the actions of the kernel through their reports. -/
def traceStep (σ : CollectorState) (action : TraceAction) :
    Except Failure (CollectorState × List Event) :=
  match action.report with
  | none => .ok (σ, [])
  | some report => σ.loopStep report

end CollectorState

/-- The calls that a turn hands to `on_syscall_exit`. -/
def Turn.calls (turn : Turn) : List RawSyscall :=
  turn.notifications.filterMap fun
    | .syscall _ call => some call
    | _ => none

/-- An entry is not taken for an exit, an exit not for an entry, and a call is
handed over only at its exit, as it was entered and with the registers of
the exit. -/
structure StopPaired (tasks : Tasks) (σ : CollectorState) (action : TraceAction) : Prop where
  entry : ∀ call report, action = .enter call report → σ.treatsAsExit report.tid = false
  exit : ∀ report, action = .leave report → σ.treatsAsExit report.tid = true
  calls : ∀ report turn call, action.report = some report → σ.collectTurn report = .ok turn →
    call ∈ turn.calls → action = .leave report ∧ ∃ registers, report.registers = .ok registers ∧
      tasks.inside report.tid = some ⟨call.number, call.args⟩ ∧
      call.result = registers.rax.toInt64

/-- No tid passes to a task that is inside another call than the collector
holds for it: a thread that takes over its leader's tid is inside the same
call as the leader, and a tid that an execve has left is not used again. -/
def KeepsPairs (root : Pid) (past : List TraceAction) : TraceAction → Prop
  | .takeover tid leader =>
      (tasksAfter root past).inside leader = (tasksAfter root past).inside tid
  | .born tid _ => ∀ leader, .takeover tid leader ∉ past
  | _ => True

variable {σ σ' : CollectorState} {report : Report} {turn : Turn} {es : List Event}

/-! ### One turn -/

/-- What a turn does to the calls that are held, and which calls it hands
over. -/
inductive StopEffect (σ : CollectorState) (report : Report) (turn : Turn) : Prop
  | aborted (returned : turn.state.returned = true) (threads : turn.state.threads = σ.threads)
      (calls : turn.calls = [])
  | ended (isEnd : report.isEnd = true)
      (threads : turn.state.threads = Function.update σ.threads report.tid none)
      (calls : turn.calls = [])
  | quiet (isEnd : report.isEnd = false)
      (unread : report.isSyscallStop = true → report.registers = .esrch)
      (threads : turn.state.threads = σ.threads) (calls : turn.calls = [])
  | entry (registers : Registers) (isStop : report.isSyscallStop = true)
      (read : report.registers = .ok registers) (outside : σ.treatsAsExit report.tid = false)
      (threads : turn.state.threads = Function.update σ.threads report.tid (some
        { inSyscall := true, syscallNumber := registers.origRax.toInt64
          args := syscallArgs registers }))
      (calls : turn.calls = [])
  | exit (registers : Registers) (isStop : report.isSyscallStop = true)
      (read : report.registers = .ok registers) (inside : σ.treatsAsExit report.tid = true)
      (threads : turn.state.threads = Function.update σ.threads report.tid (some
        { (σ.threads report.tid).getD {} with inSyscall := false }))
      (calls : turn.calls = [σ.rawSyscall report.tid ((σ.threads report.tid).getD {}) registers
        report.nowNs])

theorem Turn.calls_markers (markers : List CommandMarker) (tid : Pid) (t : UInt64)
    (memory : TraceeMemory) (call : RawSyscall) (state : CollectorState) :
    ({ state
       notifications := (markers.map fun marker => .marker tid marker t) ++
         [.syscall memory call] } : Turn).calls = [call] := by
  simp [Turn.calls, List.filterMap_map]

/-- Resuming hands over nothing and touches no entry. -/
theorem StopEffect.resume {signal : UInt32} (h : StopEffect σ report turn) :
    StopEffect σ report (resumeSyscall turn report signal) := by
  have hcalls : (resumeSyscall turn report signal).calls = turn.calls := by
    unfold resumeSyscall
    dsimp only
    split <;> rfl
  have hthreads : (resumeSyscall turn report signal).state.threads = turn.state.threads := by
    unfold resumeSyscall
    dsimp only
    split <;> rfl
  have hreturned : turn.state.returned = true →
      (resumeSyscall turn report signal).state.returned = true := by
    intro h
    unfold resumeSyscall
    dsimp only
    split
    · rfl
    · exact h
  cases h with
  | aborted returned threads calls =>
      exact .aborted (hreturned returned) (hthreads.trans threads) (hcalls.trans calls)
  | ended isEnd threads calls =>
      exact .ended isEnd (hthreads.trans threads) (hcalls.trans calls)
  | quiet isEnd unread threads calls =>
      exact .quiet isEnd unread (hthreads.trans threads) (hcalls.trans calls)
  | entry registers isStop read outside threads calls =>
      exact .entry registers isStop read outside (hthreads.trans threads) (hcalls.trans calls)
  | exit registers isStop read inside threads calls =>
      exact .exit registers isStop read inside (hthreads.trans threads) (hcalls.trans calls)

theorem syscallTurn_stopEffect (hend : report.isEnd = false)
    (hstop : report.isSyscallStop = true) (h : σ.syscallTurn report = .ok turn) :
    StopEffect σ report turn := by
  rcases syscallTurn_inv h with ⟨hgone, rfl⟩ | ⟨_, _, -, rfl⟩ |
    ⟨registers, hread, houtside, rfl⟩ | ⟨registers, hread, hinside, hexit⟩
  · exact .quiet hend (fun _ => hgone) rfl rfl
  · exact .aborted rfl rfl rfl
  · exact .entry registers hstop hread houtside rfl rfl
  · obtain ⟨protocol, markers, rfl, -⟩ := syscallExitTurn_inv rfl hexit
    exact .exit registers hstop hread hinside rfl (Turn.calls_markers _ _ _ _ _ _)

theorem eventTurn_stopEffect (hend : report.isEnd = false)
    (hstop : report.isSyscallStop = false) : StopEffect σ report (σ.eventTurn report) := by
  have hunread : report.isSyscallStop = true → report.registers = .esrch := by simp [hstop]
  unfold eventTurn
  split
  · split
    · exact .quiet hend hunread rfl rfl
    · exact .aborted rfl rfl rfl
  · split <;> exact .quiet hend hunread rfl rfl

theorem stopTurn_stopEffect (hstop : report.isStopped = true)
    (h : σ.stopTurn report = .ok turn) : StopEffect σ report turn := by
  have hend := Report.not_isEnd_of_isStopped hstop
  unfold stopTurn at h
  by_cases hsyscall : report.highByte = syscallTrap
  · rw [if_pos hsyscall] at h
    obtain ⟨turn', hturn, hrest⟩ := Transducer.bind_ok_iff.mp h
    have heffect := syscallTurn_stopEffect hend
      (by simp [Report.isSyscallStop, hstop, hsyscall]) hturn
    split at hrest
    · rwa [← Except.ok.inj hrest]
    · rw [← Except.ok.inj hrest]
      exact heffect.resume
  · have hother : report.isSyscallStop = false := by simp [Report.isSyscallStop, hsyscall]
    rw [if_neg hsyscall] at h
    split at h
    · dsimp only at h
      split at h
      · rw [← Except.ok.inj h]
        exact eventTurn_stopEffect hend hother
      · rw [← Except.ok.inj h]
        exact (eventTurn_stopEffect hend hother).resume
    · have hquiet : StopEffect σ report { state := σ } :=
        .quiet hend (by simp [hother]) rfl rfl
      rw [← Except.ok.inj h]
      exact hquiet.resume

/-- Setting options touches nothing that the effect speaks of. -/
theorem StopEffect.of_configured (h : StopEffect σ' report turn)
    (hthreads : σ'.threads = σ.threads) (hexecution : σ'.execution = σ.execution)
    (requests : List Request) : StopEffect σ report { turn with requests } := by
  have htreats : σ'.treatsAsExit report.tid = σ.treatsAsExit report.tid := by
    simp only [treatsAsExit, hthreads]
  have hraw : ∀ thread registers t, σ'.rawSyscall report.tid thread registers t =
      σ.rawSyscall report.tid thread registers t := by
    intro thread registers t
    simp only [rawSyscall, hexecution]
  cases h with
  | aborted returned threads calls => exact .aborted returned (threads.trans hthreads) calls
  | ended isEnd threads calls => exact .ended isEnd (by rw [threads, hthreads]) calls
  | quiet isEnd unread threads calls => exact .quiet isEnd unread (threads.trans hthreads) calls
  | entry registers isStop read outside threads calls =>
      exact .entry registers isStop read (htreats.symm.trans outside) (by rw [threads, hthreads])
        calls
  | exit registers isStop read inside threads calls =>
      refine .exit registers isStop read (htreats.symm.trans inside) (by rw [threads, hthreads]) ?_
      rw [← hraw, ← hthreads]
      exact calls

/-- Every turn has one of the effects. -/
theorem collectTurn_stopEffect (h : σ.collectTurn report = .ok turn) :
    StopEffect σ report turn := by
  cases hstop : report.isStopped with
  | false =>
      cases hend : report.isEnd with
      | true =>
          rw [collectTurn_of_isEnd hend] at h
          rw [← Except.ok.inj h]
          refine .ended hend ?_ rfl
          unfold exitTurn
          dsimp only
          split <;> rfl
      | false =>
          rw [collectTurn_of_quiet hend hstop] at h
          rw [← Except.ok.inj h]
          exact .quiet hend (by simp [Report.isSyscallStop, hstop]) rfl rfl
  | true =>
      rw [collectTurn_of_isStopped hstop] at h
      dsimp only at h
      obtain ⟨configuredTids, error, returned, hstate⟩ :=
        configureTurn_state { σ with liveTids := insert report.tid σ.liveTids } report
      split at h
      · rename_i hreturned
        rw [← Except.ok.inj h]
        refine .aborted hreturned (by rw [hstate]) ?_
        rw [Turn.calls, configureTurn_notifications]
        rfl
      · obtain ⟨turn', hturn, hlast⟩ := Transducer.bind_ok_iff.mp h
        rw [← Except.ok.inj hlast]
        exact (stopTurn_stopEffect hstop hturn).of_configured (by rw [hstate]) (by rw [hstate]) _

/-! ### Runs -/

variable {root : Pid} {past : List TraceAction} {action : TraceAction} {tasks : Tasks}

theorem treatsAsExit_eq_false (h : σ.pendingCall report.tid = none) :
    σ.treatsAsExit report.tid = false := by
  simpa [pendingCall, ThreadState.pending, treatsAsExit] using h

theorem treatsAsExit_eq_true (h : σ.pendingCall report.tid ≠ none) :
    σ.treatsAsExit report.tid = true := by
  simpa [pendingCall, ThreadState.pending, treatsAsExit] using h

theorem pendingCall_of_threads {tid : Pid} {thread : Option ThreadState}
    (h : σ'.threads = Function.update σ.threads tid thread) (t : Pid) :
    σ'.pendingCall t = if t = tid then (thread.getD {}).pending else σ.pendingCall t := by
  by_cases ht : t = tid
  · rw [if_pos ht, pendingCall, h, ht, Function.update_self]
  · rw [if_neg ht, pendingCall, h, Function.update_of_ne ht, pendingCall]

/-- A step at a system call stop changes the call of the task that stopped,
unless that task is gone. -/
theorem inside_atStop {inside : Option EnteredCall} (hknown : tasks report.tid ≠ none) (t : Pid) :
    Tasks.inside (Function.update tasks report.tid
        ((tasks report.tid).map fun task => task.atStop inside report)) t =
      if t = report.tid ∧ report.gone = false then inside else tasks.inside t := by
  obtain ⟨task, htask⟩ := Option.ne_none_iff_exists'.mp hknown
  by_cases ht : t = report.tid
  · subst ht
    cases hgone : report.gone <;>
      simp [Tasks.inside, htask, Task.atStop, hgone]
  · simp [Tasks.inside, ht]

theorem known_atStop {f : Task → Task} (t : Pid) :
    Function.update tasks report.tid ((tasks report.tid).map f) t ≠ none ↔ tasks t ≠ none := by
  by_cases ht : t = report.tid
  · subst ht
    simp
  · rw [Function.update_of_ne ht]

/-- The collector holds for a task the call that the task is inside. A tid
without a task is left out once an execve has moved its task away. -/
def Paired (root : Pid) (past : List TraceAction) (σ : CollectorState) : Prop :=
  ∀ tid, (tasksAfter root past tid ≠ none ∨ ∀ leader, .takeover tid leader ∉ past) →
    σ.pendingCall tid = (tasksAfter root past).inside tid

theorem Paired.of_known (h : Paired root past σ) {tid : Pid}
    (hknown : tasksAfter root past tid ≠ none) :
    σ.pendingCall tid = (tasksAfter root past).inside tid :=
  h tid (.inl hknown)

/-- A stop is taken for what it is. -/
theorem Paired.stopPaired (h : Paired root past σ) (hadmits : TraceAdmits root past action) :
    StopPaired (tasksAfter root past) σ action := by
  have hentry : ∀ call report, action = .enter call report →
      σ.treatsAsExit report.tid = false := by
    rintro call report rfl
    obtain ⟨-, ⟨task, htask, -⟩, houtside, -⟩ := hadmits
    exact treatsAsExit_eq_false ((h.of_known (by simp [htask])).trans houtside)
  refine ⟨hentry, ?_, ?_⟩
  · rintro report rfl
    obtain ⟨-, ⟨task, htask, -⟩, hinside⟩ := hadmits
    exact treatsAsExit_eq_true (by rwa [h.of_known (by simp [htask])])
  · intro report turn call haction hturn hcall
    cases collectTurn_stopEffect hturn with
    | aborted returned threads calls => simp [calls] at hcall
    | ended isEnd threads calls => simp [calls] at hcall
    | quiet isEnd unread threads calls => simp [calls] at hcall
    | entry registers isStop read outside threads calls => simp [calls] at hcall
    | exit registers isStop read inside threads calls =>
        rw [calls, List.mem_singleton] at hcall
        subst hcall
        cases action with
        | born tid leader => simp [TraceAction.report] at haction
        | takeover tid leader => simp [TraceAction.report] at haction
        | enter call report' =>
            obtain rfl := Option.some.inj haction
            rw [hentry call report' rfl] at inside
            contradiction
        | other report' =>
            obtain rfl := Option.some.inj haction
            exact absurd isStop hadmits.2.1
        | ended report' =>
            obtain rfl := Option.some.inj haction
            have hstopped : report'.isStopped = true := by
              simp only [Report.isSyscallStop, Bool.and_eq_true] at isStop
              exact isStop.1
            have hend := hadmits.1
            rw [Report.not_isEnd_of_isStopped hstopped] at hend
            contradiction
        | leave report' =>
            obtain rfl := Option.some.inj haction
            obtain ⟨-, ⟨task, htask, -⟩, -⟩ := hadmits
            refine ⟨rfl, registers, read, ?_, rfl⟩
            have hknown : tasksAfter root past report'.tid ≠ none := by simp [htask]
            have hheld := h.of_known hknown
            rw [← hheld, pendingCall, ThreadState.pending]
            rw [treatsAsExit] at inside
            rw [if_pos inside]
            rfl

theorem loopStep_inv (hwaits : σ'.waits = true) (h : σ.loopStep report = .ok (σ', es)) :
    σ.waits = true ∧ ∃ turn, σ.collectTurn report = .ok turn ∧ σ'.threads = turn.state.threads ∧
      turn.state.returned = false := by
  unfold loopStep at h
  split at h
  · rename_i hbefore
    obtain ⟨turn, _, hturn, -, rfl⟩ := collectStep_inv h
    have hreturned : turn.state.returned = false := by
      simp only [waits, Bool.and_eq_true, Bool.not_eq_true'] at hwaits
      exact hwaits.1
    exact ⟨hbefore, turn, hturn, rfl, hreturned⟩
  · rename_i hbefore
    simp only [Except.ok.injEq, Prod.mk.injEq] at h
    rw [h.1] at hbefore
    contradiction

/-- Until an execve has left a tid, the two sides agree there. -/
theorem Paired.of_next (h : Paired root past σ) {tid : Pid}
    (ht : tasksAfter root past tid ≠ none ∨ ∀ leader, .takeover tid leader ∉ past ++ [action]) :
    σ.pendingCall tid = (tasksAfter root past).inside tid := by
  refine h tid (ht.imp_right fun hnever leader hmem => ?_)
  exact hnever leader (List.mem_append_left _ hmem)

/-- What a stop at the entry or the exit of a call does to the two sides. -/
theorem Paired.atStop {inside : Option EnteredCall} (h : Paired root past σ)
    (hknown : tasksAfter root past report.tid ≠ none)
    (hstep : (tasksAfter root past).step action =
      Function.update (tasksAfter root past) report.tid
        ((tasksAfter root past report.tid).map fun task => task.atStop inside report))
    (hpending : ∀ t, σ'.pendingCall t =
      if t = report.tid ∧ report.gone = false then inside else σ.pendingCall t) :
    Paired root (past ++ [action]) σ' := by
  intro t ht
  rw [tasksAfter_snoc, hstep, inside_atStop hknown, hpending]
  split
  · rfl
  · rw [tasksAfter_snoc, hstep, known_atStop] at ht
    exact h.of_next ht

theorem not_isEnd_of_isSyscallStop (h : report.isSyscallStop = true) : report.isEnd = false := by
  simp only [Report.isSyscallStop, Bool.and_eq_true] at h
  exact Report.not_isEnd_of_isStopped h.1

/-! ### The effect of a turn that goes on -/

/-- At a system call stop the held call of the task becomes the one that is
entered, or none, unless the task is gone. -/
theorem StopEffect.pendingCall_of_syscall {inside : Option EnteredCall}
    (h : StopEffect σ report turn) (hsyscall : report.isSyscallStop = true)
    (hreturned : turn.state.returned = false)
    (hinside : ∀ registers, report.registers = .ok registers →
      (if σ.treatsAsExit report.tid then none else some registers.entered) = inside) (t : Pid) :
    turn.state.pendingCall t =
      if t = report.tid ∧ report.gone = false then inside else σ.pendingCall t := by
  cases h with
  | aborted returned threads calls => simp [returned] at hreturned
  | ended isEnd threads calls => simp [not_isEnd_of_isSyscallStop hsyscall] at isEnd
  | quiet isEnd unread threads calls =>
      rw [if_neg (by simp [Report.gone, unread hsyscall]), pendingCall, threads, pendingCall]
  | entry registers isStop read outside threads calls =>
      rw [pendingCall_of_threads threads, ← hinside registers read, outside]
      simp [Report.gone, read, ThreadState.pending, Registers.entered]
  | exit registers isStop read inside threads calls =>
      rw [pendingCall_of_threads threads, ← hinside registers read, inside]
      simp [Report.gone, read, ThreadState.pending]

theorem StopEffect.threads_of_other (h : StopEffect σ report turn)
    (hend : report.isEnd = false) (hsyscall : ¬ report.isSyscallStop = true) :
    turn.state.threads = σ.threads := by
  cases h with
  | aborted returned threads calls => exact threads
  | ended isEnd threads calls =>
      rw [hend] at isEnd
      contradiction
  | quiet isEnd unread threads calls => exact threads
  | entry registers isStop read outside threads calls => exact absurd isStop hsyscall
  | exit registers isStop read inside threads calls => exact absurd isStop hsyscall

theorem StopEffect.threads_of_end (h : StopEffect σ report turn) (hend : report.isEnd = true)
    (hreturned : turn.state.returned = false) :
    turn.state.threads = Function.update σ.threads report.tid none := by
  cases h with
  | aborted returned threads calls => simp [returned] at hreturned
  | ended isEnd threads calls => exact threads
  | quiet isEnd unread threads calls => simp [hend] at isEnd
  | entry registers isStop read outside threads calls
  | exit registers isStop read inside threads calls =>
      rw [not_isEnd_of_isSyscallStop isStop] at hend
      contradiction

/-! ### One action -/

/-- A new task is inside no call. -/
theorem Paired.born {tid leader : Pid} (h : Paired root past σ)
    (hfree : tasksAfter root past tid = none) (hnever : ∀ leader, .takeover tid leader ∉ past) :
    Paired root (past ++ [.born tid leader]) σ := by
  intro t ht
  rw [tasksAfter_snoc] at ht ⊢
  by_cases htid : t = tid
  · -- the tid was free and is not one that an execve has left
    subst htid
    rw [h t (.inr hnever)]
    simp [Tasks.inside, Tasks.step, hfree]
  · simp only [Tasks.step, Tasks.inside, Function.update_of_ne htid] at ht ⊢
    exact h.of_next ht

/-- A thread that takes over its leader's tid is inside the leader's call. -/
theorem Paired.takeover {tid leader : Pid} (h : Paired root past σ)
    (hleader : tasksAfter root past leader ≠ none)
    (hsame : (tasksAfter root past).inside leader = (tasksAfter root past).inside tid) :
    Paired root (past ++ [.takeover tid leader]) σ := by
  intro t ht
  rw [tasksAfter_snoc] at ht ⊢
  by_cases hl : t = leader
  · -- leader and thread are inside the same call
    subst hl
    rw [h.of_known hleader, hsame]
    simp [Tasks.inside, Tasks.step]
  · by_cases htid : t = tid
    · subst htid
      rcases ht with hknown | hnever
      · simp [Tasks.step, hl] at hknown
      · exact absurd (hnever leader) (by simp)
    · simp only [Tasks.step, Tasks.inside, Function.update_of_ne hl,
        Function.update_of_ne htid] at ht ⊢
      exact h.of_next ht

/-- A task that ends leaves no held call behind. -/
theorem Paired.ended (h : Paired root past σ)
    (hcleared : σ'.threads = Function.update σ.threads report.tid none) :
    Paired root (past ++ [.ended report]) σ' := by
  intro t ht
  rw [tasksAfter_snoc] at ht ⊢
  rw [pendingCall_of_threads hcleared]
  by_cases htid : t = report.tid
  · simp [htid, ThreadState.pending, Tasks.inside, Tasks.step]
  · rw [if_neg htid]
    simp only [Tasks.step, Tasks.inside, Function.update_of_ne htid] at ht ⊢
    exact h.of_next ht

/-- Each admitted step that keeps the pairs keeps the held calls right. -/
theorem Paired.step (h : Paired root past σ) (hadmits : TraceAdmits root past action)
    (hkeeps : KeepsPairs root past action) (hstep : σ.traceStep action = .ok (σ', es))
    (hwaits : σ'.waits = true) : Paired root (past ++ [action]) σ' := by
  cases action with
  | born tid leader =>
      obtain rfl : σ = σ' := congrArg Prod.fst (Except.ok.inj hstep)
      exact h.born hadmits.1 hkeeps
  | takeover tid leader =>
      obtain rfl : σ = σ' := congrArg Prod.fst (Except.ok.inj hstep)
      exact h.takeover hadmits.2.1 hkeeps
  | enter call report =>
      obtain ⟨hsyscall, ⟨task, htask, -⟩, houtside, hcall⟩ := hadmits
      obtain ⟨-, turn, hturn, hthreads, hreturned⟩ := loopStep_inv hwaits hstep
      have hknown : tasksAfter root past report.tid ≠ none := by simp [htask]
      have hentry := treatsAsExit_eq_false ((h.of_known hknown).trans houtside)
      refine h.atStop hknown rfl fun t => ?_
      rw [pendingCall, hthreads, ← pendingCall]
      refine (collectTurn_stopEffect hturn).pendingCall_of_syscall hsyscall hreturned ?_ t
      intro registers hread
      rw [hentry, hcall registers hread]
      rfl
  | leave report =>
      obtain ⟨hsyscall, ⟨task, htask, -⟩, hinside⟩ := hadmits
      obtain ⟨-, turn, hturn, hthreads, hreturned⟩ := loopStep_inv hwaits hstep
      have hknown : tasksAfter root past report.tid ≠ none := by simp [htask]
      have hexit := treatsAsExit_eq_true (by rwa [h.of_known hknown])
      refine h.atStop hknown rfl fun t => ?_
      rw [pendingCall, hthreads, ← pendingCall]
      refine (collectTurn_stopEffect hturn).pendingCall_of_syscall hsyscall hreturned ?_ t
      intro registers hread
      rw [hexit]
      rfl
  | other report =>
      obtain ⟨hstopped, hsyscall, -⟩ := hadmits
      obtain ⟨-, turn, hturn, hthreads, hreturned⟩ := loopStep_inv hwaits hstep
      have hsame := (collectTurn_stopEffect hturn).threads_of_other
        (Report.not_isEnd_of_isStopped hstopped) hsyscall
      intro t ht
      rw [tasksAfter_snoc] at ht ⊢
      rw [pendingCall, hthreads, hsame]
      exact h.of_next ht
  | ended report =>
      obtain ⟨-, turn, hturn, hthreads, hreturned⟩ := loopStep_inv hwaits hstep
      exact h.ended (hthreads.trans
        ((collectTurn_stopEffect hturn).threads_of_end hadmits.1 hreturned))

theorem paired_start (launch : Launch) : Paired launch.root [] launch.start := by
  intro t _
  have hheld : launch.start.pendingCall t = none := rfl
  rw [hheld]
  by_cases ht : t = launch.root <;>
    simp [tasksAfter, Tasks.initial, Tasks.inside, ht]

theorem waits_of_traceStep (hwaits : σ'.waits = true)
    (h : σ.traceStep action = .ok (σ', es)) : σ.waits = true := by
  cases hreport : action.report with
  | none =>
      simp only [traceStep, hreport, Except.ok.injEq, Prod.mk.injEq] at h
      rwa [h.1]
  | some report =>
      simp only [traceStep, hreport] at h
      exact (loopStep_inv hwaits h).1

/-- A run in which no tid passes to a task inside another call keeps the held
calls right while the loop goes on. -/
theorem paired_run (launch : Launch)
    (legal : Transducer.Legal (TraceAdmits launch.root) past)
    (hkeeps : Transducer.Legal (KeepsPairs launch.root) past)
    (hrun : Transducer.run traceStep launch.start past = .ok (σ, es)) (hwaits : σ.waits = true) :
    Paired launch.root past σ := by
  have hboth : Transducer.Legal (fun past action =>
      TraceAdmits launch.root past action ∧ KeepsPairs launch.root past action) past :=
    fun before action rest hsplit => ⟨legal before action rest hsplit,
      hkeeps before action rest hsplit⟩
  refine Transducer.run_induction
    (motive := fun past σ _ => σ.waits = true → Paired launch.root past σ)
    (fun _ => paired_start launch) ?_ hboth hrun hwaits
  intro past σ _ action σ' o _ ih hadmitted hstep hwaits
  exact (ih (waits_of_traceStep hwaits hstep)).step hadmitted.1 hadmitted.2 hstep hwaits

/-- In every run in which no tid passes to a task inside another call, and at
every stop that the collector waits for, an entry is taken for an entry and
an exit for the exit of the same call. -/
theorem stops_paired (launch : Launch) {actions : List TraceAction}
    (legal : Transducer.Legal (TraceAdmits launch.root) actions)
    (hkeeps : Transducer.Legal (KeepsPairs launch.root) actions) :
    ∀ past action rest σ es, actions = past ++ action :: rest →
      Transducer.run traceStep launch.start past = .ok (σ, es) → σ.waits = true →
      StopPaired (tasksAfter launch.root past) σ action := by
  rintro past action rest σ es rfl hrun hwaits
  exact (paired_run launch legal.of_append hkeeps.of_append hrun hwaits).stopPaired
    (legal past action rest rfl)

/-! ### An execve by a second thread -/

/-- A system call stop whose registers show an `execve`. -/
def sampleStop (tid : Pid) : Report :=
  { tid, status := 0x857f
    registers := .ok { origRax := 59, rax := 0, rdi := 1, rsi := 2, rdx := 3, r10 := 0, r8 := 0
                       r9 := 0 }
    memory := sampleMemory, nowNs := 1 }

def sampleExecve : EnteredCall := ⟨59, #v[1, 2, 3, 0, 0, 0]⟩

/-- Thread 8 of the root enters an execve. -/
def sampleThreads : List TraceAction := [.born 8 7, .enter sampleExecve (sampleStop 8)]

theorem sampleThreads_legal : Transducer.Legal (TraceAdmits 7) sampleThreads := by
  have hborn : TraceAdmits 7 [] (.born 8 7) := ⟨rfl, .inr (by decide)⟩
  have henter : TraceAdmits 7 [.born 8 7] (.enter sampleExecve (sampleStop 8)) :=
    ⟨by decide, ⟨_, rfl, rfl⟩, rfl, fun _ h => by rw [← Answer.ok.inj h]; rfl⟩
  exact ((Transducer.legal_nil _).snoc hborn).snoc henter

/-- The execve of thread 8 succeeds and is left under the tid of the root,
which was between two calls. -/
theorem takeover_inverts :
    ¬ ∀ (launch : Launch) (actions : List TraceAction),
      Transducer.Legal (TraceAdmits launch.root) actions →
      ∀ past action rest σ es, actions = past ++ action :: rest →
        Transducer.run traceStep launch.start past = .ok (σ, es) → σ.waits = true →
        StopPaired (tasksAfter launch.root past) σ action := by
  intro h
  have htakeover : TraceAdmits 7 sampleThreads (.takeover 8 7) := by
    refine ⟨by decide, by decide, ⟨sampleExecve, rfl, rfl⟩, ?_⟩
    intro other task hother _
    by_contra hother'
    obtain ⟨h8, h7⟩ := not_or.mp hother'
    simp [tasksAfter, sampleThreads, Tasks.step, Tasks.initial, sampleStop, h8, h7] at hother
  have hleave : TraceAdmits 7 (sampleThreads ++ [.takeover 8 7]) (.leave (sampleStop 7)) :=
    ⟨by decide, ⟨_, rfl, rfl⟩, by decide⟩
  have hpaired := h { root := 7, cwd := [], startNs := 0 } _
    ((sampleThreads_legal.snoc htakeover).snoc hleave) _ _ [] _ _ rfl rfl rfl
  have hexit := hpaired.exit _ rfl
  revert hexit
  decide

/-- The root and thread 8 enter the same execve, and that of thread 8
succeeds. -/
def sampleSameExecve : List TraceAction :=
  [.born 8 7, .enter sampleExecve (sampleStop 7), .enter sampleExecve (sampleStop 8),
    .takeover 8 7]

theorem sampleSameExecve_legal : Transducer.Legal (TraceAdmits 7) sampleSameExecve := by
  have hborn : TraceAdmits 7 [] (.born 8 7) := ⟨rfl, .inr (by decide)⟩
  have hroot : TraceAdmits 7 [.born 8 7] (.enter sampleExecve (sampleStop 7)) :=
    ⟨by decide, ⟨_, rfl, rfl⟩, rfl, fun _ h => by rw [← Answer.ok.inj h]; rfl⟩
  have hthread : TraceAdmits 7 [.born 8 7, .enter sampleExecve (sampleStop 7)]
      (.enter sampleExecve (sampleStop 8)) :=
    ⟨by decide, ⟨_, rfl, rfl⟩, rfl, fun _ h => by rw [← Answer.ok.inj h]; rfl⟩
  have htakeover : TraceAdmits 7 [.born 8 7, .enter sampleExecve (sampleStop 7),
      .enter sampleExecve (sampleStop 8)] (.takeover 8 7) := by
    refine ⟨by decide, by decide, ⟨sampleExecve, rfl, rfl⟩, ?_⟩
    intro other task hother _
    by_contra hother'
    obtain ⟨h8, h7⟩ := not_or.mp hother'
    simp [tasksAfter, Tasks.step, Tasks.initial, sampleStop, h8, h7] at hother
  exact ((((Transducer.legal_nil _).snoc hborn).snoc hroot).snoc hthread).snoc htakeover

/-- The exit of the execve under the tid of the root is handed over as it was
entered. -/
theorem stops_paired_sample :
    ∃ σ es turn, Transducer.run traceStep ({ root := 7, cwd := [], startNs := 0 } : Launch).start
        sampleSameExecve = .ok (σ, es) ∧ σ.waits = true ∧
      StopPaired (tasksAfter 7 sampleSameExecve) σ (.leave (sampleStop 7)) ∧
      σ.collectTurn (sampleStop 7) = .ok turn ∧
      turn.calls = [{ pid := 7, tid := 7, number := 59, args := sampleExecve.args, result := 0
                      timestampNs := 1 }] := by
  have hleave : TraceAdmits 7 sampleSameExecve (.leave (sampleStop 7)) :=
    ⟨by decide, ⟨_, rfl, rfl⟩, by decide⟩
  have hkeeps : Transducer.Legal (KeepsPairs 7) (sampleSameExecve ++ [.leave (sampleStop 7)]) := by
    have hborn : KeepsPairs 7 [] (.born 8 7) := fun _ => List.not_mem_nil
    have htakeover : KeepsPairs 7 [.born 8 7, .enter sampleExecve (sampleStop 7),
        .enter sampleExecve (sampleStop 8)] (.takeover 8 7) := rfl
    have henter : ∀ past call report, KeepsPairs 7 past (.enter call report) :=
      fun _ _ _ => trivial
    have hleft : ∀ past report, KeepsPairs 7 past (.leave report) := fun _ _ => trivial
    exact (((((Transducer.legal_nil _).snoc hborn).snoc (henter _ _ _)).snoc
      (henter _ _ _)).snoc htakeover).snoc (hleft _ _)
  have hpaired := stops_paired { root := 7, cwd := [], startNs := 0 }
    (sampleSameExecve_legal.snoc hleave) hkeeps
  exact ⟨_, _, _, rfl, rfl, hpaired _ _ [] _ _ rfl rfl rfl, rfl, rfl⟩

end Whyrun
