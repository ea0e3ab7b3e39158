import Whyrun.Kernel.LiveTasks
import Whyrun.Kernel.Survival

/-!
The signals that the collector passes on. At a stop of ptrace's own the task is
to be resumed with none, at the delivery of a signal with that signal. A stop
with `SIGSTOP` is the attach stop of a task once, at the beginning of its life;
the collector takes every such stop for one.
-/

namespace Whyrun

open CollectorState

/-! ### What is due -/

namespace Report

def isEventStop (report : Report) : Bool := report.highByte = sigTrap && report.event ≠ 0

def isSigStop (report : Report) : Bool := report.isStopped && report.highByte = sigStop

end Report

/-- The report of a stop. -/
def TraceAction.stop (action : TraceAction) : Option Report :=
  action.report.filter Report.isStopped

/-- A task is attached from its birth; a `SIGSTOP` that is sent to it before its
attach stop is one with it. -/
def attachStep (pending : Finset Pid) : TraceAction → Finset Pid
  | .born tid _ => insert tid pending
  | .takeover tid leader => (pending.erase tid).erase leader
  | .enter _ report | .leave report | .other report | .ended report =>
      if report.isSigStop ∨ report.isEnd then pending.erase report.tid else pending

/-- The tasks whose attach stop is still to come. The root has had its own
before the loop. -/
def attachPending (past : List TraceAction) : Finset Pid := past.foldl attachStep ∅

/-- The signal with which a task is to be resumed after a stop. -/
def dueSignal (pending : Finset Pid) (report : Report) : UInt32 :=
  if report.highByte = syscallTrap then 0
  else if report.isEventStop then 0
  else if report.highByte = sigStop ∧ report.tid ∈ pending then 0
  else report.highByte

def dueFrom (pending : Finset Pid) : List TraceAction → List (Pid × UInt32)
  | [] => []
  | action :: actions =>
      (action.stop.map fun report => (report.tid, dueSignal pending report)).toList ++
        dueFrom (attachStep pending action) actions

/-- How the tasks are to be resumed, stop by stop. The signals other than 0 are
those that were sent, each at its delivery. -/
def due (actions : List TraceAction) : List (Pid × UInt32) := dueFrom ∅ actions

/-- The delivery of a `SIGSTOP` that was sent to the task. -/
def DeliversSigStop (past : List TraceAction) (action : TraceAction) : Prop :=
  ∃ report, action.stop = some report ∧ report.highByte = sigStop ∧
    report.tid ∉ attachPending past

/-! ### What the collector does at a stop -/

/-- The tasks that are resumed, with the signals passed. -/
def resumes (requests : List Request) : List (Pid × UInt32) :=
  requests.filterMap fun request =>
    match request with
    | .setOptions _ => none
    | .resume tid signal => some (tid, signal)

/-- The signal that the collector passes at a stop. -/
def Report.passedSignal (report : Report) : UInt32 :=
  if report.highByte = syscallTrap then 0
  else if report.isEventStop then 0
  else if report.highByte = sigStop then 0
  else report.highByte

/-- The collector takes the reports of these actions and gives up at none of
them; the requests are those of its turns. -/
inductive Collects : CollectorState → List TraceAction → CollectorState → List Request → Prop
  | nil {σ : CollectorState} : Collects σ [] σ []
  | silent {σ τ : CollectorState} {action : TraceAction} {actions : List TraceAction}
      {requests : List Request} (quiet : action.report = none)
      (rest : Collects σ actions τ requests) : Collects σ (action :: actions) τ requests
  | report {σ σ' τ : CollectorState} {action : TraceAction} {actions : List TraceAction}
      {requests : List Request} {report : Report} {turn : Turn} {es : List Event}
      (reported : action.report = some report) (waits : σ.waits = true)
      (took : σ.collectTurn report = .ok turn)
      (step : σ.collectStep report = .ok (σ', es)) (goes : σ'.returned = false)
      (rest : Collects σ' actions τ requests) :
      Collects σ (action :: actions) τ (turn.requests ++ requests)

variable {σ σ' τ : CollectorState} {report : Report} {turn : Turn} {requests : List Request}
  {actions : List TraceAction}

theorem resumes_append (front back : List Request) :
    resumes (front ++ back) = resumes front ++ resumes back :=
  List.filterMap_append

theorem requests_resumeSyscall (turn : Turn) (report : Report) (signal : UInt32) :
    (resumeSyscall turn report signal).requests =
      turn.requests ++ [.resume report.tid signal] := by
  unfold resumeSyscall
  dsimp only
  split <;> rfl

theorem requests_syscallTurn (h : σ.syscallTurn report = .ok turn) : turn.requests = [] := by
  obtain ⟨-, rfl⟩ | ⟨_, _, -, rfl⟩ | ⟨_, -, -, rfl⟩ | ⟨_, -, -, hexit⟩ := syscallTurn_inv h
  · rfl
  · rfl
  · rfl
  · obtain ⟨_, _, rfl, -⟩ := syscallExitTurn_inv rfl hexit
    rfl

theorem requests_eventTurn (σ : CollectorState) (report : Report) :
    (σ.eventTurn report).requests = [] := by
  unfold eventTurn
  split
  · split <;> rfl
  · split <;> rfl

theorem resumes_configureTurn (σ : CollectorState) (report : Report) :
    resumes (configureTurn σ report).requests = [] := by
  unfold configureTurn
  split
  · rfl
  · split <;> rfl

theorem resumes_stopTurn (h : σ.stopTurn report = .ok turn)
    (hgoes : turn.state.returned = false) :
    resumes turn.requests = [(report.tid, report.passedSignal)] := by
  rw [stopTurn] at h
  rw [Report.passedSignal]
  split at h
  · rename_i hsyscall
    obtain ⟨call, hcall, hlast⟩ := Transducer.bind_ok_iff.mp h
    rw [if_pos hsyscall]
    split at hlast
    · rename_i hreturned
      rw [← Except.ok.inj hlast, hreturned] at hgoes
      cases hgoes
    · rw [← Except.ok.inj hlast, requests_resumeSyscall, requests_syscallTurn hcall]
      rfl
  · rename_i hsyscall
    rw [if_neg hsyscall]
    split at h
    · rename_i hevent
      have hstop : report.isEventStop = true := by simpa [Report.isEventStop] using hevent
      dsimp only at h
      rw [if_pos hstop]
      split at h
      · rename_i hreturned
        rw [← Except.ok.inj h, hreturned] at hgoes
        cases hgoes
      · rw [← Except.ok.inj h, requests_resumeSyscall, requests_eventTurn]
        rfl
    · rename_i hevent
      have hstop : ¬ report.isEventStop = true := by simpa [Report.isEventStop] using hevent
      rw [if_neg hstop, ← Except.ok.inj h, requests_resumeSyscall]
      rfl

/-- A task that has stopped is resumed once, and no other task. -/
theorem resumes_collectTurn (h : σ.collectTurn report = .ok turn)
    (hgoes : turn.state.returned = false) :
    resumes turn.requests =
      if report.isStopped then [(report.tid, report.passedSignal)] else [] := by
  cases hstop : report.isStopped with
  | true =>
      rw [collectTurn_of_isStopped hstop] at h
      dsimp only at h
      rw [if_pos rfl]
      split at h
      · rename_i hreturned
        rw [← Except.ok.inj h, hreturned] at hgoes
        cases hgoes
      · obtain ⟨inner, hinner, hlast⟩ := Transducer.bind_ok_iff.mp h
        rw [← Except.ok.inj hlast] at hgoes ⊢
        rw [resumes_append, resumes_configureTurn, resumes_stopTurn hinner hgoes]
        rfl
  | false =>
      cases hend : report.isEnd with
      | true =>
          rw [collectTurn_of_isEnd hend] at h
          rw [← Except.ok.inj h]
          rfl
      | false =>
          rw [collectTurn_of_quiet hend hstop] at h
          rw [← Except.ok.inj h]
          rfl

/-! ### Runs -/

/-- These are runs of the loop. -/
theorem Collects.collectLoop (h : Collects σ actions τ requests) (reports : List Report) :
    σ.collectLoop (actions.filterMap TraceAction.report ++ reports) = τ.collectLoop reports := by
  induction h with
  | nil => rfl
  | silent quiet rest ih => rw [List.filterMap_cons_none quiet, ih]
  | report reported waits took step goes rest ih =>
      rw [List.filterMap_cons_some reported, List.cons_append, CollectorState.collectLoop,
        if_pos waits, step]
      exact ih

/-- What the collector passes, stop by stop. -/
def passed (actions : List TraceAction) : List (Pid × UInt32) :=
  actions.filterMap fun action =>
    action.stop.map fun report => (report.tid, report.passedSignal)

theorem Collects.resumes_eq (h : Collects σ actions τ requests) :
    resumes requests = passed actions := by
  induction h with
  | nil => rfl
  | silent quiet rest ih =>
      rw [ih, passed, passed, List.filterMap_cons_none]
      rw [TraceAction.stop, quiet]
      rfl
  | @report σ σ' τ action actions requests report turn es reported waits took step goes rest ih =>
      obtain ⟨turn', _, hturn, -, rfl⟩ := collectStep_inv step
      obtain rfl := Except.ok.inj (took.symm.trans hturn)
      rw [resumes_append, ih, resumes_collectTurn took goes, passed, passed, List.filterMap_cons]
      rw [TraceAction.stop, reported]
      cases hstop : report.isStopped <;> simp [Option.filter, hstop]

/-- The collector passes what is due, but for a `SIGSTOP` that was sent. -/
theorem passedSignal_eq_iff (pending : Finset Pid) (report : Report) :
    report.passedSignal = dueSignal pending report ↔
      (report.highByte = sigStop → report.tid ∈ pending) := by
  rw [Report.passedSignal, dueSignal]
  by_cases hstop : report.highByte = sigStop
  · have hsyscall : ¬ report.highByte = syscallTrap := by
      rw [hstop]
      decide
    have hevent : ¬ report.isEventStop = true := by
      simp [Report.isEventStop, hstop, sigStop, sigTrap]
    rw [if_neg hsyscall, if_neg hevent, if_pos hstop, if_neg hsyscall, if_neg hevent]
    by_cases hmem : report.tid ∈ pending
    · rw [if_pos ⟨hstop, hmem⟩]
      exact ⟨fun _ _ => hmem, fun _ => rfl⟩
    · rw [if_neg fun h => hmem h.2, hstop]
      exact ⟨fun h => absurd h (by decide), fun h => absurd (h rfl) hmem⟩
  · have hattach : ¬ (report.highByte = sigStop ∧ report.tid ∈ pending) := fun h => hstop h.1
    rw [if_neg hstop, if_neg hattach]
    exact ⟨fun _ h => absurd h hstop, fun _ => rfl⟩

theorem passed_eq_dueFrom_iff (pending : Finset Pid) (actions : List TraceAction) :
    passed actions = dueFrom pending actions ↔
      Transducer.Legal (fun past action => ∀ report, action.stop = some report →
        report.highByte = sigStop → report.tid ∈ past.foldl attachStep pending) actions := by
  induction actions generalizing pending with
  | nil => exact ⟨fun _ => Transducer.legal_nil _, fun _ => rfl⟩
  | cons action actions ih =>
      rw [Transducer.legal_cons_iff, passed, List.filterMap_cons, ← passed, dueFrom]
      simp only [List.foldl_nil, List.foldl_cons]
      rw [← ih (attachStep pending action)]
      cases hstop : action.stop with
      | none => simp
      | some report =>
          simp only [Option.map_some, Option.toList_some, List.singleton_append,
            List.cons.injEq, Prod.mk.injEq, true_and, Option.some.injEq, forall_eq',
            passedSignal_eq_iff]

/-- Every task is resumed with what is due to it, stop by stop over the whole
run, exactly when no `SIGSTOP` is sent to a task after its attach stop. -/
theorem signals_passed_iff (launch : Launch) (h : Collects launch.start actions σ requests) :
    resumes requests = due actions ↔
      ∀ past action rest, actions = past ++ action :: rest → ¬ DeliversSigStop past action := by
  rw [h.resumes_eq, due, passed_eq_dueFrom_iff]
  constructor
  · rintro hlegal past action rest hsplit ⟨report, hstop, hsignal, hattached⟩
    exact hattached (hlegal past action rest hsplit report hstop hsignal)
  · intro hnever past action rest hsplit report hstop hsignal
    by_contra hattached
    exact hnever past action rest hsplit ⟨report, hstop, hsignal, hattached⟩

/-! ### A task that is stopped by hand -/

theorem Collects.single {action : TraceAction} {es : List Event}
    (reported : action.report = some report) (waits : σ.waits = true)
    (took : σ.collectTurn report = .ok turn) (step : σ.collectStep report = .ok (σ', es))
    (goes : σ'.returned = false) : Collects σ [action] σ' turn.requests := by
  have h := Collects.report reported waits took step goes .nil
  rwa [List.append_nil] at h

/-- The root 7 is sent a `SIGSTOP` and goes on without it. -/
theorem sent_sigstop_dropped :
    ∃ σ requests, Transducer.Legal (TraceAdmits 7) [.other (sampleStatus 7 0x137f)] ∧
      Collects sampleLaunch.start [.other (sampleStatus 7 0x137f)] σ requests ∧
      resumes requests = [(7, 0)] ∧ due [.other (sampleStatus 7 0x137f)] = [(7, sigStop)] := by
  have hadmits : TraceAdmits 7 [] (.other (sampleStatus 7 0x137f)) :=
    ⟨by decide, by decide, by decide⟩
  obtain ⟨σ, requests, hcollects⟩ : ∃ σ requests,
      Collects sampleLaunch.start [.other (sampleStatus 7 0x137f)] σ requests :=
    ⟨_, _, .single rfl rfl rfl rfl rfl⟩
  refine ⟨σ, requests, (Transducer.legal_nil _).snoc hadmits, hcollects, ?_, by decide⟩
  rw [hcollects.resumes_eq]
  decide

/-- The root 7 is interrupted, and the new task 8 has its attach stop. -/
def sampleInterrupt : List TraceAction :=
  [.other (sampleStatus 7 0x027f), .born 8 8, .other (sampleStatus 8 0x137f)]

theorem signals_passed_sample :
    ∃ σ requests, Collects sampleLaunch.start sampleInterrupt σ requests ∧
      resumes requests = [(7, 2), (8, 0)] ∧
      ∀ past action rest, sampleInterrupt = past ++ action :: rest →
        ¬ DeliversSigStop past action := by
  obtain ⟨σ, requests, hcollects⟩ : ∃ σ requests,
      Collects sampleLaunch.start sampleInterrupt σ requests :=
    ⟨_, _, .report rfl rfl rfl rfl rfl (.silent rfl (.single rfl rfl rfl rfl rfl))⟩
  have hpassed : resumes requests = [(7, 2), (8, 0)] := by
    rw [hcollects.resumes_eq]
    decide
  exact ⟨σ, requests, hcollects, hpassed, (signals_passed_iff sampleLaunch hcollects).mp hpassed⟩

end Whyrun
