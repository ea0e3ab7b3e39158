import Whyrun.Execution.Effect

/-!
The finished calls of one process, one after another and by whichever of its
threads: the run of the execution state on them is a run on the process
alone.
-/

namespace Whyrun

open ExecutionState

/-- A finished call and the memory of its task at that stop. -/
structure FinishedCall where
  memory : TraceeMemory
  call : RawSyscall

namespace FinishedCall

def notification (c : FinishedCall) : Notification := .syscall c.memory c.call

/-- The process after the call, and the event to emit. -/
def exit (c : FinishedCall) (P : ProcessState) : ProcessState × Option Event :=
  syscallExit c.memory P c.call

/-- The process after some calls, and the events before `emit`. -/
def run (P : ProcessState) : List FinishedCall → ProcessState × List Event
  | [] => (P, [])
  | c :: cs =>
      let r := run (c.exit P).1 cs
      (r.1, (c.exit P).2.toList ++ r.2)

theorem run_singleton (P : ProcessState) (c : FinishedCall) :
    run P [c] = ((c.exit P).1, (c.exit P).2.toList) := by
  simp [run]

theorem run_concat (P : ProcessState) (cs : List FinishedCall) (c : FinishedCall) :
    run P (cs ++ [c]) =
      ((c.exit (run P cs).1).1, (run P cs).2 ++ (c.exit (run P cs).1).2.toList) := by
  induction cs generalizing P with
  | nil => simp [run]
  | cons c' cs ih => simp [run, ih]

end FinishedCall

theorem setFd_fdTable (P : ProcessState) (fd : Int32) (r : Option Resource) :
    (P.setFd fd r).fdTable = Function.update P.fdTable fd r := rfl

/-- `emit` fills in the command and keeps the rest. -/
theorem emit_uncommanded (σ : ExecutionState) (e : Event) :
    { σ.emit e with commandId := none } = { e with commandId := none } := by
  unfold emit
  repeat' split
  all_goals rfl

theorem notify_call {σ : ExecutionState} {p : Pid} {P : ProcessState} {c : FinishedCall}
    (hp : σ.processForThread c.call.tid = p) (hP : σ.processes p = some P) :
    notify σ c.notification =
      .ok (σ.setProcess p (c.exit P).1, (c.exit P).2.toList.map σ.emit) := by
  subst hp
  simp [notify, FinishedCall.notification, onSyscallExit, hP, FinishedCall.exit]

/-- The calls of a process run on the process. -/
theorem run_calls {σ : ExecutionState} {p : Pid} {P : ProcessState} {calls : List FinishedCall}
    (hp : ∀ c ∈ calls, σ.processForThread c.call.tid = p) (hP : σ.processes p = some P) :
    ∃ τ es, Transducer.run notify σ (calls.map FinishedCall.notification) = .ok (τ, es) ∧
      τ.processes p = some (FinishedCall.run P calls).1 ∧
      es.map (fun e => { e with commandId := none }) =
        (FinishedCall.run P calls).2.map fun e => { e with commandId := none } := by
  induction calls generalizing σ P with
  | nil => exact ⟨σ, [], rfl, hP, rfl⟩
  | cons c cs ih =>
      have hstep := notify_call (hp c (by simp)) hP
      obtain ⟨τ, es, hrun, hτ, hes⟩ := ih (σ := σ.setProcess p (c.exit P).1)
        (P := (c.exit P).1) (fun c' hc' => hp c' (by simp [hc'])) (by simp)
      refine ⟨τ, (c.exit P).2.toList.map σ.emit ++ es, ?_, hτ, ?_⟩
      · exact Transducer.run_cons_ok_iff.mpr ⟨_, _, _, hstep, hrun, rfl⟩
      · simp [FinishedCall.run, hes, emit_uncommanded]

end Whyrun
