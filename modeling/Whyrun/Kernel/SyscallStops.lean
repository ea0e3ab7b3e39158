import Whyrun.Library.Transducer
import Whyrun.Model.PtraceCollector

/-!
A reference kernel for system call stops: the traced tasks, the thread group
of each and the call it is inside. It says which reports `waitpid` can give,
over the death of a task, the reuse of a tid and an execve by a thread that
does not lead its group.
-/

namespace Whyrun

/-- A call as the registers show it at its entry. -/
structure EnteredCall where
  number : Int64
  args : Vector UInt64 6
  deriving DecidableEq

def Registers.entered (registers : Registers) : EnteredCall :=
  ⟨registers.origRax.toInt64, CollectorState.syscallArgs registers⟩

structure Task where
  leader : Pid
  inside : Option EnteredCall := none
  /-- The task was killed at its last stop. -/
  killed : Bool := false
  deriving DecidableEq

abbrev Tasks := Pid → Option Task

namespace Report

def isSyscallStop (report : Report) : Bool :=
  report.isStopped && report.highByte = syscallTrap

/-- The report of the end of a task. -/
def isEnd (report : Report) : Bool := report.hasExited || report.isSignaled

/-- The task was killed before its registers were read. -/
def gone (report : Report) : Bool :=
  match report.registers with
  | .esrch => true
  | _ => false

end Report

/-- What happens to the traced tasks. A takeover is the successful execve of
the thread `tid`: the leader vanishes without a report, and the thread goes on
under the tid of the leader. -/
inductive TraceAction
  | born (tid leader : Pid)
  | enter (call : EnteredCall) (report : Report)
  | leave (report : Report)
  | other (report : Report)
  | ended (report : Report)
  | takeover (tid leader : Pid)

def TraceAction.report : TraceAction → Option Report
  | .enter _ report | .leave report | .other report | .ended report => some report
  | .born .. | .takeover .. => none

/-! ### The tasks -/

/-- A task stops at the entry or the exit of a call; if it is killed there it
does not get past the stop. -/
def Task.atStop (task : Task) (inside : Option EnteredCall) (report : Report) : Task :=
  if report.gone then { task with killed := true } else { task with inside }

def Tasks.step (tasks : Tasks) : TraceAction → Tasks
  | .born tid leader => Function.update tasks tid (some { leader })
  | .enter call report =>
      Function.update tasks report.tid
        ((tasks report.tid).map fun task => task.atStop (some call) report)
  | .leave report =>
      Function.update tasks report.tid
        ((tasks report.tid).map fun task => task.atStop none report)
  | .other _ => tasks
  | .ended report => Function.update tasks report.tid none
  | .takeover tid leader =>
      Function.update (Function.update tasks tid none) leader (tasks tid)

/-- The root starts between two calls. -/
def Tasks.initial (root : Pid) : Tasks :=
  Function.update (fun _ => none) root (some { leader := root })

def tasksAfter (root : Pid) (past : List TraceAction) : Tasks :=
  past.foldl Tasks.step (Tasks.initial root)

theorem tasksAfter_snoc (root : Pid) (past : List TraceAction) (action : TraceAction) :
    tasksAfter root (past ++ [action]) = (tasksAfter root past).step action := by
  simp [tasksAfter]

/-- The call that a task is inside. -/
def Tasks.inside (tasks : Tasks) (tid : Pid) : Option EnteredCall :=
  (tasks tid).bind Task.inside

/-! ### What the kernel can do -/

/-- `execve` and `execveat`. -/
def isExecCall (number : Int64) : Bool := number = 59 || number = 322

/-- A task that is not killed can come to a system call stop. -/
def Tasks.CanStop (tasks : Tasks) (tid : Pid) : Prop :=
  ∃ task, tasks tid = some task ∧ task.killed = false

/-- Entries and exits of a task alternate; a takeover is made by a thread
inside an execve, when all other threads of the group but the leader are
gone. -/
def TraceAdmits (root : Pid) (past : List TraceAction) : TraceAction → Prop
  | .born tid leader =>
      tasksAfter root past tid = none ∧ (leader = tid ∨ tasksAfter root past leader ≠ none)
  | .enter call report =>
      report.isSyscallStop ∧ (tasksAfter root past).CanStop report.tid ∧
        (tasksAfter root past).inside report.tid = none ∧
        ∀ registers, report.registers = .ok registers → registers.entered = call
  | .leave report =>
      report.isSyscallStop ∧ (tasksAfter root past).CanStop report.tid ∧
        (tasksAfter root past).inside report.tid ≠ none
  | .other report =>
      report.isStopped ∧ ¬ report.isSyscallStop ∧ tasksAfter root past report.tid ≠ none
  | .ended report => report.isEnd ∧ tasksAfter root past report.tid ≠ none
  | .takeover tid leader =>
      tid ≠ leader ∧ tasksAfter root past leader ≠ none ∧
        (∃ call, tasksAfter root past tid = some { leader, inside := some call } ∧
          isExecCall call.number) ∧
        ∀ other task, tasksAfter root past other = some task → task.leader = leader →
          other = tid ∨ other = leader

end Whyrun
