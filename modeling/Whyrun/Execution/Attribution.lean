import Whyrun.Execution.TaskTree

/-!
Attribution over whole runs. A process keeps the command that the root held
when it forked the process or the ancestor through which it descends from
the root; the root's own events carry the command that has started and not
ended.
-/

namespace Whyrun

open ByteText ExecutionState

variable {σ σ' : ExecutionState} {n : Notification} {es : List Event}

/-! ### What a notification does to the command of a process -/

/-- The task of the notification belongs to a process of the table. -/
def Known (σ : ExecutionState) (n : Notification) : Prop :=
  ∃ P, σ.processes (σ.processForThread n.task) = some P

theorem command_of_setProcess {key k : Pid} {P Q R : ProcessState}
    (found : σ.processes key = some Q) (hR : σ.processes k = some R)
    (hsame : k = key → P.commandId = Q.commandId) :
    ∃ R', (σ.setProcess key P).processes k = some R' ∧ R'.commandId = R.commandId := by
  by_cases hk : k = key
  · obtain rfl : Q = R := by
      rw [hk, found] at hR
      exact Option.some.inj hR
    exact ⟨P, by simp [hk], hsame hk⟩
  · exact ⟨R, by simp [hk, hR], rfl⟩

/-- No notification changes the command of a process, unless the process
counts as the root and a command is active or a marker arrives. -/
theorem Effect.command_of_other (he : Effect σ n σ' es) (hkeyed : σ.Keyed) (hknown : Known σ n)
    {k : Pid} {R : ProcessState} (hR : σ.processes k = some R) (hcreate : n.creates k = false)
    (hother : k = σ.rootPid → σ.activeCommand = none ∧ n.isMarker = false) :
    ∃ R', σ'.processes k = some R' ∧ R'.commandId = R.commandId := by
  obtain ⟨Q, hQ⟩ := hknown
  cases he with
  | markerIgnored | createdUnknown | exitedUnknown | syscallUnknown => exact ⟨R, hR, rfl⟩
  | start | createdThread | exitedThread => exact ⟨R, hR, rfl⟩
  | arm found root | stop found root =>
      refine command_of_setProcess found hR fun hk => ?_
      have hmarker := (hother (by rw [hk, ← hkeyed _ _ found, root])).2
      contradiction
  | exec found => exact command_of_setProcess found hR fun _ => rfl
  | execDiscovered unknown =>
      rw [Notification.task, unknown] at hQ
      contradiction
  | @createdProcess parentTid childTid ev flags t P found process =>
      have hchild : k ≠ childTid := by
        rintro rfl
        simp [Notification.creates] at hcreate
      exact ⟨R, by simp [hchild, hR], rfl⟩
  | exited leader found notRoot => exact command_of_setProcess found hR fun _ => rfl
  | @exitedRunning tid code signal t P id leader found root started held =>
      refine command_of_setProcess found hR fun hk => ?_
      have hidle := (hother (by rw [hk, ← hkeyed _ _ found, root])).1
      simp [isStarted, hidle] at started
  | @exitedIdle tid code signal t P leader found root idle =>
      refine command_of_setProcess found hR fun hk => ?_
      have hidle := (hother (by rw [hk, ← hkeyed _ _ found, root])).1
      simp [isArmed, hidle]
  | @syscall memory call P found =>
      exact command_of_setProcess found hR fun _ =>
        (syscallExit_spec memory P call).identity.commandId

/-- A root that holds exactly the active command does so after every
notification that does not give its pid away. -/
theorem Effect.command_of_root (he : Effect σ n σ' es) (hkeyed : σ.Keyed) (hknown : Known σ n)
    {R : ProcessState} (hR : σ.processes σ.rootPid = some R)
    (hcreate : n.creates σ.rootPid = false)
    (hheld : R.commandId = σ.activeCommand.map ActiveCommand.id) :
    ∃ R', σ'.processes σ.rootPid = some R' ∧
      R'.commandId = σ'.activeCommand.map ActiveCommand.id := by
  have hsame (hactive : σ'.activeCommand.map ActiveCommand.id =
      σ.activeCommand.map ActiveCommand.id)
      (h : ∃ R', σ'.processes σ.rootPid = some R' ∧ R'.commandId = R.commandId) :
      ∃ R', σ'.processes σ.rootPid = some R' ∧
        R'.commandId = σ'.activeCommand.map ActiveCommand.id := by
    obtain ⟨R', hR', hid⟩ := h
    exact ⟨R', hR', by rw [hid, hheld, hactive]⟩
  obtain ⟨Q, hQ⟩ := hknown
  cases he with
  | markerIgnored | createdUnknown | exitedUnknown | syscallUnknown => exact ⟨R, hR, hheld⟩
  | createdThread | exitedThread => exact ⟨R, hR, hheld⟩
  | @arm tid m t P found root =>
      exact ⟨{ P with commandId := some m.id }, by simp [← hkeyed _ _ found, root], rfl⟩
  | start _ _ _ active => exact ⟨R, hR, by simpa [active] using hheld⟩
  | @stop tid m t P a found root =>
      exact ⟨{ P with commandId := none }, by simp [← hkeyed _ _ found, root], rfl⟩
  | exec found => exact hsame rfl (command_of_setProcess found hR fun _ => rfl)
  | execDiscovered unknown =>
      rw [Notification.task, unknown] at hQ
      contradiction
  | @createdProcess parentTid childTid ev flags t P found process =>
      have hchild : σ.rootPid ≠ childTid := by
        intro hchild
        simp [Notification.creates, hchild] at hcreate
      exact hsame (by simp) ⟨R, by simp [hchild, hR], rfl⟩
  | exited leader found notRoot =>
      exact hsame rfl (command_of_setProcess found hR fun _ => rfl)
  | @exitedRunning tid code signal t P id leader found root started held =>
      exact ⟨{ P with commandId := none }, by simp [← hkeyed _ _ found, root], rfl⟩
  | @exitedIdle tid code signal t P leader found root idle =>
      have htid : tid = σ.rootPid := (hkeyed _ _ found).symm.trans root
      obtain rfl : P = R := by
        rw [htid, hR] at found
        exact (Option.some.inj found).symm
      refine ⟨_, by simp [htid]; rfl, ?_⟩
      cases hactive : σ.activeCommand with
      | none => simp [isArmed, hactive, hheld]
      | some a =>
          cases hstarted : a.started with
          | false => simp [isArmed, hactive, hstarted]
          | true =>
              have hnone := idle (by simp [isStarted, hactive, hstarted])
              simp [isArmed, hactive, hstarted, hnone]
  | @syscall memory call P found =>
      exact hsame rfl (command_of_setProcess found hR fun _ =>
        (syscallExit_spec memory P call).identity.commandId)

/-- Creations apart, only an exit changes the process of a task. -/
theorem Effect.thread_of_other (he : Effect σ n σ' es) (hknown : Known σ n) {tid : Pid}
    (hcreate : n.creates tid = false) (hexit : n.exits tid = false) :
    σ'.threadToProcess tid = σ.threadToProcess tid := by
  obtain ⟨Q, hQ⟩ := hknown
  cases he with
  | execDiscovered unknown =>
      rw [Notification.task, unknown] at hQ
      contradiction
  | createdThread =>
      have hne : tid ≠ _ := Ne.symm (by simpa [Notification.creates] using hcreate)
      simp [hne]
  | createdProcess =>
      have hne : tid ≠ _ := Ne.symm (by simpa [Notification.creates] using hcreate)
      simp [hne]
  | exitedThread | exited | exitedRunning | exitedIdle =>
      have hne : tid ≠ _ := Ne.symm (by simpa [Notification.exits] using hexit)
      simp [hne]
  | markerIgnored | createdUnknown | exitedUnknown | syscallUnknown => rfl
  | arm | start | stop | exec | syscall => rfl

/-- The thread map follows the tree. -/
theorem Effect.threads_next {root : Pid} {past : List Notification} (he : Effect σ n σ' es)
    (hkeyed : σ.Keyed)
    (hthreads : ∀ tid p, (taskTree root past).owner tid = some p → σ.threadToProcess tid = some p)
    {p : Pid} (htask : (taskTree root past).owner n.task = some p)
    (hkey : σ.processForThread n.task = p) {Q : ProcessState} (hQ : σ.processes p = some Q)
    (tid q : Pid) (howner : (taskTree root (past ++ [n])).owner tid = some q) :
    σ'.threadToProcess tid = some q := by
  have hknown : Known σ n := ⟨Q, by rw [hkey, hQ]⟩
  rw [taskTree_snoc] at howner
  cases n with
  | created parentTid childTid ev flags t =>
      simp only [Notification.task] at htask hkey
      simp only [TaskTree.next, htask] at howner
      by_cases hchild : tid = childTid
      · subst hchild
        cases he with
        | createdUnknown unknown =>
            rw [hkey, hQ] at unknown
            contradiction
        | @createdThread _ _ _ _ _ P found thread =>
            rw [hkey] at found
            simp only [thread, if_true, Function.update_self, Option.some.injEq] at howner
            simp [hkeyed _ _ found, howner]
        | createdProcess found process =>
            simp only [process, Bool.false_eq_true, if_false, Function.update_self,
              Option.some.injEq] at howner
            simp [howner]
      · rw [he.thread_of_other hknown (by simpa [Notification.creates, eq_comm]) rfl]
        apply hthreads
        split at howner <;> simpa [Function.update_of_ne hchild] using howner
  | exited =>
      obtain ⟨hne, howner⟩ := TaskTree.owner_of_exit howner
      rw [he.thread_of_other hknown rfl (by simpa [Notification.exits, eq_comm])]
      exact hthreads tid q howner
  | marker | exec | syscall =>
      rw [he.thread_of_other hknown rfl rfl]
      exact hthreads tid q howner

/-! ### Where an event takes its command from -/

/-- An event of a notification belongs to the task of the notification and
its process `P`; command events apart, it carries the command of `P`, or for
another event than a fork what `emit` fills in. -/
structure EventOf (σ : ExecutionState) (n : Notification) (P : ProcessState) (e : Event) :
    Prop where
  pid : e.pid = P.pid
  tid : e.tid = n.task
  mark : e.isCommandMark = true → P.pid = σ.rootPid ∧ (n.isMarker = true ∨ σ.isStarted = true)
  fork : e.type = .processFork → e.commandId = P.commandId
  other : e.isCommandMark = false → e.type ≠ .processFork → e.commandId = σ.attribution P

theorem Effect.eventOf (he : Effect σ n σ' es) {P : ProcessState}
    (hP : σ.processes (σ.processForThread n.task) = some P) {e : Event} (hmem : e ∈ es) :
    EventOf σ n P e := by
  cases he with
  | markerIgnored | createdUnknown | exitedUnknown | syscallUnknown => contradiction
  | arm | createdThread | exitedThread => contradiction
  | @start tid m t Q a found root =>
      obtain rfl : Q = P := Option.some.inj (found.symm.trans hP)
      obtain rfl := List.mem_singleton.mp hmem
      exact ⟨rfl, rfl, fun _ => ⟨root, .inl rfl⟩, nofun, nofun⟩
  | @stop tid m t Q a found root =>
      obtain rfl : Q = P := Option.some.inj (found.symm.trans hP)
      obtain rfl := List.mem_singleton.mp hmem
      exact ⟨rfl, rfl, fun _ => ⟨root, .inl rfl⟩, nofun, nofun⟩
  | @exec tid links t Q found =>
      obtain rfl : Q = P := Option.some.inj (found.symm.trans hP)
      obtain rfl := List.mem_singleton.mp hmem
      exact ⟨rfl, rfl, nofun, nofun, fun _ _ => rfl⟩
  | execDiscovered unknown =>
      rw [Notification.task, unknown] at hP
      contradiction
  | @createdProcess parentTid childTid ev flags t Q found process =>
      obtain rfl : Q = P := Option.some.inj (found.symm.trans hP)
      obtain rfl := List.mem_singleton.mp hmem
      exact ⟨rfl, rfl, nofun, fun _ => rfl, fun _ h => absurd rfl h⟩
  | @exited tid code signal t Q leader found notRoot =>
      rw [Notification.task, leader] at hP
      obtain rfl : Q = P := Option.some.inj (found.symm.trans hP)
      obtain rfl := List.mem_singleton.mp hmem
      exact ⟨rfl, rfl, nofun, nofun, fun _ _ => rfl⟩
  | @exitedRunning tid code signal t Q id leader found root started held =>
      rw [Notification.task, leader] at hP
      obtain rfl : Q = P := Option.some.inj (found.symm.trans hP)
      simp only [List.mem_cons, List.not_mem_nil, or_false] at hmem
      rcases hmem with rfl | rfl
      · exact ⟨rfl, rfl, nofun, nofun, fun _ _ => rfl⟩
      · exact ⟨rfl, rfl, fun _ => ⟨root, .inr started⟩, nofun, nofun⟩
  | @exitedIdle tid code signal t Q leader found root idle =>
      rw [Notification.task, leader] at hP
      obtain rfl : Q = P := Option.some.inj (found.symm.trans hP)
      obtain rfl := List.mem_singleton.mp hmem
      exact ⟨rfl, rfl, nofun, nofun, fun _ _ => rfl⟩
  | @syscall memory call Q found =>
      obtain rfl : Q = P := Option.some.inj (found.symm.trans hP)
      obtain ⟨raw, hraw, rfl⟩ := List.mem_map.mp hmem
      obtain ⟨type, resource, metadata, hio, rfl⟩ :=
        (syscallExit_spec memory Q call).event raw (Option.mem_toList.mp hraw)
      refine ⟨rfl, rfl, ?_, ?_, fun _ _ => rfl⟩
      · intro hmark
        cases type <;> contradiction
      · intro hfork
        obtain rfl : type = .processFork := hfork
        contradiction

/-- Only an exec emits an exec event, and only the creation of a process a fork
event. -/
theorem Effect.origin (he : Effect σ n σ' es) {e : Event} (hmem : e ∈ es) :
    (e.type = .processExec → ∃ tid links t, n = .exec tid links t) ∧
      (e.type = .processFork → ∃ P parentTid child ev flags t,
        n = .created parentTid child ev flags t ∧ isThreadCreation ev flags = false ∧
          e = forkEvent P parentTid child ev t) := by
  cases he with
  | markerIgnored | arm | createdUnknown | createdThread | exitedThread | exitedUnknown
    | syscallUnknown => contradiction
  | start | stop | exited | exitedIdle =>
      obtain rfl := List.mem_singleton.mp hmem
      constructor <;> intro htype <;> contradiction
  | exitedRunning =>
      simp only [List.mem_cons, List.not_mem_nil, or_false] at hmem
      rcases hmem with rfl | rfl <;> constructor <;> intro htype <;> contradiction
  | exec | execDiscovered =>
      obtain rfl := List.mem_singleton.mp hmem
      exact ⟨fun _ => ⟨_, _, _, rfl⟩, fun htype => by contradiction⟩
  | createdProcess found process =>
      obtain rfl := List.mem_singleton.mp hmem
      exact ⟨fun htype => by contradiction, fun _ => ⟨_, _, _, _, _, _, rfl, process, rfl⟩⟩
  | @syscall memory call P found =>
      obtain ⟨raw, hraw, rfl⟩ := List.mem_map.mp hmem
      obtain ⟨type, resource, metadata, hio, rfl⟩ :=
        (syscallExit_spec memory P call).event raw (Option.mem_toList.mp hraw)
      constructor
      · intro htype
        obtain rfl : type = .processExec := htype
        contradiction
      · intro htype
        obtain rfl : type = .processFork := htype
        contradiction

/-- The event of an exec of a known process. -/
theorem Effect.exec_emits {tid : Pid} {links : ProcLinks} {t : UInt64}
    (he : Effect σ (.exec tid links t) σ' es) {P : ProcessState}
    (hP : σ.processes (σ.processForThread tid) = some P) :
    es = [σ.attributed P (execEvent P tid links.executable t)] := by
  cases he with
  | exec found => rw [Option.some.inj (found.symm.trans hP)]
  | execDiscovered unknown =>
      rw [hP] at unknown
      contradiction

/-- The event of a fork by a known process. -/
theorem Effect.fork_emits {parentTid child : Pid} {ev : UInt32} {flags t : UInt64}
    (he : Effect σ (.created parentTid child ev flags t) σ' es) {P : ProcessState}
    (hP : σ.processes (σ.processForThread parentTid) = some P)
    (hprocess : isThreadCreation ev flags = false) :
    es = [forkEvent P parentTid child ev t] := by
  cases he with
  | createdProcess found => rw [Option.some.inj (found.symm.trans hP)]
  | createdUnknown unknown =>
      rw [hP] at unknown
      contradiction
  | createdThread _ thread =>
      rw [hprocess] at thread
      contradiction

/-! ### The tables follow the tree -/

section runs

variable (root : Pid) (cwd : Bytes) (rootCommand : Option Bytes) (startNs : UInt64)

/-- The root held this command after the notifications. -/
def HeldAfter (ns : List Notification) (id : Option UInt64) : Prop :=
  ∃ τ out, record root cwd rootCommand startNs ns = .ok (τ, out) ∧ τ.heldCommand = id

/-- The command of a process: for the root the active one, for any other
process what the root held at its launch. -/
def CommandFrom (σ : ExecutionState) (launch : Option (List Notification))
    (id : Option UInt64) : Prop :=
  match launch with
  | none => id = σ.activeCommand.map ActiveCommand.id
  | some l => HeldAfter root cwd rootCommand startNs l id

structure Tracks (past : List Notification) (σ : ExecutionState) : Prop where
  threads : ∀ tid p, (taskTree root past).owner tid = some p → σ.threadToProcess tid = some p
  processes : ∀ p, (taskTree root past).Live p → ∃ P, σ.processes p = some P ∧
    CommandFrom root cwd rootCommand startNs σ ((taskTree root past).launch p) P.commandId

variable {root cwd rootCommand startNs} {past ns : List Notification} {out : List Event}

theorem tracks_initial :
    Tracks root cwd rootCommand startNs [] (initialState root cwd rootCommand startNs) := by
  have howner : ∀ tid p, (taskTree root []).owner tid = some p → tid = root ∧ p = root :=
    fun tid p => TaskTree.owner_initial
  constructor
  · intro tid p h
    obtain ⟨rfl, rfl⟩ := howner tid p h
    simp [initialState_threadToProcess]
  · rintro p ⟨tid, h⟩
    obtain ⟨-, rfl⟩ := howner tid p h
    refine ⟨{ pid := p, cwd, commandId := rootCommand.map fun _ => 1 },
      by simp [initialState_processes], ?_⟩
    rw [show (taskTree p []).launch p = none from rfl, CommandFrom,
      initialState_activeCommand, Option.map_map]
    rfl

theorem Tracks.processForThread {tid p : Pid} (h : Tracks root cwd rootCommand startNs past σ)
    (howner : (taskTree root past).owner tid = some p) : σ.processForThread tid = p := by
  rw [ExecutionState.processForThread, h.threads tid p howner, Option.getD_some]

theorem Tracks.known (h : Tracks root cwd rootCommand startNs past σ)
    (admits : TreeAdmits root past n) : Known σ n := by
  obtain ⟨p, howner⟩ := admits.live
  obtain ⟨P, hP, -⟩ := h.processes p ⟨_, howner⟩
  exact ⟨P, by rw [h.processForThread howner, hP]⟩

/-- A launched process that has the root's pid lives after the root. -/
theorem idle_of_launched {first : List Event} (legal : Transducer.Legal (TreeAdmits root) past)
    (hinv : LifecycleInv root first past σ out) {l : List Notification}
    (hlaunch : (taskTree root past).launch root = some l) :
    rootAlive root past = false ∧ σ.activeCommand = none := by
  have hdead : rootAlive root past = false := by
    by_contra halive
    rw [(root_owner legal (by simpa using halive)).2] at hlaunch
    contradiction
  exact ⟨hdead, hinv.dead hdead⟩

/-- A process that lives on keeps its command. -/
theorem Tracks.frame {first : List Event} (legal : Transducer.Legal (TreeAdmits root) past)
    (hinv : LifecycleInv root first past σ out) (h : Tracks root cwd rootCommand startNs past σ)
    (admits : TreeAdmits root past n) (he : Effect σ n σ' es) {p : Pid}
    (hlive : (taskTree root past).Live p) :
    ∃ P, σ'.processes p = some P ∧
      CommandFrom root cwd rootCommand startNs σ' ((taskTree root past).launch p)
        P.commandId := by
  obtain ⟨P, hP, hcommand⟩ := h.processes p hlive
  have hknown := h.known admits
  have hfresh := admits.fresh p hlive
  cases hlaunch : (taskTree root past).launch p with
  | none =>
      have hp : p = σ.rootPid := (eq_root_of_launch legal hlive hlaunch).trans hinv.rootPid.symm
      subst hp
      rw [hlaunch] at hcommand
      exact he.command_of_root hinv.keyed hknown hP hfresh hcommand
  | some l =>
      rw [hlaunch] at hcommand
      have hother : p = σ.rootPid → σ.activeCommand = none ∧ n.isMarker = false := by
        intro hp
        rw [hp, hinv.rootPid] at hlaunch
        obtain ⟨hdead, hidle⟩ := idle_of_launched legal hinv hlaunch
        refine ⟨hidle, ?_⟩
        by_contra hmarker
        rw [admits.marker (by simpa using hmarker)] at hdead
        contradiction
      obtain ⟨P', hP', hid⟩ := he.command_of_other hinv.keyed hknown hP hfresh hother
      exact ⟨P', hP', by rw [hid]; exact hcommand⟩

theorem heldAfter_of_run
    (hrun : Transducer.run notify (initialState root cwd rootCommand startNs) past =
      .ok (σ, out)) : HeldAfter root cwd rootCommand startNs past σ.heldCommand :=
  ⟨σ, _, (record_ok_iff ..).mpr ⟨out, hrun, rfl⟩, rfl⟩

/-- The command that a process passes on to its children. -/
theorem Tracks.heldAfter {first : List Event}
    (legal : Transducer.Legal (TreeAdmits root) past)
    (hinv : LifecycleInv root first past σ out)
    (h : Tracks root cwd rootCommand startNs past σ)
    (hrun : Transducer.run notify (initialState root cwd rootCommand startNs) past =
      .ok (σ, out)) {p : Pid} {P : ProcessState} (hlive : (taskTree root past).Live p)
    (hP : σ.processes p = some P) :
    HeldAfter root cwd rootCommand startNs (((taskTree root past).launch p).getD past)
      P.commandId := by
  obtain ⟨Q, hQ, hcommand⟩ := h.processes p hlive
  obtain rfl : Q = P := Option.some.inj (hQ.symm.trans hP)
  cases hlaunch : (taskTree root past).launch p with
  | none =>
      have hp : p = σ.rootPid := (eq_root_of_launch legal hlive hlaunch).trans hinv.rootPid.symm
      have hheld : σ.heldCommand = Q.commandId := by
        rw [heldCommand, ← hp, hQ, Option.bind_some]
      rw [Option.getD_none, ← hheld]
      exact heldAfter_of_run hrun
  | some l =>
      rw [hlaunch] at hcommand
      exact hcommand

theorem Tracks.next {first : List Event} (legal : Transducer.Legal (TreeAdmits root) past)
    (hinv : LifecycleInv root first past σ out) (h : Tracks root cwd rootCommand startNs past σ)
    (hrun : Transducer.run notify (initialState root cwd rootCommand startNs) past =
      .ok (σ, out)) (admits : TreeAdmits root past n) (he : Effect σ n σ' es) :
    Tracks root cwd rootCommand startNs (past ++ [n]) σ' := by
  obtain ⟨owner, htask⟩ := admits.live
  obtain ⟨Q, hQ, -⟩ := h.processes owner ⟨_, htask⟩
  constructor
  · exact he.threads_next hinv.keyed h.threads htask (h.processForThread htask) hQ
  · intro p hlive
    rw [taskTree_snoc] at hlive ⊢
    rcases live_next hlive with hpast |
      ⟨parentTid, parent, ev, flags, t, rfl, hparent, process, hlaunch⟩
    · rw [TaskTree.launch_next _ (admits.fresh p hpast)]
      exact h.frame legal hinv admits he hpast
    · rw [hlaunch]
      obtain ⟨Q, hQ, -⟩ := h.processes parent ⟨_, hparent⟩
      cases he with
      | createdUnknown unknown =>
          rw [h.processForThread hparent, hQ] at unknown
          contradiction
      | createdThread _ thread =>
          rw [process] at thread
          contradiction
      | @createdProcess _ _ _ _ _ P found =>
          rw [h.processForThread hparent] at found
          have hheld := h.heldAfter legal hinv hrun ⟨_, hparent⟩ found
          exact ⟨{ P with pid := p, parentPid := P.pid }, by simp, hheld⟩

theorem tracks_run (legal : Transducer.Legal (TreeAdmits root) ns)
    (hrun : Transducer.run notify (initialState root cwd rootCommand startNs) ns = .ok (σ, out)) :
    Tracks root cwd rootCommand startNs ns σ := by
  refine Transducer.run_induction
    (motive := fun past σ _ => Tracks root cwd rootCommand startNs past σ)
    tracks_initial ?_ legal.history hrun
  rintro past σ out n σ' o hrun h ⟨hlegal, hadmits⟩ hstep
  exact h.next hlegal (lifecycle_run (legal_lifecycle hlegal) hrun) hrun hadmits
    (notify_effect hstep)

/-! ### Attribution -/

/-- The command whose start is the last command event of the stream. -/
def openCommandOf (es : List Event) : Option UInt64 :=
  (marks es).getLast?.bind fun m => if m.1 = .commandStart then m.2 else none

theorem openCommandOf_eq {es : List Event} {o : Option UInt64} (h : Alternates (marks es) o) :
    openCommandOf es = o := by
  obtain ⟨ids, hids⟩ := h
  rw [openCommandOf, hids]
  cases o with
  | some id => simp
  | none =>
      rcases List.eq_nil_or_concat ids with rfl | ⟨ids, id, rfl⟩
      · simp
      · simp [commandPair]

/-- What `emit` fills in for an event of the root is the open command. -/
theorem attribution_root {P : ProcessState} (hpid : P.pid = σ.rootPid)
    (hheld : P.commandId = σ.activeCommand.map ActiveCommand.id) :
    σ.attribution P = σ.openCommand := by
  rw [attribution, openCommand, hheld]
  cases hactive : σ.activeCommand with
  | none => simp
  | some a => cases hstarted : a.started <;> simp [isArmed, hpid, hactive, hstarted]

/-- An event of a process other than the root carries the command that the
process was launched with. -/
theorem Tracks.heldAfter_of_event {first : List Event}
    (legal : Transducer.Legal (TreeAdmits root) past)
    (hinv : LifecycleInv root first past σ out) (h : Tracks root cwd rootCommand startNs past σ)
    (admits : TreeAdmits root past n) {p : Pid}
    (howner : (taskTree root past).owner n.task = some p) {P : ProcessState}
    (hP : σ.processes p = some P) {l : List Notification}
    (hlaunch : (taskTree root past).launch p = some l) {e : Event} (hevent : EventOf σ n P e) :
    HeldAfter root cwd rootCommand startNs l e.commandId := by
  obtain ⟨Q, hQ, hcommand⟩ := h.processes p ⟨_, howner⟩
  obtain rfl : Q = P := Option.some.inj (hQ.symm.trans hP)
  have hpid : Q.pid = p := hinv.keyed p Q hP
  rw [hlaunch] at hcommand
  have hidle : Q.pid = σ.rootPid → rootAlive root past = false ∧ σ.activeCommand = none := by
    intro hroot
    rw [← hpid, hroot, hinv.rootPid] at hlaunch
    exact idle_of_launched legal hinv hlaunch
  suffices hid : e.commandId = Q.commandId by
    rw [hid]
    exact hcommand
  cases hmark : e.isCommandMark with
  | true =>
      obtain ⟨hroot, hmarker | hstarted⟩ := hevent.mark hmark
      · rw [admits.marker hmarker] at hidle
        simpa using (hidle hroot).1
      · simp [isStarted, (hidle hroot).2] at hstarted
  | false =>
      by_cases hfork : e.type = .processFork
      · exact hevent.fork hfork
      · rw [hevent.other hmark hfork, attribution, if_neg]
        rintro ⟨hroot, harmed⟩
        simp [isArmed, (hidle hroot).2] at harmed

/-- Attribution is decided at launch. Every event of a legal recording is one
of its task and process; the events of a process other than the root carry
the command that the root held at the launch, and the events of the root,
forks and command events apart, the command that is open in the stream. -/
theorem attribution_decided_at_launch (legal : Transducer.Legal (TreeAdmits root) ns)
    (hrun : record root cwd rootCommand startNs ns = .ok (σ, es)) {rest : List Notification}
    (hsplit : ns = past ++ n :: rest) :
    ∃ τ before τ' o p more, record root cwd rootCommand startNs past = .ok (τ, before) ∧
      τ.notify n = .ok (τ', o) ∧ es = before ++ (o ++ more) ∧
      (taskTree root past).owner n.task = some p ∧
      ∀ e ∈ o, e.pid = p ∧ e.tid = n.task ∧
        match (taskTree root past).launch p with
        | some l => HeldAfter root cwd rootCommand startNs l e.commandId
        | none => p = root ∧ (e.type ≠ .processFork → e.isCommandMark = false →
            e.commandId = openCommandOf before) := by
  subst hsplit
  obtain ⟨τ, before, after, hpast, hrest, rfl⟩ := (record_append_ok_iff ..).mp hrun
  obtain ⟨τ', o, more, hstep, -, rfl⟩ := Transducer.run_cons_ok_iff.mp hrest
  have hlegal := legal.of_append
  have hadmits := legal past n rest rfl
  obtain ⟨out, hout, rfl⟩ := (record_ok_iff ..).mp hpast
  have hinv := lifecycle_run (legal_lifecycle hlegal) hout
  have htracks := tracks_run hlegal hout
  obtain ⟨p, howner⟩ := hadmits.live
  obtain ⟨P, hP, hcommand⟩ := htracks.processes p ⟨_, howner⟩
  have hpid : P.pid = p := hinv.keyed p P hP
  refine ⟨τ, _, τ', o, p, more, hpast, hstep, rfl, howner, fun e hmem => ?_⟩
  have hevent := (notify_effect hstep).eventOf
    (by rw [htracks.processForThread howner, hP]) hmem
  refine ⟨hevent.pid.trans hpid, hevent.tid, ?_⟩
  cases hlaunch : (taskTree root past).launch p with
  | none =>
      obtain rfl := eq_root_of_launch hlegal ⟨_, howner⟩ hlaunch
      rw [hlaunch] at hcommand
      refine ⟨rfl, fun hfork hmark => ?_⟩
      rw [hevent.other hmark hfork, attribution_root (hpid.trans hinv.rootPid.symm) hcommand,
        openCommandOf_eq hinv.alternates]
  | some l => exact htracks.heldAfter_of_event hlegal hinv hadmits howner hP hlaunch hevent

end runs

/-- A command forks a child, which exits after the command has ended. -/
def sampleBackground : List Notification :=
  [.marker 7 { type := .arm, id := 1 } 1, .created 7 8 ptraceEventFork 0 2,
    .marker 7 { type := .start, id := 1 } 3, .marker 7 { type := .stop, id := 1 } 4]

/-- The root forks a child for an armed command. -/
theorem sampleFork_legal :
    Transducer.Legal (TreeAdmits 7)
      [.marker 7 { type := .arm, id := 1 } 1, .created 7 8 ptraceEventFork 0 2] := by
  have harm : Transducer.Legal (TreeAdmits 7) [.marker 7 { type := .arm, id := 1 } 1] :=
    (Transducer.legal_nil _).snoc ⟨⟨7, by decide⟩, fun _ _ => rfl, fun _ => rfl⟩
  exact harm.snoc (.of_sole (by decide) (fun _ _ h => (TaskTree.owner_initial h).2) (by decide))

theorem sampleBackground_legal :
    Transducer.Legal (TreeAdmits 7) (sampleBackground ++ [.exited 8 0 0 5]) := by
  have hstart := sampleFork_legal.snoc (i := .marker 7 { type := .start, id := 1 } 3)
    ⟨⟨7, by decide⟩, fun _ _ => rfl, fun _ => rfl⟩
  have hstop := hstart.snoc (i := .marker 7 { type := .stop, id := 1 } 4)
    ⟨⟨7, by decide⟩, fun _ _ => rfl, fun _ => rfl⟩
  exact hstop.snoc ⟨⟨8, by decide⟩, fun _ _ => rfl, nofun⟩

theorem attribution_sample :
    ∃ σ es before o more,
      record 7 (lit "/") none 0 (sampleBackground ++ [.exited 8 0 0 5]) = .ok (σ, es) ∧
      es = before ++ (o ++ more) ∧ ∀ e ∈ o, e.pid = 8 ∧
        HeldAfter 7 (lit "/") none 0 [.marker 7 { type := .arm, id := 1 } 1] e.commandId := by
  obtain ⟨σ, es, hrun⟩ : ∃ σ es,
      record 7 (lit "/") none 0 (sampleBackground ++ [.exited 8 0 0 5]) = .ok (σ, es) :=
    ⟨_, _, rfl⟩
  obtain ⟨τ, before, τ', o, p, more, -, -, hes, howner, hevents⟩ :=
    attribution_decided_at_launch sampleBackground_legal hrun rfl
  obtain rfl : 8 = p := Option.some.inj howner
  refine ⟨σ, es, before, o, more, hrun, hes, fun e he => ?_⟩
  obtain ⟨hpid, -, hheld⟩ := hevents e he
  exact ⟨hpid, hheld⟩

end Whyrun
