import Whyrun.Execution.RenamedTids
import Whyrun.Execution.TaskTree

/-!
Reused pids. A run in which the kernel gives tids away again is compared with
the same run in which every task has a tid of its own: the second run is the
first one under a renaming of tids. Records of tasks that have ended carry no
obligation, so the two states need to agree on the live tasks only.
-/

namespace Whyrun

open ByteText ExecutionState

/-! ### Runs that differ in their tids -/

/-- The same notification under the new tids. -/
inductive SameNotification (f : Pid → Pid) : Notification → Notification → Prop
  | marker (tid : Pid) (m : CommandMarker) (t : UInt64) :
      SameNotification f (.marker tid m t) (.marker (f tid) m t)
  | exec (tid : Pid) (links : ProcLinks) (t : UInt64) :
      SameNotification f (.exec tid links t) (.exec (f tid) links t)
  | created (parentTid childTid : Pid) (ev : UInt32) (flags t : UInt64) :
      SameNotification f (.created parentTid childTid ev flags t)
        (.created (f parentTid) (f childTid) ev flags t)
  | exited (tid : Pid) (code signal : Int32) (t : UInt64) :
      SameNotification f (.exited tid code signal t) (.exited (f tid) code signal t)
  | syscall {memory memory' : TraceeMemory} {call call' : RawSyscall}
      (same : SameCall f memory memory' call call') :
      SameNotification f (.syscall memory call) (.syscall memory' call')

/-- The tid is that of no live task and of no process with a live task. -/
def TaskTree.Free (tree : TaskTree) (tid : Pid) : Prop :=
  tree.owner tid = none ∧ ¬ tree.Live tid

/-- Notifications come from live tasks, whose creation was therefore reported
before, and a new task gets a tid that is free and is not the root's. -/
structure ReuseAdmits (root : Pid) (past : List Notification) (n : Notification) : Prop where
  live : ∃ p, (taskTree root past).owner n.task = some p
  free : ∀ tid, n.creates tid = true → tid ≠ root ∧ (taskTree root past).Free tid

/-- The same, and no tid is used twice. -/
structure FreshAdmits (root : Pid) (past : List Notification) (n : Notification) : Prop where
  live : ∃ p, (taskTree root past).owner n.task = some p
  unused : ∀ tid, n.creates tid = true → tid ≠ root ∧ ∀ m ∈ past, m.creates tid = false

theorem TaskTree.owner_created {tree : TaskTree} {parentTid parent : Pid}
    (hparent : tree.owner parentTid = some parent) (past : List Notification) (childTid : Pid)
    (ev : UInt32) (flags t : UInt64) :
    (tree.next past (.created parentTid childTid ev flags t)).owner =
      Function.update tree.owner childTid
        (some (if isThreadCreation ev flags then parent else childTid)) := by
  simp only [TaskTree.next, hparent]
  split <;> rfl

/-- A live task and its process were created before, or are the root. -/
theorem used_of_owner {root tid p : Pid} {past : List Notification}
    (h : (taskTree root past).owner tid = some p) :
    (tid = root ∨ ∃ m ∈ past, m.creates tid = true) ∧
      (p = root ∨ ∃ m ∈ past, m.creates p = true) := by
  induction past using List.reverseRecOn generalizing tid p with
  | nil =>
      obtain ⟨htid, hp⟩ := TaskTree.owner_initial h
      exact ⟨.inl htid, .inl hp⟩
  | append_singleton past n ih =>
      have hpast {u q : Pid} (hu : (taskTree root past).owner u = some q) :
          (u = root ∨ ∃ m ∈ past ++ [n], m.creates u = true) ∧
            (q = root ∨ ∃ m ∈ past ++ [n], m.creates q = true) := by
        obtain ⟨htid, hp⟩ := ih hu
        exact ⟨htid.imp_right fun ⟨m, hm, hc⟩ => ⟨m, by simp [hm], hc⟩,
          hp.imp_right fun ⟨m, hm, hc⟩ => ⟨m, by simp [hm], hc⟩⟩
      rw [taskTree_snoc] at h
      cases n with
      | created parentTid childTid ev flags t =>
          have hchild : ∃ m ∈ past ++ [.created parentTid childTid ev flags t],
              m.creates childTid = true :=
            ⟨_, List.mem_append_right _ (List.mem_singleton_self _), by simp [Notification.creates]⟩
          cases hparent : (taskTree root past).owner parentTid with
          | none =>
              simp only [TaskTree.next, hparent] at h
              exact hpast h
          | some parent =>
              rw [TaskTree.owner_created hparent] at h
              by_cases htid : tid = childTid
              · subst htid
                rw [Function.update_self, Option.some.injEq] at h
                subst h
                refine ⟨.inr hchild, ?_⟩
                split
                · exact (hpast hparent).2
                · exact .inr hchild
              · rw [Function.update_of_ne htid] at h
                exact hpast h
      | exited => exact hpast (TaskTree.owner_of_exit h).2
      | marker | exec | syscall => exact hpast h

theorem FreshAdmits.free {root : Pid} {past : List Notification} {n : Notification}
    (h : FreshAdmits root past n) {tid : Pid} (hcreates : n.creates tid = true) :
    (taskTree root past).Free tid := by
  obtain ⟨hroot, hunused⟩ := h.unused tid hcreates
  constructor
  · refine Option.eq_none_iff_forall_ne_some.mpr fun p howner => ?_
    rcases (used_of_owner howner).1 with heq | ⟨m, hm, hc⟩
    · exact hroot heq
    · rw [hunused m hm] at hc
      contradiction
  · rintro ⟨u, howner⟩
    rcases (used_of_owner howner).2 with heq | ⟨m, hm, hc⟩
    · exact hroot heq
    · rw [hunused m hm] at hc
      contradiction

theorem FreshAdmits.reuse {root : Pid} {past : List Notification} {n : Notification}
    (h : FreshAdmits root past n) : ReuseAdmits root past n :=
  ⟨h.live, fun tid hcreates => ⟨(h.unused tid hcreates).1, h.free hcreates⟩⟩

/-! ### The simulation -/

/-- The live tasks of the two trees correspond under the renaming. -/
structure SameTasks (f : Pid → Pid) (root : Pid) (T T' : TaskTree) : Prop where
  owner : ∀ tid p, T.owner tid = some p → T'.owner (f tid) = some (f p)
  /-- Live tasks have different tids. -/
  tids : ∀ tid p u q, T.owner tid = some p → T.owner u = some q → f tid = f u → tid = u
  /-- So have the processes of live tasks. -/
  pids : ∀ p q, T.Live p → T.Live q → f p = f q → p = q
  /-- A task that bears the pid of its process is its leader. -/
  leader : ∀ tid p, T.owner tid = some p → f tid = f p → tid = p
  onlyRoot : ∀ p, T.Live p → f p = root → p = root

/-- Two states and the live tasks behind them agree under the renaming.
Nothing is said about the records of tasks that have ended. -/
structure Relocated (f : Pid → Pid) (root : Pid) (T T' : TaskTree) (σ σ' : ExecutionState) :
    Prop extends SameTasks f root T T' where
  rootPid : σ.rootPid = root
  rootPid' : σ'.rootPid = root
  active : σ'.activeCommand = σ.activeCommand
  thread : ∀ tid p, T.owner tid = some p →
    σ.threadToProcess tid = some p ∧ σ'.threadToProcess (f tid) = some (f p)
  process : ∀ p, T.Live p →
    ∃ P, σ.processes p = some P ∧ P.pid = p ∧ σ'.processes (f p) = some (P.renameTids f)

/-- Both sides refuse with the same text, or emit the same events under the
new tids and end in related states. -/
def StepsAlike (f : Pid → Pid) (related : ExecutionState → ExecutionState → Prop) :
    (r r' : Except Failure (ExecutionState × List Event)) → Prop
  | .error e, r' => r' = .error e
  | .ok (τ, es), r' => ∃ τ', r' = .ok (τ', es.map (Event.renameTids f)) ∧ related τ τ'

section simulation

variable {f : Pid → Pid} {root : Pid} {T T' : TaskTree} {σ σ' : ExecutionState}
  {past past' : List Notification} {tid p : Pid} {P Q : ProcessState}

namespace SameTasks

theorem exited (h : SameTasks f root T T') (code signal : Int32) (t : UInt64)
    (hlive : T.owner tid = some p) :
    SameTasks f root (T.next past (.exited tid code signal t))
      (T'.next past' (.exited (f tid) code signal t)) := by
  have hstays : ∀ {u q}, (T.next past (.exited tid code signal t)).owner u = some q →
      u ≠ tid ∧ T.owner u = some q := fun hu => TaskTree.owner_of_exit hu
  have hlives : ∀ {q}, (T.next past (.exited tid code signal t)).Live q → T.Live q :=
    fun ⟨u, hu⟩ => ⟨u, (hstays hu).2⟩
  refine ⟨fun u q hu => ?_, fun u q v r hu hv => h.tids u q v r (hstays hu).2 (hstays hv).2,
    fun q r hq hr => h.pids q r (hlives hq) (hlives hr),
    fun u q hu => h.leader u q (hstays hu).2, fun q hq => h.onlyRoot q (hlives hq)⟩
  obtain ⟨hne, hu⟩ := hstays hu
  have hne' : f u ≠ f tid := fun hsame => hne (h.tids u q tid p hu hlive hsame)
  simpa [TaskTree.next, hne'] using h.owner u q hu

/-- No live task and no process with one has the tid that the child gets. -/
theorem ne_of_free (h : SameTasks f root T T') {child : Pid} (hfree : T'.Free (f child))
    (hlive : T.owner tid = some p) : f tid ≠ f child ∧ f p ≠ f child := by
  have howner := h.owner tid p hlive
  refine ⟨fun hsame => ?_, fun hsame => hfree.2 ⟨f tid, hsame ▸ howner⟩⟩
  rw [hsame, hfree.1] at howner
  contradiction

theorem created (h : SameTasks f root T T') {parentTid child : Pid} (ev : UInt32)
    (flags t : UInt64) (hlive : T.owner parentTid = some p) (hfree : T'.Free (f child))
    (hroot : f child ≠ root) :
    SameTasks f root (T.next past (.created parentTid child ev flags t))
      (T'.next past' (.created (f parentTid) (f child) ev flags t)) := by
  have hother : ∀ {u q}, T.owner u = some q → f u ≠ f child ∧ f q ≠ f child :=
    fun hu => h.ne_of_free hfree hu
  -- a live task is an old one or the child
  have hcases : ∀ {u q}, (T.next past (.created parentTid child ev flags t)).owner u = some q →
      (u ≠ child ∧ T.owner u = some q) ∨
        (u = child ∧ q = if isThreadCreation ev flags then p else child) := by
    intro u q hu
    rw [TaskTree.owner_created hlive] at hu
    by_cases hchild : u = child
    · rw [hchild, Function.update_self, Option.some.injEq] at hu
      exact .inr ⟨hchild, hu.symm⟩
    · rw [Function.update_of_ne hchild] at hu
      exact .inl ⟨hchild, hu⟩
  have hlives : ∀ {q}, (T.next past (.created parentTid child ev flags t)).Live q →
      T.Live q ∨ q = child := by
    rintro q ⟨u, hu⟩
    rcases hcases hu with ⟨-, hu⟩ | ⟨-, rfl⟩
    · exact .inl ⟨u, hu⟩
    · split
      · exact .inl ⟨parentTid, hlive⟩
      · exact .inr rfl
  refine ⟨fun u q hu => ?_, fun u q v r hu hv hsame => ?_, fun q r hq hr hsame => ?_,
    fun u q hu hsame => ?_, fun q hq hsame => ?_⟩
  · rw [TaskTree.owner_created (h.owner _ _ hlive)]
    rcases hcases hu with ⟨-, hu⟩ | ⟨rfl, rfl⟩
    · rw [Function.update_of_ne (hother hu).1, h.owner u q hu]
    · rw [Function.update_self]
      split <;> rfl
  · rcases hcases hu with ⟨-, hold⟩ | ⟨hnew, -⟩ <;> rcases hcases hv with ⟨-, hold'⟩ | ⟨hnew', -⟩
    · exact h.tids u q v r hold hold' hsame
    · exact absurd (hnew' ▸ hsame) (hother hold).1
    · exact absurd (hnew ▸ hsame).symm (hother hold').1
    · rw [hnew, hnew']
  · rcases hlives hq with hold | hnew <;> rcases hlives hr with hold' | hnew'
    · exact h.pids q r hold hold' hsame
    · obtain ⟨u, hu⟩ := hold
      exact absurd (hnew' ▸ hsame) (hother hu).2
    · obtain ⟨u, hu⟩ := hold'
      exact absurd (hnew ▸ hsame).symm (hother hu).2
    · rw [hnew, hnew']
  · rcases hcases hu with ⟨-, hu⟩ | ⟨rfl, rfl⟩
    · exact h.leader u q hu hsame
    · split at hsame
      · exact absurd hsame.symm (hother hlive).2
      · rename_i hprocess
        rw [if_neg hprocess]
  · rcases hlives hq with hq | rfl
    · exact h.onlyRoot q hq hsame
    · exact absurd hsame hroot

end SameTasks

namespace Relocated

/-- The record of a live task on the two sides. -/
theorem found (h : Relocated f root T T' σ σ') (hlive : T.owner tid = some p) :
    ∃ P, σ.processForThread tid = p ∧ σ.processes p = some P ∧ P.pid = p ∧
      σ'.processForThread (f tid) = f p ∧ σ'.processes (f p) = some (P.renameTids f) := by
  obtain ⟨hthread, hthread'⟩ := h.thread tid p hlive
  obtain ⟨P, hP, hpid, hP'⟩ := h.process p ⟨tid, hlive⟩
  exact ⟨P, by simp [processForThread, hthread], hP, hpid, by simp [processForThread, hthread'],
    hP'⟩

theorem root_iff (h : Relocated f root T T' σ σ') (hroot : f root = root) (hlive : T.Live p) :
    f p = σ'.rootPid ↔ p = σ.rootPid := by
  rw [h.rootPid, h.rootPid']
  exact ⟨h.onlyRoot p hlive, fun heq => heq ▸ hroot⟩

/-- The record of a live task is the root's on both sides or on neither. -/
theorem record_root_iff (h : Relocated f root T T' σ σ') (hroot : f root = root)
    (hlive : T.Live p) (hpid : P.pid = p) :
    (P.renameTids f).pid = σ'.rootPid ↔ P.pid = σ.rootPid := by
  rw [show (P.renameTids f).pid = f P.pid from rfl, hpid]
  exact h.root_iff hroot hlive

theorem isArmed (h : Relocated f root T T' σ σ') : σ'.isArmed = σ.isArmed := by
  unfold ExecutionState.isArmed
  rw [h.active]

theorem isStarted (h : Relocated f root T T' σ σ') : σ'.isStarted = σ.isStarted := by
  unfold ExecutionState.isStarted
  rw [h.active]

theorem setProcess (h : Relocated f root T T' σ σ') (hlive : T.Live p) (hQ : Q.pid = p) :
    Relocated f root T T' (σ.setProcess p Q) (σ'.setProcess (f p) (Q.renameTids f)) :=
  { h with
    process := by
      intro q hq
      by_cases heq : q = p
      · subst heq
        exact ⟨Q, by simp, hQ, by simp⟩
      · obtain ⟨P, hP, hpid, hP'⟩ := h.process q hq
        have hne : f q ≠ f p := fun hsame => heq (h.pids q p hq hlive hsame)
        exact ⟨P, by simp [heq, hP], hpid, by simp [hne, hP']⟩ }

theorem setActive (h : Relocated f root T T' σ σ') (active : Option ActiveCommand) :
    Relocated f root T T' { σ with activeCommand := active }
      { σ' with activeCommand := active } :=
  { h with active := rfl }

/-- Events of live tasks are filled in alike. -/
theorem emit (h : Relocated f root T T' σ σ') (hroot : f root = root) {e : Event}
    (hlive : T.owner e.tid = some p) :
    σ'.emit (e.renameTids f) = (σ.emit e).renameTids f := by
  obtain ⟨P, hk, hP, hpid, hk', hP'⟩ := h.found hlive
  rcases Option.eq_none_or_eq_some e.commandId with hid | ⟨id, hid⟩
  · have hfound : σ.findProcessForThread e.tid = some P := by
      rw [findProcessForThread_def, hk, hP]
    have hfound' : σ'.findProcessForThread (e.renameTids f).tid = some (P.renameTids f) := by
      rw [findProcessForThread_def, show (e.renameTids f).tid = f e.tid from rfl, hk', hP']
    have hsame : σ'.attribution (P.renameTids f) = σ.attribution P := by
      have hiff := h.record_root_iff hroot ⟨_, hlive⟩ hpid
      simp only [attribution, hiff, h.isArmed]
      rfl
    rw [emit_of_find σ hid hfound,
      emit_of_find σ' (show (e.renameTids f).commandId = none from hid) hfound', hsame]
    rfl
  · rw [emit_of_commandId σ hid, emit_of_commandId σ' (e := e.renameTids f) hid]

/-- The end of a task takes it out of both thread maps. -/
theorem exited (h : Relocated f root T T' σ σ') (code signal : Int32) (t : UInt64)
    (hlive : T.owner tid = some p) :
    Relocated f root (T.next past (.exited tid code signal t))
      (T'.next past' (.exited (f tid) code signal t)) (σ.setThread tid none)
      (σ'.setThread (f tid) none) :=
  { h.toSameTasks.exited code signal t hlive with
    rootPid := h.rootPid
    rootPid' := h.rootPid'
    active := h.active
    thread := by
      intro u q hu
      obtain ⟨hne, hu⟩ := TaskTree.owner_of_exit hu
      have hne' : f u ≠ f tid := fun hsame => hne (h.tids u q tid p hu hlive hsame)
      simpa [hne, hne'] using h.thread u q hu
    process := fun q ⟨u, hu⟩ => h.process q ⟨u, (TaskTree.owner_of_exit hu).2⟩ }

theorem noteFirstProcess (h : Relocated f root T T' σ σ') (hroot : f root = root)
    (hlive : T.Live p) (t : UInt64) :
    Relocated f root T T' (σ.noteFirstProcess p t) (σ'.noteFirstProcess (f p) t) := by
  have hiff := h.root_iff hroot hlive
  unfold ExecutionState.noteFirstProcess
  rw [h.active]
  cases hactive : σ.activeCommand with
  | none => exact h
  | some a =>
      simp only [hiff]
      split
      · exact h.setActive _
      · exact h

/-- A new thread belongs to the process of its creator. -/
theorem createdThread (h : Relocated f root T T' σ σ') {parentTid child : Pid} {ev : UInt32}
    (flags t : UInt64) (hlive : T.owner parentTid = some p) (hfree : T'.Free (f child))
    (hroot : f child ≠ root) (thread : isThreadCreation ev flags = true) :
    Relocated f root (T.next past (.created parentTid child ev flags t))
      (T'.next past' (.created (f parentTid) (f child) ev flags t))
      (σ.setThread child (some p)) (σ'.setThread (f child) (some (f p))) :=
  { h.toSameTasks.created ev flags t hlive hfree hroot with
    rootPid := h.rootPid
    rootPid' := h.rootPid'
    active := h.active
    thread := by
      intro u q hu
      rw [TaskTree.owner_created hlive, if_pos thread] at hu
      by_cases hchild : u = child
      · rw [hchild, Function.update_self, Option.some.injEq] at hu
        simp [hchild, hu]
      · rw [Function.update_of_ne hchild] at hu
        simpa [hchild, (h.ne_of_free hfree hu).1] using h.thread u q hu
    process := by
      rintro q ⟨u, hu⟩
      rw [TaskTree.owner_created hlive, if_pos thread] at hu
      by_cases hchild : u = child
      · rw [hchild, Function.update_self, Option.some.injEq] at hu
        exact h.process q ⟨parentTid, hu ▸ hlive⟩
      · rw [Function.update_of_ne hchild] at hu
        exact h.process q ⟨u, hu⟩ }

/-- A new process gets a record of its own, over whatever was there. -/
theorem createdProcess (h : Relocated f root T T' σ σ') (past past' : List Notification)
    {parentTid child : Pid} {ev : UInt32} (flags t : UInt64) (hlive : T.owner parentTid = some p)
    (hfree : T.Free child) (hfree' : T'.Free (f child)) (hroot : f child ≠ root)
    (process : isThreadCreation ev flags = false) (hQ : Q.pid = child) :
    Relocated f root (T.next past (.created parentTid child ev flags t))
      (T'.next past' (.created (f parentTid) (f child) ev flags t))
      ((σ.setProcess child Q).setThread child (some child))
      ((σ'.setProcess (f child) (Q.renameTids f)).setThread (f child) (some (f child))) :=
  { h.toSameTasks.created ev flags t hlive hfree' hroot with
    rootPid := h.rootPid
    rootPid' := h.rootPid'
    active := h.active
    thread := by
      intro u q hu
      rw [TaskTree.owner_created hlive, if_neg (by simp [process])] at hu
      by_cases hchild : u = child
      · rw [hchild, Function.update_self, Option.some.injEq] at hu
        simp [hchild, hu]
      · rw [Function.update_of_ne hchild] at hu
        simpa [hchild, (h.ne_of_free hfree' hu).1] using h.thread u q hu
    process := by
      rintro q ⟨u, hu⟩
      rw [TaskTree.owner_created hlive, if_neg (by simp [process])] at hu
      by_cases hchild : u = child
      · rw [hchild, Function.update_self, Option.some.injEq] at hu
        exact ⟨Q, by simp [hu], hQ.trans hu, by simp [hu]⟩
      · rw [Function.update_of_ne hchild] at hu
        have hne : q ≠ child := fun heq => hfree.2 ⟨u, heq ▸ hu⟩
        obtain ⟨P, hP, hpid, hP'⟩ := h.process q ⟨u, hu⟩
        exact ⟨P, by simp [hne, hP], hpid, by simp [(h.ne_of_free hfree' hu).2, hP']⟩ }

theorem onCommandMarker (h : Relocated f root T T' σ σ') (hroot : f root = root)
    (hlive : T.owner tid = some p) (m : CommandMarker) (t : UInt64) :
    StepsAlike f (Relocated f root T T') (σ.onCommandMarker tid m t)
      (σ'.onCommandMarker (f tid) m t) := by
  obtain ⟨P, hk, hP, hpid, hk', hP'⟩ := h.found hlive
  have hproc : T.Live p := ⟨tid, hlive⟩
  have hrootIff := h.record_root_iff hroot hproc hpid
  have hid : (P.renameTids f).commandId = P.commandId := rfl
  unfold ExecutionState.onCommandMarker
  simp only [hk, hP, hk', hP', ne_eq, hrootIff, hid, h.active]
  split
  · exact ⟨σ', rfl, h⟩
  cases m.type with
  | arm =>
      dsimp only
      split
      · rfl
      · have hset := h.setProcess (Q := { P with commandId := some m.id }) hproc hpid
        exact ⟨_, rfl, hset.setActive _⟩
  | start =>
      cases hactive : σ.activeCommand with
      | none => rfl
      | some a =>
          dsimp only
          split
          · rfl
          · have hstarted := h.setActive (some { a with started := true })
            refine ⟨_, ?_, hstarted⟩
            have hemit := hstarted.emit hroot (e := commandStartEvent P.pid tid m.id m.text m.cwd
              (a.firstProcessNs.getD t)) hlive
            rw [renameTids_commandStartEvent] at hemit
            rw [List.map_singleton, ← hemit]
            rfl
  | stop =>
      cases hactive : σ.activeCommand with
      | none => rfl
      | some a =>
          dsimp only
          split
          · rfl
          · have hset := h.setProcess (Q := { P with commandId := none }) hproc hpid
            refine ⟨_, ?_, hset.setActive _⟩
            have hemit := h.emit hroot (e := commandEndEvent P.pid tid (some m.id) m.exitCode
              m.cwd t) hlive
            rw [renameTids_commandEndEvent] at hemit
            rw [List.map_singleton, ← hemit]
            rfl

theorem onProcessExec (h : Relocated f root T T' σ σ') (hroot : f root = root)
    (hlive : T.owner tid = some p) (links : ProcLinks) (t : UInt64) :
    StepsAlike f (Relocated f root T T') (.ok (σ.onProcessExec tid links t))
      (.ok (σ'.onProcessExec (f tid) links t)) := by
  obtain ⟨P, hk, hP, hpid, hk', hP'⟩ := h.found hlive
  unfold ExecutionState.onProcessExec
  simp only [findProcessForThread_def, hk, hP, hk', hP']
  generalize (if links.exe = [] then lit "<unknown>" else links.exe) = executable
  have hexec := h.setProcess (Q := { P with executable }) ⟨tid, hlive⟩ hpid
  refine ⟨_, ?_, hexec⟩
  have hemit := hexec.emit hroot (e := execEvent P tid executable t) hlive
  rw [renameTids_execEvent] at hemit
  rw [List.map_singleton, ← hemit]
  rfl

theorem onSyscallExit (h : Relocated f root T T' σ σ') (hroot : f root = root)
    {memory memory' : TraceeMemory} {call call' : RawSyscall}
    (hcall : SameCall f memory memory' call call') (hlive : T.owner call.tid = some p) :
    StepsAlike f (Relocated f root T T') (.ok (σ.onSyscallExit memory call))
      (.ok (σ'.onSyscallExit memory' call')) := by
  obtain ⟨P, hk, hP, hpid, hk', hP'⟩ := h.found hlive
  have hspec := syscallExit_spec memory P call
  unfold ExecutionState.onSyscallExit
  simp only [hcall.tid, hk, hP, hk', hP', hcall.syscallExit]
  refine ⟨_, ?_, h.setProcess ⟨_, hlive⟩ (hspec.identity.pid.trans hpid)⟩
  cases hevent : (syscallExit memory P call).2 with
  | none => simp [renameOutcome, hevent]
  | some e =>
      obtain ⟨type, resource, metadata, -, rfl⟩ := hspec.event e (by simp [hevent])
      have hemit := h.emit hroot (e := makeEvent P call type resource metadata) hlive
      simp [renameOutcome, hevent, hemit]

theorem onProcessCreated (h : Relocated f root T T' σ σ') (hroot : f root = root)
    {parentTid child : Pid} (ev : UInt32) (flags t : UInt64) (hlive : T.owner parentTid = some p)
    (hfree : T.Free child) (hfree' : T'.Free (f child)) (hchild : f child ≠ root) :
    StepsAlike f (Relocated f root (T.next past (.created parentTid child ev flags t))
        (T'.next past' (.created (f parentTid) (f child) ev flags t)))
      (.ok (σ.onProcessCreated parentTid child ev flags t))
      (.ok (σ'.onProcessCreated (f parentTid) (f child) ev flags t)) := by
  obtain ⟨P, hk, hP, hpid, hk', hP'⟩ := h.found hlive
  have hkP : P.pid = p := hpid
  subst hkP
  unfold ExecutionState.onProcessCreated
  simp only [findProcessForThread_def, hk, hP, hk', hP']
  cases hkind : isThreadCreation ev flags with
  | true => exact ⟨_, rfl, h.createdThread flags t hlive hfree' hchild hkind⟩
  | false =>
      have hcreated := h.createdProcess (Q := { P with pid := child, parentPid := P.pid })
        past past' flags t hlive hfree hfree' hchild hkind rfl
      have hliveParent : (T.next past (.created parentTid child ev flags t)).owner parentTid =
          some P.pid := by
        have hne : parentTid ≠ child := by
          rintro rfl
          rw [hfree.1] at hlive
          contradiction
        rw [TaskTree.owner_created hlive, Function.update_of_ne hne, hlive]
      have hnoted := hcreated.noteFirstProcess hroot ⟨_, hliveParent⟩ t
      refine ⟨_, ?_, hnoted⟩
      have hemit := hnoted.emit hroot (e := forkEvent P parentTid child ev t) hliveParent
      rw [renameTids_forkEvent] at hemit
      simp only [Bool.false_eq_true, if_false, List.map_singleton, ← hemit]
      rfl

theorem onProcessExit (h : Relocated f root T T' σ σ') (hroot : f root = root)
    (hlive : T.owner tid = some p) (code signal : Int32) (t : UInt64) :
    StepsAlike f (Relocated f root (T.next past (.exited tid code signal t))
        (T'.next past' (.exited (f tid) code signal t)))
      (.ok (σ.onProcessExit tid code signal t)) (.ok (σ'.onProcessExit (f tid) code signal t)) := by
  obtain ⟨P, hk, hP, hpid, hk', hP'⟩ := h.found hlive
  have hleader : f tid = f p ↔ tid = p := ⟨h.leader tid p hlive, fun heq => heq ▸ rfl⟩
  unfold ExecutionState.onProcessExit
  simp only [hk, hk', ne_eq, hleader]
  by_cases htid : tid = p
  · subst htid
    have hrootIff := h.record_root_iff hroot ⟨tid, hlive⟩ hpid
    simp only [not_true_eq_false, if_false, hP, hP', hrootIff, h.isArmed]
    -- the record after an armed command has been dropped
    obtain ⟨P₁, hcleared, hpid₁⟩ : ∃ P₁, (if P.pid = σ.rootPid ∧ σ.isArmed = true then
        { P with commandId := none } else P) = P₁ ∧ P₁.pid = tid := by
      refine ⟨_, rfl, ?_⟩
      split <;> exact hpid
    have hcleared' : (if P.pid = σ.rootPid ∧ σ.isArmed = true then
        { P.renameTids f with commandId := none } else P.renameTids f) = P₁.renameTids f := by
      rw [← hcleared]
      split <;> rfl
    rw [hcleared, hcleared']
    have hset := h.setProcess (Q := P₁) ⟨tid, hlive⟩ hpid₁
    have hexit := hset.emit hroot (e := exitEvent P₁ tid code signal t) hlive
    rw [renameTids_exitEvent] at hexit
    simp only [isStarted_setProcess, h.isStarted]
    by_cases hrootCase : P.pid = σ.rootPid
    · -- the root ends: a running command is ended before the exit is told
      cases hrun : (σ.isStarted && P₁.commandId.isSome) with
      | true =>
          obtain ⟨hrunning, hheld⟩ := (Bool.and_eq_true _ _).mp hrun
          have hheld' : (P₁.renameTids f).commandId.isSome = true := hheld
          have hend := hset.emit hroot (e := commandEndEvent P₁.pid tid P₁.commandId
            (exitResult code signal) P₁.cwd t) hlive
          rw [renameTids_commandEndEvent] at hend
          simp only [hrootCase, hrunning, hheld, hheld', and_self, if_true]
          refine ⟨_, ?_, ((hset.setProcess (Q := { P₁ with commandId := none }) ⟨tid, hlive⟩
            hpid₁).setActive none).exited code signal t hlive⟩
          rw [List.map_cons, List.map_singleton, ← hexit, ← hend]
          rfl
      | false =>
          have hidle : ¬ (σ.isStarted = true ∧ P₁.commandId.isSome = true) := by
            simpa using hrun
          have hidle' : ¬ (σ.isStarted = true ∧ (P₁.renameTids f).commandId.isSome = true) := hidle
          simp only [hrootCase, if_true, hidle, hidle', if_false]
          refine ⟨_, ?_, (hset.setActive none).exited code signal t hlive⟩
          rw [List.map_singleton, ← hexit]
    · simp only [if_neg hrootCase]
      refine ⟨_, ?_, hset.exited code signal t hlive⟩
      rw [List.map_singleton, ← hexit]
  · simp only [htid, not_false_eq_true, if_true]
    exact ⟨_, rfl, h.exited code signal t hlive⟩

/-- One notification keeps the states related. -/
theorem step {n n' : Notification} (h : Relocated f root T T' σ σ')
    (past past' : List Notification) (hroot : f root = root)
    (hsame : SameNotification f n n') (hlive : T.owner n.task = some p)
    (hfree : ∀ c, n.creates c = true → T.Free c ∧ T'.Free (f c) ∧ f c ≠ root) :
    StepsAlike f (Relocated f root (T.next past n) (T'.next past' n')) (σ.notify n)
      (σ'.notify n') := by
  cases hsame with
  | marker tid m t => exact h.onCommandMarker hroot hlive m t
  | exec tid links t => exact h.onProcessExec hroot hlive links t
  | created parentTid child ev flags t =>
      obtain ⟨hfree, hfree', hchild⟩ := hfree child (by simp [Notification.creates])
      exact h.onProcessCreated hroot ev flags t hlive hfree hfree' hchild
  | exited tid code signal t => exact h.onProcessExit hroot hlive code signal t
  | syscall same => exact h.onSyscallExit hroot same hlive

end Relocated

end simulation

/-! ### Runs -/

section runs

variable {f : Pid → Pid} {root : Pid}

/-- Two runs under the same notifications from related states. -/
theorem Relocated.run (hroot : f root = root) {us ns rest rest' : List Notification}
    {σ σ' : ExecutionState} (h : Relocated f root (taskTree root us) (taskTree root ns) σ σ')
    (hsame : List.Forall₂ (SameNotification f) rest rest')
    (legal : Transducer.Legal (ReuseAdmits root) (us ++ rest))
    (legal' : Transducer.Legal (ReuseAdmits root) (ns ++ rest')) :
    StepsAlike f (Relocated f root (taskTree root (us ++ rest)) (taskTree root (ns ++ rest')))
      (Transducer.run notify σ rest) (Transducer.run notify σ' rest') := by
  -- over the rest of the notifications: the trees and the states move on together
  induction hsame generalizing us ns σ σ' with
  | nil => exact ⟨σ', rfl, by simpa using h⟩
  | @cons u n rest rest' hfirst hrest ih =>
      obtain ⟨p, hlive⟩ := (legal us u rest rfl).live
      have hfree : ∀ c, u.creates c = true →
          (taskTree root us).Free c ∧ (taskTree root ns).Free (f c) ∧ f c ≠ root := by
        intro c hc
        have hcreates : n.creates (f c) = true := by
          cases hfirst <;> simp_all [Notification.creates]
        obtain ⟨hother, hfree⟩ := (legal' ns n rest' rfl).free (f c) hcreates
        exact ⟨((legal us u rest rfl).free c hc).2, hfree, hother⟩
      have hstep := h.step us ns hroot hfirst hlive hfree
      rw [← taskTree_snoc, ← taskTree_snoc] at hstep
      cases hnotify : σ.notify u with
      | error e =>
          rw [hnotify] at hstep
          rw [Transducer.run_cons_of_error _ hnotify,
            Transducer.run_cons_of_error _ (show σ'.notify n = .error e from hstep)]
          rfl
      | ok r =>
          obtain ⟨τ, o⟩ := r
          rw [hnotify] at hstep
          obtain ⟨τ', hn, hrelated⟩ := hstep
          have htail := ih hrelated (by simpa using legal) (by simpa using legal')
          rw [Transducer.run_cons_of_ok _ hnotify, Transducer.run_cons_of_ok _ hn]
          cases hrun : Transducer.run notify τ rest with
          | error e =>
              rw [hrun] at htail
              rw [show Transducer.run notify τ' rest' = .error e from htail]
              rfl
          | ok r =>
              obtain ⟨υ, o'⟩ := r
              rw [hrun] at htail
              obtain ⟨υ', hrun', hlast⟩ := htail
              exact ⟨υ', by simp [hrun', Except.map], by simpa using hlast⟩

theorem relocated_start (hroot : f root = root) (hzero : f 0 = 0) (cwd : Bytes)
    (rootCommand : Option Bytes) (startNs : UInt64) :
    Relocated f root (TaskTree.initial root) (TaskTree.initial root)
      (initialState root cwd rootCommand startNs) (initialState root cwd rootCommand startNs) := by
  have hlives : ∀ {q}, (TaskTree.initial root).Live q → q = root :=
    fun ⟨_, hu⟩ => (TaskTree.owner_initial hu).2
  refine ⟨⟨?_, ?_, ?_, ?_, ?_⟩, initialState_rootPid .., initialState_rootPid .., rfl, ?_, ?_⟩
  · intro tid p h
    obtain ⟨rfl, rfl⟩ := TaskTree.owner_initial h
    rwa [hroot]
  · intro tid p u q h h' _
    rw [(TaskTree.owner_initial h).1, (TaskTree.owner_initial h').1]
  · intro p q h h' _
    rw [hlives h, hlives h']
  · intro tid p h _
    obtain ⟨rfl, rfl⟩ := TaskTree.owner_initial h
    rfl
  · exact fun p h _ => hlives h
  · intro tid p h
    obtain ⟨rfl, rfl⟩ := TaskTree.owner_initial h
    simp [initialState_threadToProcess, hroot]
  · intro p h
    obtain rfl := hlives h
    exact ⟨_, by rw [initialState_processes, if_pos rfl], rfl,
      by simp [initialState_processes, ProcessState.renameTids, hroot, hzero]⟩

/-- Two whole runs: both are refused with the same text, or record the same
events up to the renaming. -/
theorem record_relocated (hroot : f root = root) (hzero : f 0 = 0) (cwd : Bytes)
    (rootCommand : Option Bytes) (startNs : UInt64) {us ns : List Notification}
    (hsame : List.Forall₂ (SameNotification f) us ns)
    (legal : Transducer.Legal (ReuseAdmits root) us)
    (legal' : Transducer.Legal (ReuseAdmits root) ns) :
    StepsAlike f (Relocated f root (taskTree root us) (taskTree root ns))
      (record root cwd rootCommand startNs us) (record root cwd rootCommand startNs ns) := by
  have hrun := @Relocated.run f root hroot [] [] us ns _ _
    (relocated_start hroot hzero cwd rootCommand startNs) hsame legal legal'
  have hfirst : (initialEvents root cwd rootCommand startNs).map (Event.renameTids f) =
      initialEvents root cwd rootCommand startNs := by
    rw [initialEvents_eq]
    cases rootCommand <;> simp [renameTids_commandStartEvent, hroot]
  unfold record
  dsimp only
  rw [← initialState, ← initialEvents]
  cases hus : Transducer.run notify (initialState root cwd rootCommand startNs) us with
  | error e =>
      rw [hus] at hrun
      rw [show Transducer.run notify (initialState root cwd rootCommand startNs) ns = .error e
        from hrun]
      rfl
  | ok r =>
      obtain ⟨σ, es⟩ := r
      rw [hus] at hrun
      obtain ⟨σ', hns, hrelated⟩ := hrun
      exact ⟨σ', by simp [hns, Except.map, hfirst], hrelated⟩

/-- The states agree on everything but the tasks and processes that have
ended. -/
structure AgreeOnLive (T : TaskTree) (σ σ' : ExecutionState) : Prop where
  rootPid : σ'.rootPid = σ.rootPid
  active : σ'.activeCommand = σ.activeCommand
  thread : ∀ tid p, T.owner tid = some p → σ'.threadToProcess tid = σ.threadToProcess tid
  process : ∀ p, T.Live p → σ'.processes p = σ.processes p

theorem sameNotification_id (n : Notification) : SameNotification id n n := by
  cases n with
  | marker tid m t => exact .marker tid m t
  | exec tid links t => exact .exec tid links t
  | created parentTid childTid ev flags t => exact .created parentTid childTid ev flags t
  | exited tid code signal t => exact .exited tid code signal t
  | syscall memory call => exact .syscall ⟨rfl, rfl, rfl, rfl, rfl, fun _ => rfl, fun _ _ => rfl⟩

theorem AgreeOnLive.relocated {T : TaskTree} {σ σ' : ExecutionState} (h : AgreeOnLive T σ σ')
    (hself : Relocated id root T T σ σ) : Relocated id root T T σ σ' :=
  { hself with
    rootPid' := h.rootPid.trans hself.rootPid
    active := h.active
    thread := fun tid p howner =>
      ⟨(hself.thread tid p howner).1, (h.thread tid p howner).trans (hself.thread tid p howner).1⟩
    process := by
      intro p hlive
      obtain ⟨P, hP, hpid, hP'⟩ := hself.process p hlive
      exact ⟨P, hP, hpid, (h.process p hlive).trans hP'⟩ }

/-- Later events depend on the live tasks only. -/
theorem AgreeOnLive.events {cwd : Bytes} {rootCommand : Option Bytes} {startNs : UInt64}
    {past rest : List Notification} {σ σ' : ExecutionState} {es : List Event}
    (legal : Transducer.Legal (ReuseAdmits root) (past ++ rest))
    (hpast : record root cwd rootCommand startNs past = .ok (σ, es))
    (h : AgreeOnLive (taskTree root past) σ σ') :
    (Transducer.run notify σ' rest).map Prod.snd = (Transducer.run notify σ rest).map Prod.snd := by
  have hall (l : List Notification) : List.Forall₂ (SameNotification id) l l :=
    List.forall₂_same.mpr fun n _ => sameNotification_id n
  have hself := record_relocated (f := id) rfl rfl cwd rootCommand startNs (hall past)
    legal.of_append legal.of_append
  rw [hpast] at hself
  obtain ⟨τ, hτ, hself⟩ := hself
  obtain ⟨rfl, -⟩ := Prod.mk.inj (Except.ok.inj hτ)
  -- both runs are compared with the run from the recorded state
  have hsame := hself.run rfl (hall rest) legal legal
  have hother := (h.relocated hself).run rfl (hall rest) legal legal
  cases hrun : Transducer.run notify σ rest with
  | error e =>
      rw [hrun] at hother
      rw [show Transducer.run notify σ' rest = .error e from hother]
  | ok r =>
      obtain ⟨υ, out⟩ := r
      rw [hrun] at hsame hother
      obtain ⟨_, hevents, -⟩ := hsame
      obtain ⟨υ', hrun', -⟩ := hother
      rw [hrun', ← (Prod.mk.inj (Except.ok.inj hevents)).2]
      rfl

end runs

/-- The events of a run in which ended tids are used again are those of the
same run in which every task has a tid of its own, under the renaming of
tids; and at any moment the records of tasks that have ended could be
exchanged for others without a change of any later event. -/
theorem reused_pids_carry_nothing (root : Pid) (cwd : Bytes) (rootCommand : Option Bytes)
    (startNs : UInt64) (ns : List Notification)
    (hreuse : Transducer.Legal (ReuseAdmits root) ns) :
    (∀ (f : Pid → Pid) (us : List Notification), f root = root → f 0 = 0 →
      List.Forall₂ (SameNotification f) us ns → Transducer.Legal (FreshAdmits root) us →
      (record root cwd rootCommand startNs ns).map Prod.snd =
        (record root cwd rootCommand startNs us).map fun r => r.2.map (Event.renameTids f)) ∧
    ∀ past rest σ es σ', ns = past ++ rest →
      record root cwd rootCommand startNs past = .ok (σ, es) →
      AgreeOnLive (taskTree root past) σ σ' →
      (Transducer.run notify σ' rest).map Prod.snd =
        (Transducer.run notify σ rest).map Prod.snd := by
  constructor
  · intro f us hroot hzero hsame hfresh
    have hrecord := record_relocated hroot hzero cwd rootCommand startNs hsame
      (fun past n rest hsplit => (hfresh past n rest hsplit).reuse) hreuse
    cases hus : record root cwd rootCommand startNs us with
    | error e =>
        rw [hus] at hrecord
        rw [show record root cwd rootCommand startNs ns = .error e from hrecord]
        rfl
    | ok r =>
        rw [hus] at hrecord
        obtain ⟨σ', hns, -⟩ := hrecord
        rw [hns]
        rfl
  · rintro past rest σ es σ' rfl hpast hagree
    exact hagree.events hreuse hpast

/-! ### A process and a later one with its pid -/

/-- The second process of the run gets the pid 8 of the first. -/
def samplePidReuse (second : Pid) : List Notification :=
  [.created 7 8 ptraceEventFork 0 1, .exited 8 0 0 2, .created 7 second ptraceEventVfork 0 3,
    .exec second ⟨[], lit "/bin/sh"⟩ 4]

def sampleRenaming (tid : Pid) : Pid := if tid = 9 then 8 else tid

/-- While the root is the only task, every other tid is free. -/
theorem free_of_sole {root child : Pid} {tree : TaskTree} (hchild : child ≠ root)
    (hsole : ∀ tid p, tree.owner tid = some p → tid = root ∧ p = root) : tree.Free child := by
  refine ⟨Option.eq_none_iff_forall_ne_some.mpr fun p howner => ?_, fun ⟨tid, howner⟩ => ?_⟩
  · exact hchild (hsole child p howner).1
  · exact hchild (hsole tid child howner).2

/-- A notification that creates no task needs only a live one. -/
theorem FreshAdmits.of_live {root p : Pid} {past : List Notification} {n : Notification}
    (hlive : (taskTree root past).owner n.task = some p)
    (hcreates : ∀ tid, n.creates tid = false) : FreshAdmits root past n := by
  refine ⟨⟨p, hlive⟩, fun tid htid => ?_⟩
  rw [hcreates tid] at htid
  contradiction

theorem samplePidReuse_sole (tid p : Pid)
    (h : (taskTree 7 [.created 7 8 ptraceEventFork 0 1, .exited 8 0 0 2]).owner tid = some p) :
    tid = 7 ∧ p = 7 := by
  have hupdate : Function.update (Function.update (TaskTree.initial 7).owner 8 (some 8)) 8 none
      tid = some p := h
  by_cases htid : tid = 8
  · simp [htid] at hupdate
  · simp only [Function.update_of_ne htid] at hupdate
    exact TaskTree.owner_initial hupdate

theorem samplePidReuse_legal (second : Pid) (hsecond : second ≠ 7) :
    Transducer.Legal (ReuseAdmits 7) (samplePidReuse second) := by
  have hcreated := (Transducer.legal_nil (ReuseAdmits 7)).snoc
    (i := .created 7 8 ptraceEventFork 0 1) ⟨⟨7, by decide⟩, fun tid htid => by
      obtain rfl : 8 = tid := by simpa [Notification.creates] using htid
      exact ⟨by decide, free_of_sole (by decide) fun _ _ h => TaskTree.owner_initial h⟩⟩
  have hexited := hcreated.snoc (i := .exited 8 0 0 2)
    (FreshAdmits.of_live (p := 8) (by decide) fun _ => rfl).reuse
  have hsecondCreated := hexited.snoc (i := .created 7 second ptraceEventVfork 0 3)
    ⟨⟨7, rfl⟩, fun tid htid => by
      obtain rfl : second = tid := by simpa [Notification.creates] using htid
      exact ⟨hsecond, free_of_sole hsecond samplePidReuse_sole⟩⟩
  refine hsecondCreated.snoc (i := .exec second ⟨[], lit "/bin/sh"⟩ 4)
    (FreshAdmits.of_live (p := second) ?_ fun _ => rfl).reuse
  exact Function.update_self ..

/-- With the pid 9 for the second process no tid is used twice. -/
theorem samplePidReuse_fresh : Transducer.Legal (FreshAdmits 7) (samplePidReuse 9) := by
  have hcreated := (Transducer.legal_nil (FreshAdmits 7)).snoc
    (i := .created 7 8 ptraceEventFork 0 1) ⟨⟨7, rfl⟩, fun tid htid => by
      obtain rfl : 8 = tid := by simpa [Notification.creates] using htid
      decide⟩
  have hexited := hcreated.snoc (i := .exited 8 0 0 2)
    (FreshAdmits.of_live (p := 8) rfl fun _ => rfl)
  have hsecond := hexited.snoc (i := .created 7 9 ptraceEventVfork 0 3)
    ⟨⟨7, rfl⟩, fun tid htid => by
      obtain rfl : 9 = tid := by simpa [Notification.creates] using htid
      decide⟩
  exact hsecond.snoc (i := .exec 9 ⟨[], lit "/bin/sh"⟩ 4)
    (FreshAdmits.of_live (p := 9) rfl fun _ => rfl)

theorem reused_pids_sample :
    (record 7 (lit "/") none 0 (samplePidReuse 8)).map Prod.snd =
      (record 7 (lit "/") none 0 (samplePidReuse 9)).map fun r =>
        r.2.map (Event.renameTids sampleRenaming) :=
  (reused_pids_carry_nothing 7 (lit "/") none 0 (samplePidReuse 8)
    (samplePidReuse_legal 8 (by decide))).1 sampleRenaming (samplePidReuse 9) rfl rfl
    (.cons (.created 7 8 _ _ _) (.cons (.exited 8 _ _ _)
      (.cons (.created 7 9 _ _ _) (.cons (.exec 9 _ _) .nil)))) samplePidReuse_fresh

end Whyrun
