import Whyrun.Execution.Attribution
import Whyrun.Execution.ReusedPids

/-!
Isolation of processes. A recording is restricted to a set of processes that
holds the root and the parents of its members: what the notifications of the
other processes are, and whether they come at all, does not show in the
records and the events of the set.
-/

namespace Whyrun

open ByteText ExecutionState

/-! ### The notifications of a set of processes -/

/-- The notification comes from a task of a process of the set. -/
def comesFrom (root : Pid) (inside : Pid → Bool) (past : List Notification)
    (n : Notification) : Bool :=
  ((taskTree root past).owner n.task).any inside

/-- The notifications of the processes of the set, in order. -/
def notificationsOf (root : Pid) (inside : Pid → Bool) (ns : List Notification) :
    List Notification :=
  Transducer.slice (comesFrom root inside) [] ns

/-- As `ReuseAdmits`; and the parent of a process of the set is in the set. -/
structure IsolationAdmits (root : Pid) (inside : Pid → Bool) (past : List Notification)
    (n : Notification) : Prop extends ReuseAdmits root past n where
  ancestral : ∀ parentTid child ev flags t p, n = .created parentTid child ev flags t →
    isThreadCreation ev flags = false → (taskTree root past).owner parentTid = some p →
    inside child = true → inside p = true

/-- The tree with the tasks of the processes of the set only. -/
def TaskTree.within (tree : TaskTree) (inside : Pid → Bool) : TaskTree :=
  { tree with owner := fun tid => (tree.owner tid).filter inside }

section within

variable {tree : TaskTree} {inside : Pid → Bool} {past : List Notification} {n : Notification}
  {tid p : Pid}

theorem TaskTree.owner_within :
    (tree.within inside).owner tid = some p ↔ tree.owner tid = some p ∧ inside p = true := by
  simp [TaskTree.within, Option.filter_eq_some_iff]

theorem TaskTree.Live.of_within (h : (tree.within inside).Live p) :
    tree.Live p ∧ inside p = true := by
  obtain ⟨tid, htid⟩ := h
  obtain ⟨howner, hinside⟩ := TaskTree.owner_within.mp htid
  exact ⟨⟨tid, howner⟩, hinside⟩

theorem TaskTree.Free.within (h : tree.Free tid) : (tree.within inside).Free tid := by
  refine ⟨?_, fun hlive => h.2 hlive.of_within.1⟩
  simp [TaskTree.within, h.1]

/-- A notification of the set does to the tasks of the set what it does to all. -/
theorem TaskTree.owner_next_within (hlive : tree.owner n.task = some p) (hp : inside p = true)
    {u q : Pid} (hu : ((tree.next past n).within inside).owner u = some q) :
    ((tree.within inside).next past n).owner u = some q := by
  obtain ⟨howner, hq⟩ := TaskTree.owner_within.mp hu
  have hlive' : (tree.within inside).owner n.task = some p := TaskTree.owner_within.mpr ⟨hlive, hp⟩
  cases n with
  | created parentTid child ev flags t =>
      rw [Notification.task] at hlive hlive'
      rw [TaskTree.owner_created hlive] at howner
      rw [TaskTree.owner_created hlive']
      by_cases hchild : u = child
      · subst hchild
        rwa [Function.update_self] at howner ⊢
      · rw [Function.update_of_ne hchild] at howner ⊢
        exact TaskTree.owner_within.mpr ⟨howner, hq⟩
  | exited tid code signal t =>
      obtain ⟨hne, howner⟩ := TaskTree.owner_of_exit howner
      show Function.update (tree.within inside).owner tid none u = some q
      rw [Function.update_of_ne hne]
      exact TaskTree.owner_within.mpr ⟨howner, hq⟩
  | marker | exec | syscall => exact TaskTree.owner_within.mpr ⟨howner, hq⟩

end within

/-! ### One notification -/

section steps

variable {root : Pid} {inside : Pid → Bool} {past : List Notification} {n : Notification}
  {σ τ τ' : ExecutionState} {T T' : TaskTree} {es : List Event} {p : Pid}

/-- States that agree on the live tasks of a tree agree on those of a smaller
one. -/
theorem Relocated.anti {S : TaskTree} (h : Relocated id root T T' σ τ)
    (hsub : ∀ tid p, S.owner tid = some p → T.owner tid = some p) :
    Relocated id root S T' σ τ := by
  have hlive : ∀ p, S.Live p → T.Live p := fun p ⟨tid, htid⟩ => ⟨tid, hsub tid p htid⟩
  exact
    { owner := fun tid p htid => h.owner tid p (hsub tid p htid)
      tids := fun _ _ _ _ _ _ hsame => hsame
      pids := fun _ _ _ _ hsame => hsame
      leader := fun _ _ _ hsame => hsame
      onlyRoot := fun _ _ hroot => hroot
      rootPid := h.rootPid
      rootPid' := h.rootPid'
      active := h.active
      thread := fun tid p htid => h.thread tid p (hsub tid p htid)
      process := fun p hp => h.process p (hlive p hp) }

/-- What a notification of another process leaves as it was. -/
structure LeavesAlone (inside : Pid → Bool) (τ τ' : ExecutionState) (T T' : TaskTree) :
    Prop where
  rootPid : τ'.rootPid = τ.rootPid
  active : τ'.activeCommand = τ.activeCommand
  owner : ∀ tid p, T'.owner tid = some p → inside p = true → T.owner tid = some p
  thread : ∀ tid p, T'.owner tid = some p → inside p = true →
    τ'.threadToProcess tid = τ.threadToProcess tid
  process : ∀ p, inside p = true → τ'.processes p = τ.processes p

theorem LeavesAlone.setProcess {P : ProcessState} (hp : inside p = false) :
    LeavesAlone inside τ (τ.setProcess p P) T T where
  rootPid := rfl
  active := rfl
  owner _ _ h _ := h
  thread _ _ _ _ := rfl
  process q hq := by
    have hne : q ≠ p := by
      rintro rfl
      rw [hp] at hq
      contradiction
    simp [hne]

/-- The end of a task of another process. -/
theorem LeavesAlone.exited {tid : Pid} {code signal : Int32} {t : UInt64}
    (h : LeavesAlone inside τ τ' T T) :
    LeavesAlone inside τ (τ'.setThread tid none) T (T.next past (.exited tid code signal t)) where
  rootPid := h.rootPid
  active := h.active
  owner _ _ hu _ := (TaskTree.owner_of_exit hu).2
  thread u q hu hq := by
    obtain ⟨hne, hu⟩ := TaskTree.owner_of_exit hu
    simpa [hne] using h.thread u q hu hq
  process := h.process

theorem noteFirstProcess_of_other {q : Pid} {t : UInt64} (h : q ≠ σ.rootPid) :
    σ.noteFirstProcess q t = σ := by
  unfold noteFirstProcess
  split
  · rfl
  · rw [if_neg fun hfirst => h hfirst.1]

/-- A new task of a process outside the set is none of the set's. -/
theorem TaskTree.owner_of_created_outside {parentTid child : Pid} {ev : UInt32} {flags t : UInt64}
    (hlive : T.owner parentTid = some p)
    (hout : inside (if isThreadCreation ev flags then p else child) = false) {u q : Pid}
    (hu : (T.next past (.created parentTid child ev flags t)).owner u = some q)
    (hq : inside q = true) : u ≠ child ∧ T.owner u = some q := by
  rw [TaskTree.owner_created hlive] at hu
  by_cases hsame : u = child
  · rw [hsame, Function.update_self, Option.some.injEq] at hu
    rw [hu, hq] at hout
    contradiction
  · exact ⟨hsame, by rwa [Function.update_of_ne hsame] at hu⟩

/-- A notification of a process outside the set. -/
theorem Effect.leavesAlone (he : Effect τ n τ' es) (hself : Relocated id root T T τ τ)
    (hroot : inside root = true) (hlive : T.owner n.task = some p) (hp : inside p = false)
    (hancestral : ∀ parentTid child ev flags t, n = .created parentTid child ev flags t →
      isThreadCreation ev flags = false → inside child = false) :
    LeavesAlone inside τ τ' T (T.next past n) := by
  obtain ⟨P, hkey, hP, hpid, -⟩ := hself.found hlive
  have hother : p ≠ τ.rootPid := by
    rw [hself.rootPid]
    rintro rfl
    rw [hroot] at hp
    contradiction
  have hfound : ∀ {Q}, τ.processes (τ.processForThread n.task) = some Q → Q.pid = p := by
    intro Q hQ
    rw [hkey, hP] at hQ
    rw [← Option.some.inj hQ, hpid]
  have hunchanged : LeavesAlone inside τ τ T T :=
    ⟨rfl, rfl, fun _ _ h _ => h, fun _ _ _ _ => rfl, fun _ _ => rfl⟩
  cases he with
  | markerIgnored | syscallUnknown => exact hunchanged
  | arm found isRoot | start found isRoot | stop found isRoot =>
      exact absurd ((hfound found).symm.trans isRoot) hother
  | exec found => exact hkey ▸ LeavesAlone.setProcess hp
  | execDiscovered unknown | createdUnknown unknown =>
      rw [show τ.processes (τ.processForThread _) = some P from hkey ▸ hP] at unknown
      contradiction
  | @createdThread parentTid child ev flags t Q found thread =>
      have hold : ∀ {u q}, (T.next past (.created parentTid child ev flags t)).owner u = some q →
          inside q = true → u ≠ child ∧ T.owner u = some q :=
        fun hu hq => TaskTree.owner_of_created_outside hlive (by rw [if_pos thread, hp]) hu hq
      exact
        { rootPid := rfl
          active := rfl
          owner := fun u q hu hq => (hold hu hq).2
          thread := fun u q hu hq => by simp [(hold hu hq).1]
          process := fun _ _ => rfl }
  | @createdProcess parentTid child ev flags t Q found process =>
      have hout := hancestral parentTid child ev flags t rfl process
      have hold : ∀ {u q}, (T.next past (.created parentTid child ev flags t)).owner u = some q →
          inside q = true → u ≠ child ∧ T.owner u = some q :=
        fun hu hq => TaskTree.owner_of_created_outside hlive (by simp [process, hout]) hu hq
      rw [noteFirstProcess_of_other (by rw [hfound found]; exact hother)]
      exact
        { rootPid := rfl
          active := rfl
          owner := fun u q hu hq => (hold hu hq).2
          thread := fun u q hu hq => by simp [(hold hu hq).1]
          process := (LeavesAlone.setProcess (T := T) hout).process }
  | exitedThread => exact hunchanged.exited
  | exitedUnknown leader unknown =>
      rw [show τ.processes _ = some P by rw [← leader]; exact hkey ▸ hP] at unknown
      contradiction
  | @exited tid code signal t Q leader found notRoot =>
      rw [show tid = p from leader.symm.trans hkey]
      exact (LeavesAlone.setProcess hp).exited
  | @exitedRunning tid code signal t Q id leader found isRoot =>
      exact absurd ((hfound (by rw [← leader] at found; exact found)).symm.trans isRoot) hother
  | @exitedIdle tid code signal t Q leader found isRoot =>
      exact absurd ((hfound (by rw [← leader] at found; exact found)).symm.trans isRoot) hother
  | syscall found => exact hkey ▸ LeavesAlone.setProcess hp

/-- A state that is related to some other agrees with itself. -/
theorem Relocated.self (h : Relocated id root T T' σ τ) : Relocated id root T T σ σ where
  owner _ _ h := h
  tids _ _ _ _ _ _ hsame := hsame
  pids _ _ _ _ hsame := hsame
  leader _ _ _ hsame := hsame
  onlyRoot _ _ hroot := hroot
  rootPid := h.rootPid
  rootPid' := h.rootPid
  active := rfl
  thread tid p htid := ⟨(h.thread tid p htid).1, (h.thread tid p htid).1⟩
  process p hp := by
    obtain ⟨P, hP, hpid, -⟩ := h.process p hp
    exact ⟨P, hP, hpid, hP⟩

/-- Related states emit the very same events. -/
theorem Relocated.sameEvents (past : List Notification) (h : Relocated id root T T' σ τ)
    (hlive : T.owner n.task = some p)
    (hfree : ∀ c, n.creates c = true → c ≠ root ∧ T.Free c ∧ T'.Free c) :
    (∃ e, σ.notify n = .error e ∧ τ.notify n = .error e) ∨
      ∃ σ' τ' es, σ.notify n = .ok (σ', es) ∧ τ.notify n = .ok (τ', es) ∧
        Relocated id root (T.next past n) (T'.next past n) σ' τ' := by
  have hstep := h.step past past rfl (sameNotification_id n) hlive
    fun c hc => ⟨(hfree c hc).2.1, (hfree c hc).2.2, (hfree c hc).1⟩
  have hself := h.self.step past past rfl (sameNotification_id n) hlive
    fun c hc => ⟨(hfree c hc).2.1, (hfree c hc).2.1, (hfree c hc).1⟩
  cases hσ : σ.notify n with
  | error e =>
      rw [hσ] at hstep
      exact .inl ⟨e, rfl, hstep⟩
  | ok r =>
      obtain ⟨σ', es⟩ := r
      rw [hσ] at hstep hself
      obtain ⟨τ', hτ, hrelated⟩ := hstep
      obtain ⟨_, hok, -⟩ := hself
      rw [← (Prod.mk.inj (Except.ok.inj hok)).2] at hτ
      exact .inr ⟨σ', τ', es, rfl, hτ, hrelated⟩

end steps

/-! ### Whole recordings -/

section runs

variable {root : Pid} {inside : Pid → Bool} {past : List Notification} {n : Notification}
  {σ τ : ExecutionState}

/-- The restricted recording has the records of the set, and the whole one
those of all live tasks. -/
structure Restricted (root : Pid) (inside : Pid → Bool) (past : List Notification)
    (σ τ : ExecutionState) : Prop where
  restricted : Relocated id root ((taskTree root past).within inside) (taskTree root past) σ τ
  whole : Relocated id root (taskTree root past) (taskTree root past) τ τ

theorem restricted_start (cwd : Bytes) (rootCommand : Option Bytes) (startNs : UInt64) :
    Restricted root inside [] (initialState root cwd rootCommand startNs)
      (initialState root cwd rootCommand startNs) := by
  have hstart := relocated_start (show id root = root from rfl) (show id (0 : Pid) = 0 from rfl)
    cwd rootCommand startNs
  exact ⟨hstart.anti fun tid p h => (TaskTree.owner_within.mp h).1, hstart⟩

/-- Only a marker of the root is refused. -/
theorem root_of_refused {e : Failure} {P : ProcessState} (hrefused : τ.notify n = .error e)
    (hP : τ.processes (τ.processForThread n.task) = some P) : P.pid = τ.rootPid := by
  cases hmarker : n.isMarker with
  | false =>
      obtain ⟨r, hok⟩ := notify_ok_of_not_marker τ hmarker
      rw [hok] at hrefused
      contradiction
  | true =>
      cases n with
      | marker tid m t =>
          by_contra hother
          have hignored : τ.onCommandMarker tid m t = .ok (τ, []) := by
            unfold onCommandMarker
            simp only [show τ.processes (τ.processForThread tid) = some P from hP, if_pos hother]
          rw [show τ.onCommandMarker tid m t = .error e from hrefused] at hignored
          contradiction
      | exec | created | exited | syscall => contradiction

theorem comesFrom_of_owner {p : Pid} (hlive : (taskTree root past).owner n.task = some p) :
    comesFrom root inside past n = inside p := by
  simp [comesFrom, hlive]

/-- A notification of the set does the same to the restricted recording. -/
theorem Restricted.kept (h : Restricted root inside past σ τ)
    (admits : IsolationAdmits root inside past n) (hkept : comesFrom root inside past n = true) :
    Transducer.Follows (fun e : Event => inside e.pid) (Restricted root inside (past ++ [n]))
      (τ.notify n) (σ.notify n) := by
  obtain ⟨p, hlive⟩ := admits.live
  have hp : inside p = true := (comesFrom_of_owner hlive).symm.trans hkept
  have hboth := h.restricted.sameEvents past (TaskTree.owner_within.mpr ⟨hlive, hp⟩)
    fun c hc => ⟨(admits.free c hc).1, (admits.free c hc).2.within, (admits.free c hc).2⟩
  have hself := h.whole.sameEvents past hlive
    fun c hc => ⟨(admits.free c hc).1, (admits.free c hc).2, (admits.free c hc).2⟩
  obtain ⟨e, hσ, hτ⟩ | ⟨σ', τ', es, hσ, hτ, hnext⟩ := hboth
  · rw [hσ, hτ]
    rfl
  · obtain ⟨e, hτ', -⟩ | ⟨τ₁, τ₂, es', hτ₁, hτ₂, hwhole⟩ := hself
    · rw [hτ] at hτ'
      contradiction
    · obtain ⟨rfl, rfl⟩ := Prod.mk.inj (Except.ok.inj (hτ.symm.trans hτ₁))
      obtain ⟨rfl, -⟩ := Prod.mk.inj (Except.ok.inj (hτ.symm.trans hτ₂))
      obtain ⟨P, hkey, hP, hpid, -⟩ := h.whole.found hlive
      have hseen : ∀ e ∈ es, inside e.pid = true := by
        intro e he
        rw [((notify_effect hτ).eventOf (hkey ▸ hP) he).pid, hpid, hp]
      rw [hσ, hτ]
      refine ⟨σ', by rw [List.filter_eq_self.mpr hseen], ?_, ?_⟩
      · rw [taskTree_snoc]
        exact hnext.anti fun u q hu => TaskTree.owner_next_within hlive hp hu
      · rwa [taskTree_snoc]

/-- A notification of another process does not show. -/
theorem Restricted.left (hroot : inside root = true) (h : Restricted root inside past σ τ)
    (admits : IsolationAdmits root inside past n) (hleft : comesFrom root inside past n = false) :
    ∃ τ' es, τ.notify n = .ok (τ', es) ∧ es.filter (fun e => inside e.pid) = [] ∧
      Restricted root inside (past ++ [n]) σ τ' := by
  obtain ⟨p, hlive⟩ := admits.live
  have hp : inside p = false := (comesFrom_of_owner hlive).symm.trans hleft
  obtain ⟨P, hkey, hP, hpid, -⟩ := h.whole.found hlive
  obtain ⟨e, hτ, -⟩ | ⟨τ', τ₂, es, hτ, hτ₂, hwhole⟩ := h.whole.sameEvents past hlive
    fun c hc => ⟨(admits.free c hc).1, (admits.free c hc).2, (admits.free c hc).2⟩
  · have hrefused := root_of_refused hτ (hkey ▸ hP)
    rw [hpid, h.whole.rootPid] at hrefused
    rw [hrefused, hroot] at hp
    contradiction
  · obtain ⟨rfl, -⟩ := Prod.mk.inj (Except.ok.inj (hτ.symm.trans hτ₂))
    have hunseen : ∀ e ∈ es, inside e.pid = false := by
      intro e he
      rw [((notify_effect hτ).eventOf (hkey ▸ hP) he).pid, hpid, hp]
    have hleaves : LeavesAlone inside τ τ' (taskTree root past) (taskTree root (past ++ [n])) := by
      rw [taskTree_snoc]
      refine (notify_effect hτ).leavesAlone h.whole hroot hlive hp ?_
      intro parentTid child ev flags t hn hprocess
      subst hn
      by_contra hchild
      have hparent := admits.ancestral parentTid child ev flags t p rfl hprocess hlive
        (by simpa using hchild)
      rw [hp] at hparent
      contradiction
    refine ⟨τ', es, hτ, by simpa using hunseen, ⟨?_, by rwa [taskTree_snoc]⟩⟩
    have hsub : ∀ u q, ((taskTree root (past ++ [n])).within inside).owner u = some q →
        ((taskTree root past).within inside).owner u = some q := by
      intro u q hu
      obtain ⟨howner, hq⟩ := TaskTree.owner_within.mp hu
      exact TaskTree.owner_within.mpr ⟨hleaves.owner u q howner hq, hq⟩
    exact
      { h.restricted.anti hsub with
        owner := fun u q hu => (TaskTree.owner_within.mp hu).1
        rootPid' := hleaves.rootPid.trans h.restricted.rootPid'
        active := hleaves.active.trans h.restricted.active
        thread := fun u q hu => by
          obtain ⟨howner, hq⟩ := TaskTree.owner_within.mp hu
          obtain ⟨hthread, hthread'⟩ := h.restricted.thread u q (hsub u q hu)
          exact ⟨hthread, (hleaves.thread u q howner hq).trans hthread'⟩
        process := fun q ⟨u, hu⟩ => by
          have hq := (TaskTree.owner_within.mp hu).2
          obtain ⟨Q, hQ, hpidQ, hQ'⟩ := h.restricted.process q ⟨u, hsub u q hu⟩
          exact ⟨Q, hQ, hpidQ, (hleaves.process q hq).trans hQ'⟩ }

end runs

/-- The recording of the notifications of a set of processes that holds the
root and the parents of its members consists of their events in the recording
of everything, and the records of their live processes are the same. -/
theorem processes_isolated (root : Pid) (cwd : Bytes) (rootCommand : Option Bytes)
    (startNs : UInt64) (inside : Pid → Bool) (hroot : inside root = true)
    (ns : List Notification) (legal : Transducer.Legal (IsolationAdmits root inside) ns) :
    Transducer.Follows (fun e : Event => inside e.pid)
      (fun σ τ => σ.activeCommand = τ.activeCommand ∧
        ∀ p, (taskTree root ns).Live p → inside p = true → σ.processes p = τ.processes p)
      (record root cwd rootCommand startNs ns)
      (record root cwd rootCommand startNs (notificationsOf root inside ns)) := by
  have hrun := Transducer.run_slice (fun e : Event => inside e.pid)
    (fun past n σ τ h admits hkept => h.kept admits hkept)
    (fun past n σ τ h admits hleft => h.left hroot admits hleft)
    (restricted_start cwd rootCommand startNs)
    (show Transducer.Legal (IsolationAdmits root inside) ([] ++ ns) from legal)
  have hfirst : (initialEvents root cwd rootCommand startNs).filter (fun e => inside e.pid) =
      initialEvents root cwd rootCommand startNs := by
    rw [initialEvents_eq]
    cases rootCommand <;> simp [commandStartEvent, hroot]
  unfold record notificationsOf
  dsimp only
  rw [← initialState, ← initialEvents]
  cases hwhole : Transducer.run notify (initialState root cwd rootCommand startNs) ns with
  | error e =>
      rw [hwhole] at hrun
      rw [show Transducer.run notify _ _ = .error e from hrun]
      rfl
  | ok r =>
      obtain ⟨τ, es⟩ := r
      rw [hwhole] at hrun
      obtain ⟨σ, hok, hlast⟩ := hrun
      refine ⟨σ, by simp [hok, Except.map, hfirst], hlast.restricted.active.symm, ?_⟩
      intro p hp' hp
      obtain ⟨tid, hlive⟩ := hp'
      obtain ⟨P, hP, -, hP'⟩ :=
        hlast.restricted.process p ⟨tid, TaskTree.owner_within.mpr ⟨hlive, hp⟩⟩
      exact hP.trans hP'.symm

/-! ### Two siblings -/

def sampleSiblings : List Notification :=
  [.created 7 8 ptraceEventFork 0 1, .created 7 9 ptraceEventFork 0 2,
    .exec 9 ⟨[], lit "/bin/ls"⟩ 3, .exec 8 ⟨[], lit "/bin/sh"⟩ 4]

theorem sampleSiblings_legal :
    Transducer.Legal (IsolationAdmits 7 fun p => p = 7 || p = 8) sampleSiblings := by
  simp only [sampleSiblings, Transducer.legal_cons_iff]
  refine ⟨⟨FreshAdmits.reuse ⟨⟨7, rfl⟩, fun tid htid => ?_⟩, ?_⟩,
    ⟨FreshAdmits.reuse ⟨⟨7, rfl⟩, fun tid htid => ?_⟩, ?_⟩,
    ⟨(FreshAdmits.of_live (p := 9) rfl fun _ => rfl).reuse, fun _ _ _ _ _ _ hn => by contradiction⟩,
    ⟨(FreshAdmits.of_live (p := 8) rfl fun _ => rfl).reuse, fun _ _ _ _ _ _ hn => by contradiction⟩,
    Transducer.legal_nil _⟩
  · obtain rfl : 8 = tid := by simpa [Notification.creates] using htid
    decide
  · intro parentTid child ev flags t p hn _ howner _
    cases hn
    obtain rfl := Option.some.inj (show some 7 = some p from howner)
    rfl
  · obtain rfl : 9 = tid := by simpa [Notification.creates] using htid
    decide
  · intro parentTid child ev flags t p hn _ howner _
    cases hn
    obtain rfl := Option.some.inj (show some 7 = some p from howner)
    rfl

/-- The exec of the process 9 does not show to the process 8. -/
theorem isolation_sample :
    notificationsOf 7 (fun p => p = 7 || p = 8) sampleSiblings =
      [.created 7 8 ptraceEventFork 0 1, .created 7 9 ptraceEventFork 0 2,
        .exec 8 ⟨[], lit "/bin/sh"⟩ 4] ∧
    Transducer.Follows (fun e : Event => e.pid = 7 || e.pid = 8)
      (fun σ τ : ExecutionState => σ.activeCommand = τ.activeCommand ∧
        ∀ p, (taskTree 7 sampleSiblings).Live p → (p = 7 || p = 8) = true →
          σ.processes p = τ.processes p)
      (record 7 (lit "/") none 0 sampleSiblings)
      (record 7 (lit "/") none 0
        (notificationsOf 7 (fun p => p = 7 || p = 8) sampleSiblings)) :=
  ⟨rfl, processes_isolated 7 (lit "/") none 0 (fun p => p = 7 || p = 8) rfl sampleSiblings
    sampleSiblings_legal⟩

end Whyrun
