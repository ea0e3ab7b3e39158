import Whyrun.Execution.Runs
import Whyrun.Library.Traces

/-!
The tasks of a history, told apart from the tables of the execution state:
to which process each live task belongs, and for each process the moment at
which the root forked the direct child that it is or descends from. The
tables of the execution state follow this tree.
-/

namespace Whyrun

open ByteText ExecutionState

/-! ### The tree of a history -/

structure TaskTree where
  /-- The process of a live task. -/
  owner : Pid → Option Pid
  /-- What had been reported before the root forked the direct child that the
  process is or descends from; `none` for the root process itself. -/
  launch : Pid → Option (List Notification)

namespace TaskTree

def initial (root : Pid) : TaskTree where
  owner := Function.update (fun _ => none) root (some root)
  launch _ := none

def next (past : List Notification) (tree : TaskTree) : Notification → TaskTree
  | .created parentTid childTid ptraceEvent cloneFlags _ =>
      match tree.owner parentTid with
      | none => tree
      | some parent =>
          if isThreadCreation ptraceEvent cloneFlags then
            { tree with owner := Function.update tree.owner childTid (some parent) }
          else
            { owner := Function.update tree.owner childTid (some childTid)
              launch := Function.update tree.launch childTid
                (some ((tree.launch parent).getD past)) }
  | .exited tid _ _ _ => { tree with owner := Function.update tree.owner tid none }
  | _ => tree

/-- The process has a live task. -/
def Live (tree : TaskTree) (p : Pid) : Prop := ∃ tid, tree.owner tid = some p

end TaskTree

/-- The tree after a history. -/
def taskTree (root : Pid) (ns : List Notification) : TaskTree :=
  (ns.foldl (fun r n => (r.1 ++ [n], r.2.next r.1 n)) ([], TaskTree.initial root)).2

theorem taskTree_snoc (root : Pid) (past : List Notification) (n : Notification) :
    taskTree root (past ++ [n]) = (taskTree root past).next past n :=
  Traces.foldl_history_snoc TaskTree.next _ past n

/-- A notification comes from a live task, whose creation was therefore
reported before; a new task never gets the pid of a live process; markers
come only while the root lives. -/
structure TreeAdmits (root : Pid) (past : List Notification) (n : Notification) : Prop where
  live : ∃ p, (taskTree root past).owner n.task = some p
  fresh : ∀ p, (taskTree root past).Live p → n.creates p = false
  marker : n.isMarker = true → rootAlive root past = true

theorem TaskTree.owner_initial {root tid p : Pid}
    (h : (TaskTree.initial root).owner tid = some p) : tid = root ∧ p = root := by
  by_cases htid : tid = root
  · subst htid
    exact ⟨rfl, by simpa [TaskTree.initial, eq_comm] using h⟩
  · simp [TaskTree.initial, Function.update_of_ne htid] at h

/-- While the root is the only process, it can fork any other pid. -/
theorem TreeAdmits.of_sole {root child : Pid} {past : List Notification} {ev : UInt32}
    {flags t : UInt64} (hroot : (taskTree root past).owner root = some root)
    (hsole : ∀ tid p, (taskTree root past).owner tid = some p → p = root)
    (hchild : child ≠ root) : TreeAdmits root past (.created root child ev flags t) where
  live := ⟨root, hroot⟩
  fresh p hlive := by
    obtain ⟨tid, htid⟩ := hlive
    rw [hsole tid p htid]
    simp [Notification.creates, hchild]
  marker := nofun

/-- A task that is there after an exit is another one. -/
theorem TaskTree.owner_of_exit {past : List Notification} {tree : TaskTree} {tid q p : Pid}
    {code signal : Int32} {t : UInt64}
    (h : (tree.next past (.exited tid code signal t)).owner q = some p) :
    q ≠ tid ∧ tree.owner q = some p := by
  by_cases hq : q = tid
  · subst hq
    simp [TaskTree.next] at h
  · exact ⟨hq, by simpa [TaskTree.next, Function.update_of_ne hq] using h⟩

/-- What a process of the tree after a notification was before it. -/
theorem live_next {past : List Notification} {tree : TaskTree} {n : Notification} {p : Pid}
    (h : (tree.next past n).Live p) :
    tree.Live p ∨
      ∃ parentTid parent ev flags t, n = .created parentTid p ev flags t ∧
        tree.owner parentTid = some parent ∧ isThreadCreation ev flags = false ∧
        (tree.next past n).launch p = some ((tree.launch parent).getD past) := by
  obtain ⟨tid, htid⟩ := h
  cases n with
  | created parentTid childTid ev flags t =>
      simp only [TaskTree.next] at htid ⊢
      cases hparent : tree.owner parentTid with
      | none =>
          simp only [hparent] at htid
          exact .inl ⟨tid, htid⟩
      | some parent =>
          simp only [hparent] at htid
          by_cases hthread : isThreadCreation ev flags = true
          · simp only [hthread, if_true] at htid
            apply Or.inl
            by_cases hchild : tid = childTid
            · subst hchild
              rw [Function.update_self] at htid
              exact ⟨parentTid, hparent.trans htid⟩
            · rw [Function.update_of_ne hchild] at htid
              exact ⟨tid, htid⟩
          · simp only [hthread, Bool.false_eq_true, if_false] at htid ⊢
            by_cases hchild : tid = childTid
            · subst hchild
              rw [Function.update_self] at htid
              obtain rfl := Option.some.inj htid
              exact .inr ⟨parentTid, parent, ev, flags, t, rfl, hparent,
                by simpa using hthread, by simp⟩
            · rw [Function.update_of_ne hchild] at htid
              exact .inl ⟨tid, htid⟩
  | exited => exact .inl ⟨tid, (TaskTree.owner_of_exit htid).2⟩
  | marker | exec | syscall => exact .inl ⟨tid, htid⟩

/-- Creations and exits of other tasks leave a task alone. -/
theorem TaskTree.owner_next_of_other {past : List Notification} {n : Notification}
    (tree : TaskTree) {tid : Pid} (hcreate : n.creates tid = false) (hexit : n.exits tid = false) :
    (tree.next past n).owner tid = tree.owner tid := by
  cases n with
  | created parentTid childTid ev flags t =>
      have hne : tid ≠ childTid := by
        rintro rfl
        simp [Notification.creates] at hcreate
      simp only [TaskTree.next]
      repeat' split
      all_goals simp [Function.update_of_ne hne]
  | exited t code signal ts =>
      have hne : tid ≠ t := by
        rintro rfl
        simp [Notification.exits] at hexit
      simp [TaskTree.next, Function.update_of_ne hne]
  | marker | exec | syscall => rfl

/-- Only its own creation launches a process. -/
theorem TaskTree.launch_next {past : List Notification} {n : Notification} (tree : TaskTree)
    {p : Pid} (hcreate : n.creates p = false) : (tree.next past n).launch p = tree.launch p := by
  cases n with
  | created parentTid childTid ev flags t =>
      have hne : p ≠ childTid := by
        rintro rfl
        simp [Notification.creates] at hcreate
      simp only [TaskTree.next]
      repeat' split
      all_goals simp [Function.update_of_ne hne]
  | exited | marker | exec | syscall => rfl

/-- A launched process has been created. -/
theorem created_of_launch {root p : Pid} {ns l : List Notification}
    (h : (taskTree root ns).launch p = some l) : ∃ m ∈ ns, m.creates p = true := by
  induction ns using List.reverseRecOn with
  | nil => contradiction
  | append_singleton past n ih =>
      rw [taskTree_snoc] at h
      cases hcreates : n.creates p with
      | true => exact ⟨n, by simp, hcreates⟩
      | false =>
          rw [TaskTree.launch_next _ hcreates] at h
          obtain ⟨m, hm, hcreated⟩ := ih h
          exact ⟨m, by simp [hm], hcreated⟩

/-- The live root owns itself and is the only process without a launch. -/
theorem root_owner {root : Pid} {ns : List Notification}
    (legal : Transducer.Legal (TreeAdmits root) ns) (halive : rootAlive root ns = true) :
    (taskTree root ns).owner root = some root ∧ (taskTree root ns).launch root = none := by
  induction ns using List.reverseRecOn with
  | nil => simp [taskTree, TaskTree.initial]
  | append_singleton past n ih =>
      simp only [rootAlive_append, rootAlive_singleton, Bool.and_eq_true,
        Bool.not_eq_true'] at halive
      obtain ⟨howner, hlaunch⟩ := ih legal.init halive.1
      have hfresh := legal.last.fresh root ⟨root, howner⟩
      rw [taskTree_snoc]
      constructor
      · rw [TaskTree.owner_next_of_other _ hfresh halive.2, howner]
      · rw [TaskTree.launch_next _ hfresh, hlaunch]

theorem eq_root_of_launch {root p : Pid} {ns : List Notification}
    (legal : Transducer.Legal (TreeAdmits root) ns) (hlive : (taskTree root ns).Live p)
    (hlaunch : (taskTree root ns).launch p = none) : p = root := by
  induction ns using List.reverseRecOn with
  | nil =>
      obtain ⟨tid, htid⟩ := hlive
      exact (TaskTree.owner_initial htid).2
  | append_singleton past n ih =>
      rw [taskTree_snoc] at hlive hlaunch
      rcases live_next hlive with hpast | ⟨_, _, _, _, _, _, _, _, hsome⟩
      · rw [TaskTree.launch_next _ (legal.last.fresh p hpast)] at hlaunch
        exact ih legal.init hpast hlaunch
      · rw [hlaunch] at hsome
        contradiction

theorem TreeAdmits.lifecycle {root : Pid} {past : List Notification} {n : Notification}
    (legal : Transducer.Legal (TreeAdmits root) past) (h : TreeAdmits root past n) :
    LifecycleAdmits root past n :=
  ⟨fun halive => h.fresh root ⟨root, (root_owner legal halive).1⟩, h.marker⟩

theorem legal_lifecycle {root : Pid} {ns : List Notification}
    (legal : Transducer.Legal (TreeAdmits root) ns) :
    Transducer.Legal (LifecycleAdmits root) ns := by
  rintro past n rest rfl
  exact (legal past n rest rfl).lifecycle legal.of_append

/-- The launch of a process is the history before a fork by the root. -/
theorem launch_eq_fork {root : Pid} {ns l : List Notification} {p : Pid}
    (legal : Transducer.Legal (TreeAdmits root) ns) (h : (taskTree root ns).launch p = some l) :
    ∃ forker child ev flags t rest, ns = l ++ .created forker child ev flags t :: rest ∧
      isThreadCreation ev flags = false ∧ (taskTree root l).owner forker = some root := by
  induction ns using List.reverseRecOn generalizing p with
  | nil => simp [taskTree, TaskTree.initial] at h
  | append_singleton past n ih =>
      rw [taskTree_snoc] at h
      have hpast : (taskTree root past).launch p = some l → ∃ forker child ev flags t rest,
          past ++ [n] = l ++ .created forker child ev flags t :: rest ∧
          isThreadCreation ev flags = false ∧ (taskTree root l).owner forker = some root := by
        intro hlaunch
        obtain ⟨forker, child, ev, flags, t, rest, rfl, hfork⟩ := ih legal.init hlaunch
        exact ⟨forker, child, ev, flags, t, rest ++ [n], by simp, hfork⟩
      cases n with
      | created parentTid childTid ev flags t =>
          simp only [TaskTree.next] at h
          cases hparent : (taskTree root past).owner parentTid with
          | none => exact hpast (by simpa [hparent] using h)
          | some parent =>
              by_cases hthread : isThreadCreation ev flags = true
              · exact hpast (by simpa [hparent, hthread] using h)
              · simp only [hparent, hthread, Bool.false_eq_true, if_false] at h
                by_cases hchild : p = childTid
                · subst hchild
                  rw [Function.update_self, Option.some.injEq] at h
                  cases hlaunch : (taskTree root past).launch parent with
                  | none =>
                      obtain rfl : past = l := by simpa [hlaunch] using h
                      obtain rfl := eq_root_of_launch legal.init ⟨_, hparent⟩ hlaunch
                      exact ⟨parentTid, p, ev, flags, t, [], rfl, by simpa using hthread,
                        hparent⟩
                  | some l' =>
                      obtain rfl : l' = l := by simpa [hlaunch] using h
                      obtain ⟨forker, child, ev', flags', t', rest, rfl, hfork⟩ :=
                        ih legal.init hlaunch
                      exact ⟨forker, child, ev', flags', t',
                        rest ++ [.created parentTid p ev flags t], by simp, hfork⟩
                · rw [Function.update_of_ne hchild] at h
                  exact hpast h
      | exited | marker | exec | syscall => exact hpast h

end Whyrun
