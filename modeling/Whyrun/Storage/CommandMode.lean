import Whyrun.Execution.Attribution
import Whyrun.Storage.CommandLife

/-!
Runs in command mode: one command, started with the root and ended by its
exit. Every process of the tree has the command as long as its exit has not
been reported, so every event belongs to it.
-/

namespace Whyrun

open ByteText ExecutionState Relational CapsuleWriter

/-! ### Histories of command mode -/

/-- A notification comes from a task of a process whose exit has not been
reported (the exit of a leader is reported after those of its threads), the
root keeps its tid while it lives, and the clock does not go back. There is no
channel, hence no marker. -/
structure CommandModeAdmits (root : Pid) (past : List Notification) (n : Notification) :
    Prop where
  live : ∃ p, (taskTree root past).owner n.task = some p ∧ (taskTree root past).owner p = some p
  fresh : rootAlive root past = true → n.creates root = false
  unmarked : n.isMarker = false
  ordered : ∀ m ∈ past, asI64 m.timestampNs ≤ asI64 n.timestampNs

/-- The same, whatever the clock says. -/
structure CommandRunAdmits (root : Pid) (past : List Notification) (n : Notification) :
    Prop where
  live : ∃ p, (taskTree root past).owner n.task = some p ∧ (taskTree root past).owner p = some p
  fresh : rootAlive root past = true → n.creates root = false
  unmarked : n.isMarker = false

/-- The results of the exits reported under the pid of the root. -/
def rootExits (root : Pid) (ns : List Notification) : List Int32 :=
  ns.filterMap fun
    | .exited tid exitCode termSignal _ =>
        if tid = root then some (exitResult exitCode termSignal) else none
    | _ => none

variable {root : Pid} {past : List Notification} {n : Notification}
  {σ σ' : ExecutionState} {es : List Event}

theorem CommandModeAdmits.commandRun (h : CommandModeAdmits root past n) :
    CommandRunAdmits root past n :=
  ⟨h.live, h.fresh, h.unmarked⟩

theorem CommandRunAdmits.lifecycle (h : CommandRunAdmits root past n) :
    LifecycleAdmits root past n :=
  ⟨h.fresh, fun hmarker => by simp [h.unmarked] at hmarker⟩

@[simp] theorem rootExits_append (root : Pid) (ns ns' : List Notification) :
    rootExits root (ns ++ ns') = rootExits root ns ++ rootExits root ns' := by
  simp [rootExits]

theorem rootExits_singleton_of_not_exits (h : n.exits root = false) : rootExits root [n] = [] := by
  cases n with
  | exited tid code signal t => simpa [rootExits, Notification.exits] using h
  | marker | exec | created | syscall => rfl

theorem rootAlive_iff_rootExits {ns : List Notification} :
    rootAlive root ns = true ↔ rootExits root ns = [] := by
  induction ns using List.reverseRecOn with
  | nil => simp [rootExits]
  | append_singleton past n ih =>
      rw [rootAlive_append, rootAlive_singleton, Bool.and_eq_true, ih, rootExits_append,
        List.append_eq_nil_iff]
      refine and_congr_right fun _ => ?_
      cases n with
      | exited tid code signal t => simp [rootExits, Notification.exits]
      | marker | exec | created | syscall => simp [rootExits, Notification.exits]

/-! ### One notification -/

/-- The command of a process other than an armed root goes to its events. -/
theorem Effect.command_of_events (he : Effect σ n σ' es) (hunmarked : n.isMarker = false)
    {P : ProcessState} (hP : σ.processes (σ.processForThread n.task) = some P)
    {id : UInt64} (hid : P.commandId = some id) (harmed : σ.isArmed = false) {e : Event}
    (hmem : e ∈ es) :
    e.commandId = some id ∧ e.timestampNs = n.timestampNs ∧ e.type ≠ .commandStart := by
  have hattribution : ∀ Q, Q = P → σ.attribution Q = some id := by
    rintro Q rfl
    rw [attribution, if_neg (by simp [harmed]), hid]
  cases he with
  | markerIgnored | arm | createdUnknown | createdThread | exitedThread | exitedUnknown
    | syscallUnknown => contradiction
  | start | stop => contradiction
  | @exec tid links t Q found =>
      obtain rfl : Q = P := Option.some.inj (found.symm.trans hP)
      obtain rfl := List.mem_singleton.mp hmem
      exact ⟨hattribution Q rfl, rfl, fun h => by contradiction⟩
  | execDiscovered unknown =>
      rw [Notification.task, unknown] at hP
      contradiction
  | @createdProcess parentTid childTid ev flags t Q found =>
      obtain rfl : Q = P := Option.some.inj (found.symm.trans hP)
      obtain rfl := List.mem_singleton.mp hmem
      exact ⟨hid, rfl, fun h => by contradiction⟩
  | @exited tid code signal t Q leader found | @exitedIdle tid code signal t Q leader found =>
      rw [Notification.task, leader] at hP
      obtain rfl : Q = P := Option.some.inj (found.symm.trans hP)
      obtain rfl := List.mem_singleton.mp hmem
      exact ⟨hattribution Q rfl, rfl, fun h => by contradiction⟩
  | @exitedRunning tid code signal t Q id' leader found root started held =>
      rw [Notification.task, leader] at hP
      obtain rfl : Q = P := Option.some.inj (found.symm.trans hP)
      simp only [List.mem_cons, List.not_mem_nil, or_false] at hmem
      rcases hmem with rfl | rfl
      · exact ⟨hattribution Q rfl, rfl, fun h => by contradiction⟩
      · exact ⟨held.symm.trans hid, rfl, fun h => by contradiction⟩
  | @syscall memory call Q found =>
      obtain rfl : Q = P := Option.some.inj (found.symm.trans hP)
      obtain ⟨raw, hraw, rfl⟩ := List.mem_map.mp hmem
      obtain ⟨type, resource, metadata, hio, rfl⟩ :=
        (syscallExit_spec memory Q call).event raw (Option.mem_toList.mp hraw)
      refine ⟨hattribution Q rfl, rfl, ?_⟩
      rintro rfl
      contradiction

/-- The root that exits in its command ends the command. -/
theorem Effect.end_of_root (he : Effect σ n σ' es) (hexits : n.exits σ.rootPid = true)
    (hleader : σ.processForThread σ.rootPid = σ.rootPid) (hstarted : σ.isStarted = true)
    {P : ProcessState} (hP : σ.processes σ.rootPid = some P) (hpid : P.pid = σ.rootPid)
    {id : UInt64} (hid : P.commandId = some id) :
    ∃ code signal t, n = .exited σ.rootPid code signal t ∧
      es.filter Event.isCommandMark = [commandEndEvent σ.rootPid σ.rootPid (some id)
        (exitResult code signal) P.cwd t] := by
  obtain ⟨code, signal, t, rfl⟩ : ∃ code signal t, n = .exited σ.rootPid code signal t := by
    cases n with
    | exited tid code signal t =>
        obtain rfl : tid = σ.rootPid := by simpa [Notification.exits] using hexits
        exact ⟨code, signal, t, rfl⟩
    | marker | exec | created | syscall => contradiction
  cases he with
  | exitedThread thread => exact absurd hleader thread
  | exitedUnknown leader unknown =>
      rw [hP] at unknown
      contradiction
  | @exited _ _ _ _ Q leader found notRoot =>
      obtain rfl : Q = P := Option.some.inj (found.symm.trans hP)
      exact absurd hpid notRoot
  | @exitedRunning _ _ _ _ Q id' leader found root started held =>
      obtain rfl : Q = P := Option.some.inj (found.symm.trans hP)
      obtain rfl : id' = id := Option.some.inj (held.symm.trans hid)
      refine ⟨code, signal, t, rfl, ?_⟩
      rw [hpid]
      rfl
  | @exitedIdle _ _ _ _ Q leader found root idle =>
      obtain rfl : Q = P := Option.some.inj (found.symm.trans hP)
      rw [idle hstarted] at hid
      contradiction

/-- No other notification of command mode is a command event. -/
theorem Effect.no_marks (he : Effect σ n σ' es) (hunmarked : n.isMarker = false)
    (hkeyed : σ.Keyed) (hother : n.exits σ.rootPid = false ∨ σ.isStarted = false) :
    es.filter Event.isCommandMark = [] := by
  cases he with
  | markerIgnored | createdUnknown | createdThread | exitedThread | exitedUnknown
    | syscallUnknown => rfl
  | arm | start | stop => contradiction
  | exec | execDiscovered | createdProcess | exited | exitedIdle => rfl
  | @exitedRunning tid code signal t P id leader found root started held =>
      have htid : tid = σ.rootPid := (hkeyed tid P found).symm.trans root
      rcases hother with hother | hidle
      · simp [Notification.exits, htid] at hother
      · rw [started] at hidle
        contradiction
  | @syscall memory call P found => exact List.map_eq_nil_iff.mp (marks_syscall σ memory P call)

/-! ### Runs -/

theorem isArmed_noteFirstProcess (σ : ExecutionState) (p : Pid) (t : UInt64) :
    (σ.noteFirstProcess p t).isArmed = σ.isArmed := by
  unfold noteFirstProcess
  split
  · rfl
  · rename_i a ha
    split <;> simp [isArmed, ha]

/-- The state of a run in command mode: tasks and processes of the tree are
known, every process that has not exited has the command, and the active
command has started. -/
structure CommandState (root : Pid) (past : List Notification) (σ : ExecutionState) : Prop where
  threads : ∀ tid p, (taskTree root past).owner tid = some p → σ.threadToProcess tid = some p
  processes : ∀ p, (taskTree root past).owner p = some p →
    ∃ P, σ.processes p = some P ∧ P.commandId = some 1
  unarmed : σ.isArmed = false
  leader : rootAlive root past = true → (taskTree root past).owner root = some root

section runs

variable {cwd text : Bytes} {startNs : UInt64}

theorem commandState_initial :
    CommandState root [] (initialState root cwd (some text) startNs) := by
  refine ⟨fun tid p howner => ?_, fun p howner => ?_, ?_, fun _ => ?_⟩
  · obtain ⟨rfl, rfl⟩ := TaskTree.owner_initial howner
    simp [initialState_threadToProcess]
  · obtain ⟨rfl, -⟩ := TaskTree.owner_initial howner
    exact ⟨_, by rw [initialState_processes, if_pos rfl], rfl⟩
  · simp [isArmed, initialState_activeCommand]
  · simp [taskTree, TaskTree.initial]

/-- The process of a notification. -/
theorem CommandState.found (h : CommandState root past σ)
    (admits : CommandRunAdmits root past n) :
    ∃ p P, (taskTree root past).owner n.task = some p ∧ σ.processForThread n.task = p ∧
      σ.processes p = some P ∧ P.commandId = some 1 := by
  obtain ⟨p, htask, hleader⟩ := admits.live
  obtain ⟨P, hP, hid⟩ := h.processes p hleader
  exact ⟨p, P, htask, by rw [processForThread, h.threads _ _ htask, Option.getD_some], hP, hid⟩

theorem CommandState.next (h : CommandState root past σ) (hkeyed : σ.Keyed)
    (admits : CommandRunAdmits root past n) (he : Effect σ n σ' es) :
    CommandState root (past ++ [n]) σ' := by
  obtain ⟨p, Q, htask, hkey, hQ, hid⟩ := h.found admits
  have hpid : Q.pid = p := hkeyed p Q hQ
  have hknown : Known σ n := ⟨Q, by rw [hkey, hQ]⟩
  refine ⟨he.threads_next hkeyed h.threads htask hkey hQ, fun q howner => ?_, ?_,
    fun halive => ?_⟩
  · rw [taskTree_snoc] at howner
    -- a process that is still there keeps its command
    have hkept : ∀ {key : Pid} {P P' : ProcessState}, σ.processes key = some P →
        P'.commandId = P.commandId → (taskTree root past).owner q = some q →
        ∃ R, (σ.setProcess key P').processes q = some R ∧ R.commandId = some 1 := by
      intro key P P' found hsame hq
      obtain ⟨R, hR, hRid⟩ := h.processes q hq
      obtain ⟨R', hR', hsame'⟩ := command_of_setProcess found hR fun _ => hsame
      exact ⟨R', hR', hsame'.trans hRid⟩
    cases he with
    | arm | start | stop =>
        have := admits.unmarked
        contradiction
    | markerIgnored | syscallUnknown => exact h.processes q howner
    | createdUnknown unknown | execDiscovered unknown =>
        rw [Notification.task] at hkey
        rw [hkey, hQ] at unknown
        contradiction
    | exec found => exact hkept found rfl howner
    | @syscall memory call P found =>
        exact hkept found (syscallExit_spec memory P call).identity.commandId howner
    | @createdThread parentTid childTid ev flags t P found thread =>
        simp only [Notification.task] at htask
        simp only [TaskTree.next, htask, thread, if_true] at howner
        by_cases hchild : q = childTid
        · subst hchild
          obtain rfl : p = q := by simpa using howner
          exact ⟨Q, hQ, hid⟩
        · rw [Function.update_of_ne hchild] at howner
          exact h.processes q howner
    | @createdProcess parentTid childTid ev flags t P found process =>
        simp only [Notification.task] at htask hkey
        rw [hkey, hQ, Option.some.injEq] at found
        subst found
        simp only [TaskTree.next, htask, process, Bool.false_eq_true, if_false] at howner
        by_cases hchild : q = childTid
        · exact ⟨{ Q with pid := childTid, parentPid := Q.pid }, by simp [hchild], hid⟩
        · rw [Function.update_of_ne hchild] at howner
          obtain ⟨R, hR, hRid⟩ := h.processes q howner
          exact ⟨R, by simp [hchild, hR], hRid⟩
    | exitedThread | exitedUnknown =>
        obtain ⟨-, hq⟩ := TaskTree.owner_of_exit howner
        exact h.processes q hq
    | exited | exitedRunning | exitedIdle =>
        obtain ⟨hne, hq⟩ := TaskTree.owner_of_exit howner
        obtain ⟨R, hR, hRid⟩ := h.processes q hq
        exact ⟨R, by simp [hne, hR], hRid⟩
  · cases he with
    | arm | start | stop =>
        have := admits.unmarked
        contradiction
    | createdProcess =>
        rw [isArmed_noteFirstProcess]
        exact h.unarmed
    | exitedRunning | exitedIdle => rfl
    | markerIgnored | exec | execDiscovered | createdUnknown | createdThread | exitedThread
      | exitedUnknown | exited | syscallUnknown | syscall => exact h.unarmed
  · simp only [rootAlive_append, rootAlive_singleton, Bool.and_eq_true,
      Bool.not_eq_true'] at halive
    rw [taskTree_snoc, TaskTree.owner_next_of_other _ (admits.fresh halive.1) halive.2,
      h.leader halive.1]

/-- The events of a run in command mode after the start of the command. -/
structure CommandLog (root : Pid) (past : List Notification) (out : List Event) : Prop where
  ids : ∀ e ∈ out, e.commandId = some 1
  started : startedIds out = []
  times : ∀ e ∈ out, ∃ m ∈ past, e.timestampNs = m.timestampNs
  ordered : out.Pairwise fun a b => asI64 a.timestampNs ≤ asI64 b.timestampNs
  /-- The row of the command gets the result of the root's first exit. -/
  row : ∀ row : CommandRow, row.exitCode = none → ∃ row',
    out.foldl (rowAfter 1) (some row) = some row' ∧
      row'.exitCode = (rootExits root past).head?.map Int32.toInt

theorem commandLog_nil : CommandLog root [] [] where
  ids := by simp
  started := rfl
  times := by simp
  ordered := .nil
  row row hrow := ⟨row, rfl, by simpa [rootExits] using hrow⟩

/-- The row of the command after one notification. -/
theorem CommandLog.row_next {first out : List Event} (h : CommandLog root past out)
    (hstate : CommandState root past σ) (hinv : LifecycleInv root first past σ out)
    (admits : CommandModeAdmits root past n) (he : Effect σ n σ' es) (row : CommandRow)
    (hrow : row.exitCode = none) : ∃ row',
      (out ++ es).foldl (rowAfter 1) (some row) = some row' ∧
        row'.exitCode = (rootExits root (past ++ [n])).head?.map Int32.toInt := by
  obtain ⟨row', hfold, hexit⟩ := h.row row hrow
  rw [List.foldl_append, hfold, foldl_rowAfter_filter, rootExits_append]
  have hquiet : n.exits σ.rootPid = false ∨ σ.isStarted = false →
      (rootExits root past ++ rootExits root [n]).head? = (rootExits root past).head? →
      ∃ row'', (es.filter Event.isCommandMark).foldl (rowAfter 1) (some row') = some row'' ∧
        row''.exitCode =
          (rootExits root past ++ rootExits root [n]).head?.map Int32.toInt := by
    intro hother hsame
    rw [he.no_marks admits.unmarked hinv.keyed hother, hsame]
    exact ⟨row', rfl, hexit⟩
  cases halive : rootAlive root past with
  | false =>
      -- after the root's exit no command is active
      refine hquiet (.inr ?_) ?_
      · simp [isStarted, hinv.dead halive]
      · have hexited : rootExits root past ≠ [] := fun hnone => by
          rw [rootAlive_iff_rootExits.mpr hnone] at halive
          contradiction
        rw [List.head?_append_of_ne_nil _ hexited]
  | true =>
      have hnone := rootAlive_iff_rootExits.mp halive
      cases hexits : n.exits root with
      | false =>
          refine hquiet (.inl (by rw [hinv.rootPid, hexits])) ?_
          rw [rootExits_singleton_of_not_exits hexits, List.append_nil]
      | true =>
          obtain ⟨P, hP, hid⟩ := hstate.processes root (hstate.leader halive)
          have hholds := hinv.alive halive
          obtain ⟨Q, hQ, hheld⟩ := hholds.held
          rw [hinv.rootPid] at hQ
          obtain rfl : Q = P := Option.some.inj (hQ.symm.trans hP)
          have hstarted : σ.isStarted = true := by
            have hunarmed := hstate.unarmed
            rw [hid] at hheld
            cases hactive : σ.activeCommand with
            | none => simp [hactive] at hheld
            | some a => simpa [isArmed, isStarted, hactive] using hunarmed
          obtain ⟨code, signal, t, rfl, hend⟩ := he.end_of_root (by rw [hinv.rootPid, hexits])
            hholds.leader_eq hstarted (by rw [hinv.rootPid, hP])
            (by rw [hinv.rootPid, hinv.keyed _ _ hP]) hid
          rw [hend, hnone, hinv.rootPid]
          refine ⟨endRow _ row', rfl, ?_⟩
          simp [rootExits, endRow, commandEndEvent]

theorem CommandLog.next {first out : List Event} (h : CommandLog root past out)
    (hstate : CommandState root past σ) (hinv : LifecycleInv root first past σ out)
    (admits : CommandModeAdmits root past n) (he : Effect σ n σ' es) :
    CommandLog root (past ++ [n]) (out ++ es) := by
  obtain ⟨p, P, -, hkey, hP, hid⟩ := hstate.found admits.commandRun
  have hevents : ∀ e ∈ es, e.commandId = some 1 ∧ e.timestampNs = n.timestampNs ∧
      e.type ≠ .commandStart := fun e hmem =>
    he.command_of_events admits.unmarked (by rw [hkey, hP]) hid hstate.unarmed hmem
  refine ⟨fun e hmem => ?_, ?_, fun e hmem => ?_, ?_,
    fun row hrow => h.row_next hstate hinv admits he row hrow⟩
  · rcases List.mem_append.mp hmem with hmem | hmem
    · exact h.ids e hmem
    · exact (hevents e hmem).1
  · rw [startedIds_append, h.started, List.nil_append, startedIds, List.filterMap_eq_nil_iff]
    intro e hmem
    rw [if_neg (hevents e hmem).2.2]
  · rcases List.mem_append.mp hmem with hmem | hmem
    · obtain ⟨m, hm, htime⟩ := h.times e hmem
      exact ⟨m, List.mem_append_left _ hm, htime⟩
    · exact ⟨n, by simp, (hevents e hmem).2.1⟩
  · rw [List.pairwise_append]
    refine ⟨h.ordered, List.pairwise_of_forall_mem_list fun a ha b hb => ?_, fun a ha b hb => ?_⟩
    · rw [(hevents a ha).2.1, (hevents b hb).2.1]
    · obtain ⟨m, hm, htime⟩ := h.times a ha
      rw [htime, (hevents b hb).2.1]
      exact admits.ordered m hm

theorem legal_lifecycle_of_commandRun {ns : List Notification}
    (legal : Transducer.Legal (CommandRunAdmits root) ns) :
    Transducer.Legal (LifecycleAdmits root) ns := by
  rintro past n rest rfl
  exact (legal past n rest rfl).lifecycle

theorem commandState_run {ns : List Notification} {out : List Event}
    (legal : Transducer.Legal (CommandRunAdmits root) ns)
    (hrun : Transducer.run notify (initialState root cwd (some text) startNs) ns =
      .ok (σ, out)) : CommandState root ns σ := by
  refine Transducer.run_induction (motive := fun past σ _ => CommandState root past σ)
    commandState_initial ?_ legal.history hrun
  rintro past σ out n σ' o hrun hstate ⟨hlegal, hadmits⟩ hstep
  have hkeyed := (lifecycle_run (legal_lifecycle_of_commandRun hlegal) hrun).keyed
  exact hstate.next hkeyed hadmits (notify_effect hstep)

theorem legal_commandRun {ns : List Notification}
    (legal : Transducer.Legal (CommandModeAdmits root) ns) :
    Transducer.Legal (CommandRunAdmits root) ns := by
  rintro past n rest rfl
  exact (legal past n rest rfl).commandRun

theorem commandLog_run {ns : List Notification} {out : List Event}
    (legal : Transducer.Legal (CommandModeAdmits root) ns)
    (hrun : Transducer.run notify (initialState root cwd (some text) startNs) ns =
      .ok (σ, out)) : CommandLog root ns out := by
  refine Transducer.run_induction (motive := fun past _ out => CommandLog root past out)
    commandLog_nil ?_ legal.history hrun
  rintro past σ out n σ' o hrun hlog ⟨hlegal, hadmits⟩ hstep
  have hrunLegal := legal_commandRun hlegal
  have hinv := lifecycle_run (legal_lifecycle_of_commandRun hrunLegal) hrun
  exact hlog.next (commandState_run hrunLegal hrun) hinv hadmits (notify_effect hstep)

end runs

end Whyrun
