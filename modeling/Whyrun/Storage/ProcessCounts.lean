import Whyrun.Execution.ReusedPids
import Whyrun.Storage.Aggregation
import Whyrun.Storage.CommandMode
import Whyrun.Storage.ProcessTable

/-!
The two process counts of `show`. Under `--command` it counts the pids of the
exec rows of the command, else the rows of the processes table, which a fork
makes as well. Both are compared with the processes that the command has: those
with an event of the command and those that were created for it.
-/

namespace Whyrun

open ByteText Relational ExecutionState CapsuleWriter

/-! ### The processes of a command -/

/-- The child that a fork reports. -/
def Event.child (e : Event) : Option Pid :=
  if e.type = .processFork then some e.result.toInt32 else none

/-- The processes that an event is about: its own, and the one it creates. -/
def Event.concerns (e : Event) : List Pid := e.pid :: e.child.toList

/-- The processes that have events of the command or were created for it. -/
def processesOf (c : UInt64) (es : List Event) : Finset Pid :=
  ((es.filter fun e => e.commandId = some c).flatMap Event.concerns).toFinset

/-- The processes that have exec events of the command. -/
def execsOf (c : UInt64) (es : List Event) : Finset Pid :=
  ((es.filter fun e => e.type = .processExec && e.commandId = some c).map Event.pid).toFinset

/-- The process for which an event makes a row. -/
def Event.tabled (e : Event) : Option Pid :=
  if e.type = .processExec then some e.pid else e.child

/-- The processes that have a row. -/
def tabledIn (es : List Event) : Finset Pid := (es.filterMap Event.tabled).toFinset

theorem mem_tabledIn {es : List Event} {p : Pid} :
    p ∈ tabledIn es ↔ ∃ e ∈ es, e.tabled = some p := by
  simp [tabledIn]

theorem mem_processesOf {c : UInt64} {es : List Event} {p : Pid} :
    p ∈ processesOf c es ↔ ∃ e ∈ es, e.commandId = some c ∧ p ∈ e.concerns := by
  simp [processesOf, and_assoc]

theorem mem_execsOf {c : UInt64} {es : List Event} {p : Pid} :
    p ∈ execsOf c es ↔ ∃ e ∈ es, e.type = .processExec ∧ e.commandId = some c ∧ e.pid = p := by
  simp [execsOf, and_assoc]

theorem execsOf_subset (c : UInt64) (es : List Event) : execsOf c es ⊆ processesOf c es := by
  intro p hp
  obtain ⟨e, he, -, hid, rfl⟩ := mem_execsOf.mp hp
  exact mem_processesOf.mpr ⟨e, he, hid, List.mem_cons_self⟩

theorem child_forkEvent (P : ProcessState) (parentTid child : Pid) (ev : UInt32) (t : UInt64) :
    (forkEvent P parentTid child ev t).child = some child := by
  simp [Event.child, forkEvent]

theorem Event.child_eq_none {e : Event} (h : e.type ≠ .processFork) : e.child = none := if_neg h

theorem int32_toInt_injective : Function.Injective Int32.toInt :=
  fun _ _ h => Int32.toInt_inj.mp h

/-! ### The count under a command -/

section storage

variable {run : RunMetadata} {capsule : Capsule} {es : List Event}

/-- `show --command` counts the processes that have exec events. -/
theorem processCount_command (hstore : emitAll (create run) es = .ok capsule) (c : UInt64) :
    processCount capsule (some (asI64 c)) = (execsOf c es).card := by
  have hrows : (rowsOfType capsule .processExec (some (asI64 c))).map EventRow.pid =
      ((es.filter fun e => e.type = .processExec && e.commandId = some c).map Event.pid).map
        Int32.toInt := by
    rw [rowsOfType, events_recording hstore, List.map_map]
    refine map_filter_eventRows (fun i e => congrArg₂ and ?_ ?_) (fun _ _ => rfl) 0 es
    · exact decide_eq_decide.mpr eventTypeName_inj
    · refine decide_eq_decide.mpr ?_
      rw [show (eventRow i e).commandId = e.commandId.map asI64 from rfl, ← Option.map_some]
      exact (Option.map_injective asI64_injective).eq_iff
  have himage : ((rowsOfType capsule .processExec (some (asI64 c))).map EventRow.pid).toFinset =
      (execsOf c es).image Int32.toInt := by
    rw [hrows]
    ext k
    simp [execsOf]
  rw [processCount, ← List.card_toFinset, himage]
  exact Finset.card_image_of_injective _ int32_toInt_injective

/-! ### The count of a whole run -/

/-- An event adds the key of the process that it tables, and no other. -/
def Event.Tables (e : Event) : Prop :=
  ∀ processes processes', processesAfter processes e = .ok processes' → ∀ k,
    k ∈ processes'.keys ↔ k ∈ processes.keys ∨ ∃ p, e.tabled = some p ∧ p.toInt = k

theorem tables_of_silent {e : Event} (h : e.type.isLife = false) : e.Tables := by
  intro processes processes' hstore k
  rw [processesAfter_silent h, Except.ok.injEq] at hstore
  subst hstore
  have hnone : e.tabled = none := by
    unfold Event.tabled Event.child
    cases htype : e.type <;> simp_all [EventType.isLife]
  simp [hnone]

theorem tables_exec (P : ProcessState) (tid : Pid) (exe : Bytes) (t : UInt64)
    (c : Option UInt64) : Event.Tables { execEvent P tid exe t with commandId := c } := by
  intro processes processes' hstore k
  rw [processesAfter_exec, Except.ok.injEq] at hstore
  subst hstore
  rw [Table.mem_keys_iff_lookup, Table.mem_keys_iff_lookup, Table.lookup_upsert]
  by_cases hk : k = P.pid.toInt
  · subst hk
    simp [Event.tabled, execEvent]
  · simp [Event.tabled, execEvent, hk, Ne.symm hk]

theorem tables_fork (P : ProcessState) (parentTid child : Pid) (ev : UInt32) (t : UInt64) :
    (forkEvent P parentTid child ev t).Tables := by
  intro processes processes' hstore k
  rw [processesAfter_fork, Except.ok.injEq] at hstore
  subst hstore
  have htabled : (forkEvent P parentTid child ev t).tabled = some child :=
    (if_neg (by simp [forkEvent])).trans (child_forkEvent P parentTid child ev t)
  rw [Table.mem_keys_iff_lookup, Table.mem_keys_iff_lookup, Table.lookup_insertOrIgnore, htabled]
  by_cases hk : k = child.toInt
  · subst hk
    simp
  · simp [hk, Ne.symm hk]

theorem tables_exit (P : ProcessState) (tid : Pid) (code signal : Int32) (t : UInt64)
    (c : Option UInt64) : Event.Tables { exitEvent P tid code signal t with commandId := c } := by
  intro processes processes' hstore k
  rw [processesAfter_exit, Except.ok.injEq] at hstore
  subst hstore
  rw [Table.mem_keys_iff_lookup, Table.mem_keys_iff_lookup, Table.lookup_modify]
  by_cases hk : k = P.pid.toInt
  · subst hk
    simp [Event.tabled, Event.child, exitEvent]
  · simp [Event.tabled, Event.child, exitEvent, hk]

theorem mem_keys_foldlM {processes processes' : Table ℤ ProcessRow}
    (htables : ∀ e ∈ es, e.Tables) (hstore : es.foldlM processesAfter processes = .ok processes')
    (k : ℤ) : k ∈ processes'.keys ↔ k ∈ processes.keys ∨ ∃ p ∈ tabledIn es, p.toInt = k := by
  induction es generalizing processes with
  | nil =>
      obtain rfl := Transducer.foldlM_nil_ok_iff.mp hstore
      simp [tabledIn]
  | cons e es ih =>
      obtain ⟨middle, hfirst, hrest⟩ := Transducer.foldlM_cons_ok_iff.mp hstore
      rw [ih (fun e' he' => htables e' (by simp [he'])) hrest,
        htables e (by simp) processes middle hfirst k, or_assoc]
      simp [mem_tabledIn, or_and_right, exists_or]

/-- `show` counts the processes that have a row. -/
theorem processCount_run (hstore : emitAll (create run) es = .ok capsule)
    (htables : ∀ e ∈ es, e.Tables) : processCount capsule none = (tabledIn es).card := by
  have hkeys : capsule.processes.keys.toFinset = (tabledIn es).image Int32.toInt := by
    ext k
    rw [List.mem_toFinset, mem_keys_foldlM htables (processes_emitAll hstore), Finset.mem_image]
    simp [create]
  rw [processCount, ← List.toFinset_card_of_nodup (AList.keys_nodup _), hkeys]
  exact Finset.card_image_of_injective _ int32_toInt_injective

end storage

/-! ### What the events report -/

section effects

variable {σ σ' : ExecutionState} {n : Notification} {es : List Event}

/-- Only the creation of a process reports a child. -/
theorem Effect.created_of_child (he : Effect σ n σ' es) {e : Event} (hmem : e ∈ es) {child : Pid}
    (hchild : e.child = some child) : ∃ parentTid ev flags t,
      n = .created parentTid child ev flags t ∧ isThreadCreation ev flags = false := by
  have htype : e.type = .processFork := by
    by_contra hother
    rw [Event.child_eq_none hother] at hchild
    contradiction
  obtain ⟨P, parentTid, child', ev, flags, t, rfl, hprocess, rfl⟩ := (he.origin hmem).2 htype
  rw [child_forkEvent, Option.some.injEq] at hchild
  exact ⟨parentTid, ev, flags, t, by rw [hchild], hprocess⟩

theorem Effect.tables (he : Effect σ n σ' es) {e : Event} (hmem : e ∈ es) : e.Tables := by
  cases he with
  | markerIgnored | arm | createdUnknown | createdThread | exitedThread | exitedUnknown
    | syscallUnknown => contradiction
  | start | stop =>
      obtain rfl := List.mem_singleton.mp hmem
      exact tables_of_silent rfl
  | exec =>
      obtain rfl := List.mem_singleton.mp hmem
      exact tables_exec _ _ _ _ _
  | @execDiscovered tid links t unknown =>
      obtain rfl := List.mem_singleton.mp hmem
      exact tables_exec { pid := tid } tid links.executable t none
  | createdProcess =>
      obtain rfl := List.mem_singleton.mp hmem
      exact tables_fork _ _ _ _ _
  | exited | exitedIdle =>
      obtain rfl := List.mem_singleton.mp hmem
      exact tables_exit _ _ _ _ _ _
  | exitedRunning =>
      simp only [List.mem_cons, List.not_mem_nil, or_false] at hmem
      rcases hmem with rfl | rfl
      · exact tables_exit _ _ _ _ _ _
      · exact tables_of_silent rfl
  | @syscall memory call P found =>
      obtain ⟨raw, hraw, rfl⟩ := List.mem_map.mp hmem
      obtain ⟨type, resource, metadata, hio, rfl⟩ :=
        (syscallExit_spec memory P call).event raw (Option.mem_toList.mp hraw)
      refine tables_of_silent ?_
      cases type <;> first | rfl | contradiction

end effects

/-! ### What the history says -/

/-- A task of the process execs. -/
def Execs (root : Pid) (ns : List Notification) (p : Pid) : Prop :=
  ∃ past tid links t rest, ns = past ++ .exec tid links t :: rest ∧
    (taskTree root past).owner tid = some p

/-- The process is created by another one. -/
def CreatedIn (ns : List Notification) (p : Pid) : Prop :=
  ∃ parentTid ev flags t, .created parentTid p ev flags t ∈ ns ∧
    isThreadCreation ev flags = false

section runs

variable (root : Pid) (cwd : Bytes) (rootCommand : Option Bytes) (startNs : UInt64)

/-- The root execs while the command is open. -/
def ExecsUnder (ns : List Notification) (c : UInt64) : Prop :=
  ∃ past tid links t rest σ es, ns = past ++ .exec tid links t :: rest ∧
    (taskTree root past).owner tid = some root ∧
    record root cwd rootCommand startNs past = .ok (σ, es) ∧ σ.openCommand = some c

/-- A notification of a run, with the process that it comes from and its
events. -/
structure RecordTurn (past : List Notification) (n : Notification) (σ : ExecutionState)
    (es : List Event) (p : Pid) (P : ProcessState) : Prop where
  reached : ∃ out, Transducer.run notify (initialState root cwd rootCommand startNs) past =
    .ok (σ, out)
  effect : ∃ σ', Effect σ n σ' es
  owner : (taskTree root past).owner n.task = some p
  key : σ.processForThread n.task = p
  found : σ.processes p = some P
  pid : P.pid = p

/-- Every notification comes from a process of the tables. -/
def Sourced (ns : List Notification) : Prop :=
  ∀ past n rest, ns = past ++ n :: rest → ∀ σ out,
    Transducer.run notify (initialState root cwd rootCommand startNs) past = .ok (σ, out) →
      ∃ p P, (taskTree root past).owner n.task = some p ∧ σ.processForThread n.task = p ∧
        σ.processes p = some P ∧ P.pid = p

variable {root cwd rootCommand startNs} {ns past rest : List Notification} {n : Notification}
  {σ : ExecutionState} {es : List Event} {p : Pid} {P : ProcessState} {e : Event}

theorem RecordTurn.found_task (h : RecordTurn root cwd rootCommand startNs past n σ es p P) :
    σ.processes (σ.processForThread n.task) = some P := by
  rw [h.key, h.found]

theorem RecordTurn.eventOf (h : RecordTurn root cwd rootCommand startNs past n σ es p P)
    (hmem : e ∈ es) : EventOf σ n P e := by
  obtain ⟨σ', he⟩ := h.effect
  exact he.eventOf h.found_task hmem

/-- Every notification of a recording has its turn. -/
theorem Sourced.turn (hsourced : Sourced root cwd rootCommand startNs ns)
    (hrun : record root cwd rootCommand startNs ns = .ok (σ, es))
    (hsplit : ns = past ++ n :: rest) :
    ∃ τ o p P, RecordTurn root cwd rootCommand startNs past n τ o p P ∧ ∀ e ∈ o, e ∈ es := by
  obtain ⟨τ, before, after, hpast, hrest, rfl⟩ := (record_append_ok_iff ..).mp (hsplit ▸ hrun)
  obtain ⟨τ', o, more, hstep, -, rfl⟩ := Transducer.run_cons_ok_iff.mp hrest
  obtain ⟨out, hout, rfl⟩ := (record_ok_iff ..).mp hpast
  obtain ⟨p, P, howner, hkey, hP, hpid⟩ := hsourced past n rest hsplit τ out hout
  refine ⟨τ, o, p, P, ⟨⟨out, hout⟩, ⟨τ', notify_effect hstep⟩, howner, hkey, hP, hpid⟩, ?_⟩
  intro e he
  simp [he]

/-- Every event of a recording is the first start of a command or one of a
turn. -/
theorem Sourced.turn_of_mem (hsourced : Sourced root cwd rootCommand startNs ns)
    (hrun : record root cwd rootCommand startNs ns = .ok (σ, es)) (hmem : e ∈ es) :
    e ∈ initialEvents root cwd rootCommand startNs ∨
      ∃ past n rest τ o p P, ns = past ++ n :: rest ∧
        RecordTurn root cwd rootCommand startNs past n τ o p P ∧ e ∈ o := by
  obtain ⟨es', hrun', rfl⟩ := (record_ok_iff ..).mp hrun
  rcases List.mem_append.mp hmem with hfirst | hlater
  · exact .inl hfirst
  · obtain ⟨past, n, rest, τ, out, τ', o, hsplit, hpast, hstep, ho⟩ :=
      Transducer.exists_step_of_mem_run hrun' hlater
    obtain ⟨p, P, howner, hkey, hP, hpid⟩ := hsourced past n rest hsplit τ out hpast
    exact .inr ⟨past, n, rest, τ, o, p, P, hsplit,
      ⟨⟨out, hpast⟩, ⟨τ', notify_effect hstep⟩, howner, hkey, hP, hpid⟩, ho⟩

theorem mem_initialEvents (hmem : e ∈ initialEvents root cwd rootCommand startNs) :
    e.type = .commandStart ∧ e.concerns = [root] := by
  rw [initialEvents_eq] at hmem
  obtain ⟨text, -, rfl⟩ := List.mem_map.mp hmem
  exact ⟨rfl, rfl⟩

/-- The processes with exec events are those that exec. -/
theorem Sourced.exec_iff (hsourced : Sourced root cwd rootCommand startNs ns)
    (hrun : record root cwd rootCommand startNs ns = .ok (σ, es)) :
    (∃ e ∈ es, e.type = .processExec ∧ e.pid = p) ↔ Execs root ns p := by
  constructor
  · rintro ⟨e, hmem, htype, rfl⟩
    rcases hsourced.turn_of_mem hrun hmem with hfirst |
      ⟨past, n, rest, τ, o, q, P, hsplit, hturn, ho⟩
    · rw [(mem_initialEvents hfirst).1] at htype
      contradiction
    · obtain ⟨τ', he⟩ := hturn.effect
      obtain ⟨tid, links, t, rfl⟩ := (he.origin ho).1 htype
      refine ⟨past, tid, links, t, rest, hsplit, ?_⟩
      rw [(hturn.eventOf ho).pid, hturn.pid]
      exact hturn.owner
  · rintro ⟨past, tid, links, t, rest, hsplit, howner⟩
    obtain ⟨τ, o, q, P, hturn, hsub⟩ := hsourced.turn hrun hsplit
    obtain ⟨τ', he⟩ := hturn.effect
    obtain rfl : q = p := Option.some.inj (hturn.owner.symm.trans howner)
    rw [he.exec_emits hturn.found_task] at hsub
    exact ⟨_, hsub _ (List.mem_singleton_self _), rfl, hturn.pid⟩

/-- The children that forks report are the processes that are created. -/
theorem Sourced.child_iff (hsourced : Sourced root cwd rootCommand startNs ns)
    (hrun : record root cwd rootCommand startNs ns = .ok (σ, es)) :
    (∃ e ∈ es, e.child = some p) ↔ CreatedIn ns p := by
  constructor
  · rintro ⟨e, hmem, hchild⟩
    rcases hsourced.turn_of_mem hrun hmem with hfirst |
      ⟨past, n, rest, τ, o, q, P, hsplit, hturn, ho⟩
    · rw [Event.child_eq_none (by rw [(mem_initialEvents hfirst).1]; decide)] at hchild
      contradiction
    · obtain ⟨τ', he⟩ := hturn.effect
      obtain ⟨parentTid, ev, flags, t, rfl, hprocess⟩ := he.created_of_child ho hchild
      exact ⟨parentTid, ev, flags, t, by simp [hsplit], hprocess⟩
  · rintro ⟨parentTid, ev, flags, t, hmem, hprocess⟩
    obtain ⟨past, rest, hsplit⟩ := List.append_of_mem hmem
    obtain ⟨τ, o, q, P, hturn, hsub⟩ := hsourced.turn hrun hsplit
    obtain ⟨τ', he⟩ := hturn.effect
    rw [he.fork_emits hturn.found_task hprocess] at hsub
    exact ⟨_, hsub _ (List.mem_singleton_self _), child_forkEvent ..⟩

theorem Sourced.tables (hsourced : Sourced root cwd rootCommand startNs ns)
    (hrun : record root cwd rootCommand startNs ns = .ok (σ, es)) (hmem : e ∈ es) :
    e.Tables := by
  rcases hsourced.turn_of_mem hrun hmem with hfirst | ⟨past, n, rest, τ, o, q, P, -, hturn, ho⟩
  · refine tables_of_silent ?_
    rw [(mem_initialEvents hfirst).1]
    rfl
  · obtain ⟨τ', he⟩ := hturn.effect
    exact he.tables ho

/-! ### Sessions -/

/-- A notification of a session comes from a live task, whose creation was
therefore reported before; no task gets a tid that was given away before; and
markers come only while the root lives. -/
structure SessionRunAdmits (root : Pid) (past : List Notification) (n : Notification) : Prop
    extends FreshAdmits root past n where
  marker : n.isMarker = true → rootAlive root past = true

theorem legal_tree (legal : Transducer.Legal (SessionRunAdmits root) ns) :
    Transducer.Legal (TreeAdmits root) ns := by
  rintro past n rest rfl
  have hadmits := legal past n rest rfl
  refine ⟨hadmits.live, fun p hlive => ?_, hadmits.marker⟩
  by_contra hcreates
  exact (hadmits.free (by simpa using hcreates)).2 hlive

theorem sourced_of_tree (legal : Transducer.Legal (TreeAdmits root) ns) :
    Sourced root cwd rootCommand startNs ns := by
  rintro past n rest rfl τ out hpast
  have hlegal := legal.of_append
  obtain ⟨p, howner⟩ := (legal past n rest rfl).live
  have htracks := tracks_run hlegal hpast
  obtain ⟨P, hP, -⟩ := htracks.processes p ⟨_, howner⟩
  have hkeyed := (lifecycle_run (legal_lifecycle hlegal) hpast).keyed
  exact ⟨p, P, howner, htracks.processForThread howner, hP, hkeyed p P hP⟩

/-- Where no tid is given away twice, a process keeps its launch. -/
theorem launch_kept {l : List Notification}
    (legal : Transducer.Legal (SessionRunAdmits root) (past ++ rest))
    (h : (taskTree root past).launch p = some l) :
    (taskTree root (past ++ rest)).launch p = some l := by
  induction rest using List.reverseRecOn with
  | nil => rwa [List.append_nil]
  | append_singleton rest n ih =>
      rw [← List.append_assoc] at legal ⊢
      have hkept := ih legal.init
      rw [taskTree_snoc, TaskTree.launch_next _ ?_]
      · exact hkept
      · by_contra hcreates
        obtain ⟨m, hm, hcreated⟩ := created_of_launch hkept
        rw [(legal.last.unused p (by simpa using hcreates)).2 m hm] at hcreated
        contradiction

/-- The root is never created. -/
theorem launch_root (legal : Transducer.Legal (SessionRunAdmits root) ns) :
    (taskTree root ns).launch root = none := by
  rw [Option.eq_none_iff_forall_ne_some]
  intro l hlaunch
  obtain ⟨m, hm, hcreates⟩ := created_of_launch hlaunch
  obtain ⟨past, rest, rfl⟩ := List.append_of_mem hm
  exact ((legal past m rest rfl).unused root hcreates).1 rfl

/-- What an event says about a process other than the root it says under the
command that the process was launched with. -/
theorem launched_of_concerns (legal : Transducer.Legal (SessionRunAdmits root) ns)
    (hrun : record root cwd rootCommand startNs ns = .ok (σ, es)) (hmem : e ∈ es)
    (hp : p ∈ e.concerns) (hother : p ≠ root) :
    ∃ l, (taskTree root ns).launch p = some l ∧
      HeldAfter root cwd rootCommand startNs l e.commandId := by
  have htree := legal_tree legal
  rcases (sourced_of_tree htree).turn_of_mem hrun hmem with hfirst |
    ⟨past, n, rest, τ, o, q, P, rfl, hturn, ho⟩
  · rw [(mem_initialEvents hfirst).2, List.mem_singleton] at hp
    contradiction
  obtain ⟨out, hout⟩ := hturn.reached
  have hpast := htree.of_append
  have hadmits := htree past n rest rfl
  have hinv := lifecycle_run (legal_lifecycle hpast) hout
  have htracks := tracks_run hpast hout
  have hevent := hturn.eventOf ho
  rcases List.mem_cons.mp hp with hpid | hchild
  · obtain rfl : p = q := hpid.trans (hevent.pid.trans hturn.pid)
    cases hlaunch : (taskTree root past).launch p with
    | none => exact absurd (eq_root_of_launch hpast ⟨_, hturn.owner⟩ hlaunch) hother
    | some l =>
        exact ⟨l, launch_kept legal hlaunch,
          htracks.heldAfter_of_event hpast hinv hadmits hturn.owner hturn.found hlaunch hevent⟩
  · obtain ⟨τ', he⟩ := hturn.effect
    obtain ⟨parentTid, ev, flags, t, rfl, hprocess⟩ :=
      he.created_of_child ho (Option.mem_toList.mp hchild)
    rw [he.fork_emits hturn.found_task hprocess] at ho
    obtain rfl := List.mem_singleton.mp ho
    refine ⟨((taskTree root past).launch q).getD past, ?_,
      htracks.heldAfter hpast hinv hout ⟨_, hturn.owner⟩ hturn.found⟩
    have howner := hturn.owner
    rw [Notification.task] at howner
    rw [List.append_cons] at legal ⊢
    refine launch_kept legal ?_
    rw [taskTree_snoc]
    simp [TaskTree.next, howner, hprocess]

theorem HeldAfter.unique {l : List Notification} {id id' : Option UInt64}
    (h : HeldAfter root cwd rootCommand startNs l id)
    (h' : HeldAfter root cwd rootCommand startNs l id') : id = id' := by
  obtain ⟨τ, out, hrun, rfl⟩ := h
  obtain ⟨τ', out', hrun', rfl⟩ := h'
  rw [hrun, Except.ok.injEq, Prod.mk.injEq] at hrun'
  rw [hrun'.1]

/-- A process of the command other than the root has an exec event of the
command exactly when it execs. -/
theorem mem_execsOf_iff_execs (legal : Transducer.Legal (SessionRunAdmits root) ns)
    (hrun : record root cwd rootCommand startNs ns = .ok (σ, es)) {c : UInt64}
    (hp : p ∈ processesOf c es) (hother : p ≠ root) :
    p ∈ execsOf c es ↔ Execs root ns p := by
  rw [← (sourced_of_tree (legal_tree legal)).exec_iff hrun, mem_execsOf]
  constructor
  · rintro ⟨e, he, htype, -, hpid⟩
    exact ⟨e, he, htype, hpid⟩
  · rintro ⟨e, he, htype, rfl⟩
    obtain ⟨e', he', hid, hconcerns⟩ := mem_processesOf.mp hp
    obtain ⟨l, hlaunch, hheld⟩ :=
      launched_of_concerns legal hrun he List.mem_cons_self hother
    obtain ⟨l', hlaunch', hheld'⟩ := launched_of_concerns legal hrun he' hconcerns hother
    -- both events have the command of the one launch
    obtain rfl : l = l' := Option.some.inj (hlaunch.symm.trans hlaunch')
    exact ⟨e, he, htype, (hheld.unique hheld').trans hid, rfl⟩

theorem attribution_of_turn (legal : Transducer.Legal (SessionRunAdmits root) past)
    (h : RecordTurn root cwd rootCommand startNs past n σ es root P) :
    σ.attribution P = σ.openCommand := by
  have htree := legal_tree legal
  obtain ⟨out, hout⟩ := h.reached
  have hinv := lifecycle_run (legal_lifecycle htree) hout
  obtain ⟨Q, hQ, hcommand⟩ := (tracks_run htree hout).processes root ⟨_, h.owner⟩
  obtain rfl : Q = P := Option.some.inj (hQ.symm.trans h.found)
  rw [launch_root legal] at hcommand
  exact attribution_root (h.pid.trans hinv.rootPid.symm) hcommand

/-- The root has an exec event of the command exactly when it execs while the
command is open. -/
theorem root_mem_execsOf_iff (legal : Transducer.Legal (SessionRunAdmits root) ns)
    (hrun : record root cwd rootCommand startNs ns = .ok (σ, es)) {c : UInt64} :
    root ∈ execsOf c es ↔ ExecsUnder root cwd rootCommand startNs ns c := by
  have hsourced : Sourced root cwd rootCommand startNs ns := sourced_of_tree (legal_tree legal)
  rw [mem_execsOf]
  constructor
  · rintro ⟨e, he, htype, hid, hroot⟩
    rcases hsourced.turn_of_mem hrun he with hfirst |
      ⟨past, n, rest, τ, o, q, P, rfl, hturn, ho⟩
    · rw [(mem_initialEvents hfirst).1] at htype
      contradiction
    have hevent := hturn.eventOf ho
    obtain rfl : q = root := hturn.pid.symm.trans (hevent.pid.symm.trans hroot)
    obtain ⟨τ', heffect⟩ := hturn.effect
    obtain ⟨tid, links, t, rfl⟩ := (heffect.origin ho).1 htype
    obtain ⟨out, hout⟩ := hturn.reached
    refine ⟨past, tid, links, t, rest, τ, _, rfl, hturn.owner,
      (record_ok_iff ..).mpr ⟨out, hout, rfl⟩, ?_⟩
    rw [← attribution_of_turn legal.of_append hturn,
      ← hevent.other (by simp [Event.isCommandMark, htype]) (by simp [htype]), hid]
  · rintro ⟨past, tid, links, t, rest, τ, before, rfl, howner, hpast, hopen⟩
    obtain ⟨τ', o, q, P, hturn, hsub⟩ := hsourced.turn hrun rfl
    obtain rfl : q = root := Option.some.inj (hturn.owner.symm.trans howner)
    obtain ⟨out, hout⟩ := hturn.reached
    obtain ⟨out', hout', -⟩ := (record_ok_iff ..).mp hpast
    obtain rfl : τ' = τ := by
      rw [hout, Except.ok.injEq, Prod.mk.injEq] at hout'
      exact hout'.1
    obtain ⟨τ'', heffect⟩ := hturn.effect
    rw [heffect.exec_emits hturn.found_task] at hsub
    refine ⟨_, hsub _ (List.mem_singleton_self _), rfl, ?_, hturn.pid⟩
    exact (attribution_of_turn legal.of_append hturn).trans hopen

variable {run : RunMetadata} {capsule : Capsule}

/-- The count under a command of a session is right when every process of the
command execs and the shell does not, or the shell makes up for one. -/
theorem session_count_iff (legal : Transducer.Legal (SessionRunAdmits root) ns)
    (hrun : record root cwd rootCommand startNs ns = .ok (σ, es))
    (hstore : emitAll (create run) es = .ok capsule) (c : UInt64) :
    processCount capsule (some (asI64 c)) = ((processesOf c es).erase root).card ↔
      (ExecsUnder root cwd rootCommand startNs ns c ∧
          ∃! p, p ∈ (processesOf c es).erase root ∧ ¬ Execs root ns p) ∨
        (¬ ExecsUnder root cwd rootCommand startNs ns c ∧
          ∀ p ∈ (processesOf c es).erase root, Execs root ns p) := by
  have hexecs : ∀ p ∈ (processesOf c es).erase root, p ∈ execsOf c es ↔ Execs root ns p := by
    intro p hp
    obtain ⟨hother, hmem⟩ := Finset.mem_erase.mp hp
    exact mem_execsOf_iff_execs legal hrun hmem hother
  have hunique : (∃! p, p ∈ (processesOf c es).erase root ∧ p ∉ execsOf c es) ↔
      ∃! p, p ∈ (processesOf c es).erase root ∧ ¬ Execs root ns p :=
    existsUnique_congr fun p => and_congr_right fun hp => not_congr (hexecs p hp)
  have hall : (∀ p ∈ (processesOf c es).erase root, p ∈ execsOf c es) ↔
      ∀ p ∈ (processesOf c es).erase root, Execs root ns p := forall₂_congr hexecs
  rw [processCount_command hstore, card_eq_card_erase_iff (execsOf_subset c es) root,
    root_mem_execsOf_iff legal hrun, hunique, hall]

/-! ### The run of one command -/

variable {text : Bytes}

theorem sourced_of_commandRun (legal : Transducer.Legal (CommandRunAdmits root) ns) :
    Sourced root cwd (some text) startNs ns := by
  rintro past n rest rfl τ out hpast
  have hlegal := legal.of_append
  have hkeyed := (lifecycle_run (legal_lifecycle_of_commandRun hlegal) hpast).keyed
  obtain ⟨p, P, howner, hkey, hP, -⟩ :=
    (commandState_run hlegal hpast).found (legal past n rest rfl)
  exact ⟨p, P, howner, hkey, hP, hkeyed p P hP⟩

/-- Every event of the run of one command belongs to it. -/
theorem ids_commandRun (legal : Transducer.Legal (CommandRunAdmits root) ns)
    (hrun : record root cwd (some text) startNs ns = .ok (σ, es)) (hmem : e ∈ es) :
    e.commandId = some 1 := by
  rcases (sourced_of_commandRun legal).turn_of_mem hrun hmem with hfirst |
    ⟨past, n, rest, τ, o, q, P, rfl, hturn, ho⟩
  · rw [initialEvents_eq] at hfirst
    obtain rfl := List.mem_singleton.mp hfirst
    rfl
  · obtain ⟨out, hout⟩ := hturn.reached
    obtain ⟨τ', he⟩ := hturn.effect
    have hadmits := legal past n rest rfl
    have hstate := commandState_run legal.of_append hout
    obtain ⟨p, Q, -, hkey, hQ, hid⟩ := hstate.found hadmits
    exact (he.command_of_events hadmits.unmarked (by rw [hkey, hQ]) hid hstate.unarmed ho).1

theorem mem_execsOf_one_iff (legal : Transducer.Legal (CommandRunAdmits root) ns)
    (hrun : record root cwd (some text) startNs ns = .ok (σ, es)) :
    p ∈ execsOf 1 es ↔ Execs root ns p := by
  rw [← (sourced_of_commandRun legal).exec_iff hrun, mem_execsOf]
  constructor
  · rintro ⟨e, he, htype, -, hpid⟩
    exact ⟨e, he, htype, hpid⟩
  · rintro ⟨e, he, htype, hpid⟩
    exact ⟨e, he, htype, ids_commandRun legal hrun he, hpid⟩

/-- The count under a command is right when every process of it execs. -/
theorem command_count_iff (legal : Transducer.Legal (CommandRunAdmits root) ns)
    (hrun : record root cwd (some text) startNs ns = .ok (σ, es))
    (hstore : emitAll (create run) es = .ok capsule) (c : UInt64) :
    processCount capsule (some (asI64 c)) = (processesOf c es).card ↔
      ∀ p ∈ processesOf c es, Execs root ns p := by
  rw [processCount_command hstore, card_eq_iff_of_subset (execsOf_subset c es)]
  refine forall₂_congr fun p hp => ?_
  obtain ⟨e, he, hid, -⟩ := mem_processesOf.mp hp
  rw [ids_commandRun legal hrun he, Option.some.injEq] at hid
  subst hid
  exact mem_execsOf_one_iff legal hrun

theorem Event.tabled_eq_some {p : Pid} :
    e.tabled = some p ↔ (e.type = .processExec ∧ e.pid = p) ∨ e.child = some p := by
  unfold Event.tabled
  split
  · rename_i htype
    rw [Event.child_eq_none (by simp [htype])]
    simp [htype]
  · rename_i htype
    simp [htype]

/-- The two counts of the run of one command agree when every process that is
created execs. -/
theorem counts_eq_iff (legal : Transducer.Legal (CommandRunAdmits root) ns)
    (hrun : record root cwd (some text) startNs ns = .ok (σ, es))
    (hstore : emitAll (create run) es = .ok capsule) :
    processCount capsule (some 1) = processCount capsule none ↔
      ∀ p, CreatedIn ns p → Execs root ns p := by
  have hsourced : Sourced root cwd (some text) startNs ns := sourced_of_commandRun legal
  have htabled : ∀ p, p ∈ tabledIn es ↔ Execs root ns p ∨ CreatedIn ns p := by
    intro p
    rw [← hsourced.exec_iff hrun, ← hsourced.child_iff hrun, mem_tabledIn, ← exists_or]
    refine exists_congr fun e => ?_
    rw [Event.tabled_eq_some, ← and_or_left]
  have hsub : execsOf 1 es ⊆ tabledIn es := fun p hp =>
    (htabled p).mpr (.inl ((mem_execsOf_one_iff legal hrun).mp hp))
  rw [show (1 : ℤ) = asI64 1 from rfl, processCount_command hstore,
    processCount_run hstore fun e he => hsourced.tables hrun he, card_eq_iff_of_subset hsub]
  constructor
  · intro hall p hforked
    exact (mem_execsOf_one_iff legal hrun).mp (hall p ((htabled p).mpr (.inr hforked)))
  · intro hall p hp
    apply (mem_execsOf_one_iff legal hrun).mpr
    exact ((htabled p).mp hp).elim id (hall p)

/-- When the process counts agree. In a session the count under a command is
that of the processes other than the shell which have events of the command or
were created for it exactly when each of them execs and the shell does not
while the command is open, or the exec of the shell makes up for the only one
that does not. In the run of one command it is that of its processes exactly
when each of them execs, and that of the whole run exactly when every process
that is created execs. -/
theorem process_counts_agree_iff :
    (Transducer.Legal (SessionRunAdmits root) ns →
      record root cwd none startNs ns = .ok (σ, es) → emitAll (create run) es = .ok capsule →
        ∀ c : UInt64,
          processCount capsule (some (asI64 c)) = ((processesOf c es).erase root).card ↔
            (ExecsUnder root cwd none startNs ns c ∧
                ∃! p, p ∈ (processesOf c es).erase root ∧ ¬ Execs root ns p) ∨
              (¬ ExecsUnder root cwd none startNs ns c ∧
                ∀ p ∈ (processesOf c es).erase root, Execs root ns p)) ∧
      (Transducer.Legal (CommandRunAdmits root) ns → ∀ text : Bytes,
        record root cwd (some text) startNs ns = .ok (σ, es) →
          emitAll (create run) es = .ok capsule →
            (∀ c : UInt64,
              processCount capsule (some (asI64 c)) = (processesOf c es).card ↔
                ∀ p ∈ processesOf c es, Execs root ns p) ∧
              (processCount capsule (some 1) = processCount capsule none ↔
                ∀ p, CreatedIn ns p → Execs root ns p)) := by
  constructor
  · intro legal hrun hstore c
    exact session_count_iff legal hrun hstore c
  · intro legal text hrun hstore
    exact ⟨command_count_iff legal hrun hstore, counts_eq_iff legal hrun hstore⟩

end runs

/-! ### A child that execs, and one that does not -/

/-- The shell forks a child for a command, and the child execs. -/
def sampleProgram : List Notification :=
  [.marker 7 { type := .arm, id := 1 } 1, .created 7 8 ptraceEventFork 0 2,
    .marker 7 { type := .start, id := 1 } 3, .exec 8 ⟨lit "/", lit "/bin/ls"⟩ 4,
    .marker 7 { type := .stop, id := 1 } 5]

theorem SessionRunAdmits.of_live {root p : Pid} {past : List Notification} {n : Notification}
    (hlive : (taskTree root past).owner n.task = some p)
    (hcreates : ∀ tid, n.creates tid = false) (halive : rootAlive root past = true) :
    SessionRunAdmits root past n :=
  ⟨.of_live hlive hcreates, fun _ => halive⟩

theorem sampleProgram_legal : Transducer.Legal (SessionRunAdmits 7) sampleProgram := by
  have harm := (Transducer.legal_nil (SessionRunAdmits 7)).snoc
    (i := .marker 7 { type := .arm, id := 1 } 1) (.of_live (p := 7) rfl (fun _ => rfl) rfl)
  have hfork := harm.snoc (i := .created 7 8 ptraceEventFork 0 2)
    ⟨⟨⟨7, rfl⟩, fun tid htid => by
      obtain rfl : 8 = tid := by simpa [Notification.creates] using htid
      exact ⟨by decide, fun m hm => by rw [List.mem_singleton.mp hm]; rfl⟩⟩, nofun⟩
  have hstart := hfork.snoc (i := .marker 7 { type := .start, id := 1 } 3)
    (.of_live (p := 7) rfl (fun _ => rfl) rfl)
  have hexec := hstart.snoc (i := .exec 8 ⟨lit "/", lit "/bin/ls"⟩ 4)
    (.of_live (p := 8) rfl (fun _ => rfl) rfl)
  exact hexec.snoc (i := .marker 7 { type := .stop, id := 1 } 5)
    (.of_live (p := 7) rfl (fun _ => rfl) rfl)

/-- The command of one run forks a child that never execs. -/
theorem sampleChild_commandRun : Transducer.Legal (CommandRunAdmits 7) sampleChild := by
  have hexec := (Transducer.legal_nil (CommandRunAdmits 7)).snoc
    (i := .exec 7 ⟨lit "/", lit "/bin/sh"⟩ 1) ⟨⟨7, rfl, rfl⟩, fun _ => rfl, rfl⟩
  have hfork := hexec.snoc (i := .created 7 8 ptraceEventFork 0 2)
    ⟨⟨7, rfl, rfl⟩, fun _ => by decide, rfl⟩
  exact hfork.snoc (i := .exited 8 0 0 3) ⟨⟨8, rfl, rfl⟩, fun _ => rfl, rfl⟩

/-- The command of one run forks a child that execs. -/
def sampleExecutedChild : List Notification :=
  [.exec 7 ⟨lit "/", lit "/bin/sh"⟩ 1, .created 7 8 ptraceEventFork 0 2,
    .exec 8 ⟨lit "/", lit "/bin/ls"⟩ 3]

theorem sampleExecutedChild_legal :
    Transducer.Legal (CommandRunAdmits 7) sampleExecutedChild := by
  have hexec := (Transducer.legal_nil (CommandRunAdmits 7)).snoc
    (i := .exec 7 ⟨lit "/", lit "/bin/sh"⟩ 1) ⟨⟨7, rfl, rfl⟩, fun _ => rfl, rfl⟩
  have hfork := hexec.snoc (i := .created 7 8 ptraceEventFork 0 2)
    ⟨⟨7, rfl, rfl⟩, fun _ => by decide, rfl⟩
  exact hfork.snoc (i := .exec 8 ⟨lit "/", lit "/bin/ls"⟩ 3)
    ⟨⟨8, rfl, rfl⟩, fun _ => rfl, rfl⟩

/-- Where the child execs, `show --command 1` counts it in a session, and in
the run of one command both counts are two. -/
theorem process_counts_agree_sample :
    (∃ σ es capsule, record 7 (lit "/") none 0 sampleProgram = .ok (σ, es) ∧
      emitAll (create sampleRun) es = .ok capsule ∧
      processCount capsule (some (asI64 1)) = 1 ∧ ((processesOf 1 es).erase 7).card = 1 ∧
      ((ExecsUnder 7 (lit "/") none 0 sampleProgram 1 ∧
          ∃! p, p ∈ (processesOf 1 es).erase 7 ∧ ¬ Execs 7 sampleProgram p) ∨
        (¬ ExecsUnder 7 (lit "/") none 0 sampleProgram 1 ∧
          ∀ p ∈ (processesOf 1 es).erase 7, Execs 7 sampleProgram p))) ∧
      ∃ σ es capsule, record 7 (lit "/") (some (lit "sh")) 0 sampleExecutedChild = .ok (σ, es) ∧
        emitAll (create sampleRun) es = .ok capsule ∧
        processCount capsule (some 1) = 2 ∧ processCount capsule none = 2 ∧
        ∀ p, CreatedIn sampleExecutedChild p → Execs 7 sampleExecutedChild p := by
  constructor
  · obtain ⟨σ, es, capsule, hrun, hstore, hcount, hcard⟩ : ∃ σ es capsule,
        record 7 (lit "/") none 0 sampleProgram = .ok (σ, es) ∧
          emitAll (create sampleRun) es = .ok capsule ∧
          processCount capsule (some (asI64 1)) = 1 ∧ ((processesOf 1 es).erase 7).card = 1 :=
      ⟨_, _, _, rfl, rfl, by decide, by decide⟩
    exact ⟨σ, es, capsule, hrun, hstore, hcount, hcard,
      (process_counts_agree_iff.1 sampleProgram_legal hrun hstore 1).mp (hcount.trans hcard.symm)⟩
  · obtain ⟨σ, es, capsule, hrun, hstore, hcommand, hall⟩ : ∃ σ es capsule,
        record 7 (lit "/") (some (lit "sh")) 0 sampleExecutedChild = .ok (σ, es) ∧
          emitAll (create sampleRun) es = .ok capsule ∧
          processCount capsule (some 1) = 2 ∧ processCount capsule none = 2 :=
      ⟨_, _, _, rfl, rfl, by decide, by decide⟩
    exact ⟨σ, es, capsule, hrun, hstore, hcommand, hall,
      (process_counts_agree_iff.2 sampleExecutedChild_legal (lit "sh") hrun hstore).2.mp
        (hcommand.trans hall.symm)⟩

/-- The child has an event of the command, its exit, and was created for it;
`show --command 1` prints one process less than there are, and less than `show`
prints for the run. -/
theorem forked_child_not_counted :
    ∃ σ es capsule, record 7 (lit "/") (some (lit "sh")) 0 sampleChild = .ok (σ, es) ∧
      emitAll (create sampleRun) es = .ok capsule ∧
      Transducer.Legal (CommandRunAdmits 7) sampleChild ∧
      Transducer.Legal (FreshAdmits 7) sampleChild ∧
      processCount capsule (some 1) = 1 ∧ (processesOf 1 es).card = 2 ∧
      processCount capsule none = 2 := by
  have hexec := (Transducer.legal_nil (FreshAdmits 7)).snoc
    (i := .exec 7 ⟨lit "/", lit "/bin/sh"⟩ 1) (.of_live (p := 7) rfl fun _ => rfl)
  have hfork := hexec.snoc (i := .created 7 8 ptraceEventFork 0 2)
    ⟨⟨7, rfl⟩, fun tid htid => by
      obtain rfl : 8 = tid := by simpa [Notification.creates] using htid
      exact ⟨by decide, fun m hm => by rw [List.mem_singleton.mp hm]; rfl⟩⟩
  have hfresh := hfork.snoc (i := .exited 8 0 0 3) (.of_live (p := 8) rfl fun _ => rfl)
  exact ⟨_, _, _, rfl, rfl, sampleChild_commandRun, hfresh, by decide, by decide, by decide⟩

end Whyrun
