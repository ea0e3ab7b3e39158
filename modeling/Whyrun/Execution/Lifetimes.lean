import Whyrun.Execution.Attribution

/-!
What a recording tells of the life of a process. Seen through one pid the
events are a word over three letters: the fork that makes the process, what it
does, and its exit. However the notifications of the tasks interleave, and
however often the pid is given away again, the letters come in this order.
That also holds of the events of one command, because the fork of a process
carries the command that its own events carry.
-/

namespace Whyrun

open ByteText ExecutionState

/-! ### The life of a pid -/

inductive LifeMark
  | born
  | acts
  | gone
  deriving DecidableEq

/-- What an event says of the process with the pid. -/
def Event.lifeMark (p : Pid) (e : Event) : Option LifeMark :=
  if e.type = .processFork ∧ e.result = p.toInt64 then some .born
  else if e.pid = p then some (if e.type = .processExit then .gone else .acts)
  else none

/-- A pid has a process from the fork to the exit, and acts only then. -/
def LifeMark.next : Bool → LifeMark → Option Bool
  | false, .born => some true
  | true, .acts => some true
  | true, .gone => some false
  | _, _ => none

theorem toInt64_inj {p q : Pid} : p.toInt64 = q.toInt64 ↔ p = q := by
  rw [← Int64.toInt_inj, Int32.toInt_toInt64, Int32.toInt_toInt64, Int32.toInt_inj]

/-- What the events of some commands say of the pid. -/
def lifeMarks (p : Pid) (keep : Option UInt64 → Bool) (es : List Event) : List LifeMark :=
  (es.filter fun e => keep e.commandId).filterMap (Event.lifeMark p)

@[simp] theorem lifeMarks_nil (p : Pid) (keep : Option UInt64 → Bool) :
    lifeMarks p keep [] = [] := rfl

theorem lifeMarks_append (p : Pid) (keep : Option UInt64 → Bool) (es es' : List Event) :
    lifeMarks p keep (es ++ es') = lifeMarks p keep es ++ lifeMarks p keep es' := by
  rw [lifeMarks, List.filter_append, List.filterMap_append]
  rfl

theorem mem_lifeMarks {p : Pid} {keep : Option UInt64 → Bool} {es : List Event} {m : LifeMark}
    (h : m ∈ lifeMarks p keep es) : ∃ e ∈ es, keep e.commandId = true ∧ e.lifeMark p = some m := by
  obtain ⟨e, he, hmark⟩ := List.mem_filterMap.mp h
  obtain ⟨hmem, hkeep⟩ := List.mem_filter.mp he
  exact ⟨e, hmem, hkeep, hmark⟩

/-- Acting changes nothing. -/
theorem foldlM_next_acts {ms : List LifeMark} {alive : Bool} (hacts : ∀ m ∈ ms, m = .acts)
    (halive : ms ≠ [] → alive = true) : ms.foldlM LifeMark.next alive = some alive := by
  induction ms with
  | nil => rfl
  | cons m ms ih =>
      obtain ⟨rfl, hrest⟩ := List.forall_mem_cons.mp hacts
      obtain rfl := halive (List.cons_ne_nil _ _)
      exact ih hrest fun _ => rfl

/-- A notification comes from a process whose leader has not exited: the exit
of a leader is reported after those of its threads. -/
structure LifeAdmits (root : Pid) (past : List Notification) (n : Notification) : Prop extends
    TreeAdmits root past n where
  leads : ∀ p, (taskTree root past).owner n.task = some p → (taskTree root past).owner p = some p

/-- The pid has a process, and the events of the process are kept. -/
def lifeShown (root p : Pid) (keep : Option UInt64 → Bool) (past : List Notification)
    (σ : ExecutionState) : Bool :=
  decide ((taskTree root past).owner p = some p) &&
    keep ((σ.processes p).bind ProcessState.commandId)

section steps

variable {root p : Pid} {keep : Option UInt64 → Bool} {past : List Notification}
  {n : Notification} {σ σ' : ExecutionState} {es : List Event}

/-- Only the exit of its leader emits the exit event of a process. -/
theorem Effect.exit_origin (he : Effect σ n σ' es) {e : Event} (hmem : e ∈ es)
    (htype : e.type = .processExit) :
    σ.processForThread n.task = n.task ∧ n.exits n.task = true := by
  cases he with
  | markerIgnored | arm | createdUnknown | createdThread | exitedThread | exitedUnknown
    | syscallUnknown => contradiction
  | start | stop | exec | execDiscovered | createdProcess =>
      obtain rfl := List.mem_singleton.mp hmem
      contradiction
  | exited leader | exitedRunning leader | exitedIdle leader =>
      exact ⟨leader, by simp [Notification.exits, Notification.task]⟩
  | @syscall memory call P found =>
      obtain ⟨raw, hraw, rfl⟩ := List.mem_map.mp hmem
      obtain ⟨type, resource, metadata, hio, rfl⟩ :=
        (syscallExit_spec memory P call).event raw (Option.mem_toList.mp hraw)
      obtain rfl : type = .processExit := htype
      contradiction

/-- What is known of the process that a notification comes from. -/
structure ComesFrom (root : Pid) (past : List Notification) (σ : ExecutionState)
    (n : Notification) (q : Pid) (P : ProcessState) : Prop where
  owner : (taskTree root past).owner n.task = some q
  key : σ.processForThread n.task = q
  found : σ.processes q = some P
  pid : P.pid = q
  keyed : σ.Keyed
  rootPid : σ.rootPid = root

/-- An event of a process other than the root carries its command. -/
theorem EventOf.commandId_of_other {q : Pid} {P : ProcessState} {e : Event}
    (h : ComesFrom root past σ n q P) (hq : q ≠ root) (hevent : EventOf σ n P e) :
    e.commandId = P.commandId := by
  have hroot : P.pid ≠ σ.rootPid := by rwa [h.pid, h.rootPid]
  have hmark : e.isCommandMark = false := by
    by_contra hmark
    exact hroot (hevent.mark (by simpa using hmark)).1
  by_cases hfork : e.type = .processFork
  · exact hevent.fork hfork
  · rw [hevent.other hmark hfork, attribution, if_neg fun hboth => hroot hboth.1]

/-- A notification that neither makes nor ends the process leaves it as it is. -/
theorem lifeShown_of_other {q : Pid} {P : ProcessState} (h : ComesFrom root past σ n q P)
    (he : Effect σ n σ' es)
    (hprocesses : ∀ k, (taskTree root past).Live k → ∃ R, σ.processes k = some R) (hp : p ≠ root)
    (hcreate : n.creates p = false) (hexit : n.exits p = false) :
    lifeShown root p keep (past ++ [n]) σ' = lifeShown root p keep past σ := by
  have howner : (taskTree root (past ++ [n])).owner p = (taskTree root past).owner p := by
    rw [taskTree_snoc, TaskTree.owner_next_of_other _ hcreate hexit]
  rw [lifeShown, lifeShown, howner]
  by_cases hlive : (taskTree root past).owner p = some p
  · obtain ⟨R, hR⟩ := hprocesses p ⟨p, hlive⟩
    obtain ⟨R', hR', hcommand⟩ := he.command_of_other h.keyed ⟨P, by rw [h.key, h.found]⟩ hR hcreate
      fun hroot => absurd (hroot.trans h.rootPid) hp
    rw [hR, hR', Option.bind_some, Option.bind_some, hcommand]
  · simp [hlive]

theorem lifeMarks_of_other {q : Pid} {P : ProcessState} (h : ComesFrom root past σ n q P)
    (admits : LifeAdmits root past n) (he : Effect σ n σ' es) (hp : p ≠ root)
    (hcreate : n.creates p = false) (hexit : n.exits p = false) {m : LifeMark}
    (hm : m ∈ lifeMarks p keep es) : m = .acts ∧ lifeShown root p keep past σ = true := by
  obtain ⟨e, hmem, hkeep, hmark⟩ := mem_lifeMarks hm
  have hevent := he.eventOf (by rw [h.key, h.found]) hmem
  have hborn : ¬ (e.type = .processFork ∧ e.result = p.toInt64) := by
    rintro ⟨htype, hresult⟩
    obtain ⟨Q, parentTid, child, ev, flags, t, rfl, -, rfl⟩ := (he.origin hmem).2 htype
    have hchild : child = p := toInt64_inj.mp hresult
    simp [Notification.creates, hchild] at hcreate
  rw [Event.lifeMark, if_neg hborn] at hmark
  split at hmark
  · rename_i hpid
    have hq : q = p := by rw [← h.pid, ← hevent.pid, hpid]
    obtain rfl := hq
    have hgone : e.type ≠ .processExit := by
      intro htype
      obtain ⟨hleader, hexits⟩ := he.exit_origin hmem htype
      rw [h.key] at hleader
      rw [← hleader, hexit] at hexits
      contradiction
    rw [if_neg hgone] at hmark
    refine ⟨(Option.some.inj hmark).symm, ?_⟩
    rw [lifeShown, h.found, Option.bind_some, ← hevent.commandId_of_other h hp, hkeep]
    simp [admits.leads _ h.owner]
  · contradiction

/-- The fork of the process. -/
theorem lifeMarks_of_created {parentTid q : Pid} {ev : UInt32} {flags t : UInt64}
    {P : ProcessState} (h : ComesFrom root past σ (.created parentTid p ev flags t) q P)
    (admits : LifeAdmits root past (.created parentTid p ev flags t))
    (he : Effect σ (.created parentTid p ev flags t) σ' es) :
    lifeShown root p keep past σ = false ∧
      (lifeMarks p keep es).foldlM LifeMark.next false =
        some (lifeShown root p keep (past ++ [.created parentTid p ev flags t]) σ') := by
  have hfresh : ¬ (taskTree root past).Live p := fun hlive => by
    simpa [Notification.creates] using admits.fresh p hlive
  have hbefore : (taskTree root past).owner p ≠ some p := fun howner => hfresh ⟨p, howner⟩
  have hq : q ≠ p := by
    rintro rfl
    exact hfresh ⟨_, h.owner⟩
  have howner : (taskTree root past).owner parentTid = some q := h.owner
  have hfound : σ.processes (σ.processForThread parentTid) = some P := by
    rw [show σ.processForThread parentTid = q from h.key, h.found]
  refine ⟨by simp [lifeShown, hbefore], ?_⟩
  rw [lifeShown, taskTree_snoc]
  cases he with
  | createdUnknown unknown =>
      rw [hfound] at unknown
      contradiction
  | createdThread found thread =>
      simp [TaskTree.next, howner, thread, hq]
  | @createdProcess _ _ _ _ _ Q found process =>
      obtain rfl : Q = P := Option.some.inj (found.symm.trans hfound)
      have hmark : (forkEvent Q parentTid p ev t).lifeMark p = some .born := if_pos ⟨rfl, rfl⟩
      have hcommand : (forkEvent Q parentTid p ev t).commandId = Q.commandId := rfl
      cases hkeep : keep Q.commandId with
      | true =>
          simp [lifeMarks, hcommand, hkeep, hmark, TaskTree.next, howner, process, LifeMark.next]
      | false => simp [lifeMarks, hcommand, hkeep, TaskTree.next, howner, process]

/-- The exit of the task that has the pid: of the process, or of a thread of
another one. -/
theorem lifeMarks_of_exited {q : Pid} {code signal : Int32} {t : UInt64} {P : ProcessState}
    (h : ComesFrom root past σ (.exited p code signal t) q P)
    (he : Effect σ (.exited p code signal t) σ' es) (hp : p ≠ root) :
    (lifeMarks p keep es).foldlM LifeMark.next (lifeShown root p keep past σ) =
      some (lifeShown root p keep (past ++ [.exited p code signal t]) σ') := by
  have howner : (taskTree root past).owner p = some q := h.owner
  have hkey : σ.processForThread p = q := h.key
  have hafter : lifeShown root p keep (past ++ [.exited p code signal t]) σ' = false := by
    simp [lifeShown, taskTree_snoc, TaskTree.next]
  rw [hafter, lifeShown, howner]
  have hroot : P.pid ≠ σ.rootPid ∨ q ≠ p := by
    by_cases hq : q = p
    · left
      rwa [h.pid, h.rootPid, hq]
    · exact .inr hq
  have hevents : ∀ e ∈ es, EventOf σ (.exited p code signal t) P e :=
    fun e hmem => he.eventOf (by rw [h.key, h.found]) hmem
  cases he with
  | exitedThread thread =>
      rw [hkey] at thread
      simp [thread]
  | exitedUnknown leader unknown =>
      rw [← leader, hkey, h.found] at unknown
      contradiction
  | @exited _ _ _ _ Q leader found notRoot =>
      rw [leader] at hkey
      subst hkey
      obtain rfl : Q = P := Option.some.inj (found.symm.trans h.found)
      have hcommand := (hevents _ (List.mem_singleton.mpr rfl)).commandId_of_other h hp
      have hmark : (σ.attributed Q (exitEvent Q p code signal t)).lifeMark p = some .gone := by
        rw [Event.lifeMark, if_neg fun hboth =>
          absurd (show EventType.processExit = .processFork from hboth.1) (by decide)]
        exact if_pos h.pid
      cases hkeep : keep Q.commandId with
      | true => simp [lifeMarks, hcommand, hkeep, hmark, found, LifeMark.next]
      | false => simp [lifeMarks, hcommand, hkeep, found]
  | exitedRunning leader found root | exitedIdle leader found root =>
      rw [leader] at hkey
      subst hkey
      rw [h.found] at found
      rw [← Option.some.inj found, h.pid, h.rootPid] at root
      exact absurd root hp

end steps

/-! ### Runs -/

section runs

variable {root p : Pid} {cwd : Bytes} {rootCommand : Option Bytes} {startNs : UInt64}
  {keep : Option UInt64 → Bool} {ns : List Notification} {σ : ExecutionState} {es : List Event}

theorem lifeAdmits_tree (legal : Transducer.Legal (LifeAdmits root) ns) :
    Transducer.Legal (TreeAdmits root) ns :=
  fun past n rest hsplit => (legal past n rest hsplit).toTreeAdmits

/-- One notification carries the word of a pid on. -/
theorem lifeMarks_next {past : List Notification} {n : Notification} {σ' : ExecutionState}
    {q : Pid} {P : ProcessState} (h : ComesFrom root past σ n q P)
    (hprocesses : ∀ k, (taskTree root past).Live k → ∃ R, σ.processes k = some R)
    (admits : LifeAdmits root past n) (he : Effect σ n σ' es) (hp : p ≠ root) :
    (lifeMarks p keep es).foldlM LifeMark.next (lifeShown root p keep past σ) =
      some (lifeShown root p keep (past ++ [n]) σ') := by
  cases hcreate : n.creates p with
  | true =>
      cases n with
      | created parentTid childTid ev flags t =>
          obtain rfl : childTid = p := by simpa [Notification.creates] using hcreate
          obtain ⟨hbefore, hmarks⟩ := lifeMarks_of_created h admits he
          rw [hbefore, hmarks]
      | marker | exec | exited | syscall => contradiction
  | false =>
      cases hexit : n.exits p with
      | true =>
          cases n with
          | exited tid code signal t =>
              obtain rfl : tid = p := by simpa [Notification.exits] using hexit
              exact lifeMarks_of_exited h he hp
          | marker | exec | created | syscall => contradiction
      | false =>
          have hmarks : ∀ m ∈ lifeMarks p keep es,
              m = .acts ∧ lifeShown root p keep past σ = true := fun m hm =>
            lifeMarks_of_other h admits he hp hcreate hexit hm
          rw [lifeShown_of_other h he hprocesses hp hcreate hexit]
          refine foldlM_next_acts (fun m hm => (hmarks m hm).1) fun hsome => ?_
          obtain ⟨m, hm⟩ := List.exists_mem_of_ne_nil _ hsome
          exact (hmarks m hm).2

/-- The words of a recording. -/
theorem lifeMarks_record (legal : Transducer.Legal (LifeAdmits root) ns)
    (hrecord : record root cwd rootCommand startNs ns = .ok (σ, es)) (hp : p ≠ root)
    (keep : Option UInt64 → Bool) :
    (lifeMarks p keep es).foldlM LifeMark.next false = some (lifeShown root p keep ns σ) := by
  obtain ⟨out, hrun, rfl⟩ := (record_ok_iff root cwd rootCommand startNs).mp hrecord
  have hfirst : lifeMarks p keep (initialEvents root cwd rootCommand startNs) = [] := by
    refine List.eq_nil_iff_forall_not_mem.mpr fun m hm => ?_
    obtain ⟨e, he, -, hmark⟩ := mem_lifeMarks hm
    rw [initialEvents_eq] at he
    obtain ⟨text, -, rfl⟩ := List.mem_map.mp he
    simp [Event.lifeMark, commandStartEvent, Ne.symm hp] at hmark
  rw [lifeMarks_append, hfirst, List.nil_append]
  refine Transducer.run_induction (motive := fun past σ out =>
    (lifeMarks p keep out).foldlM LifeMark.next false = some (lifeShown root p keep past σ))
    ?_ ?_ legal.history hrun
  · have hnone : (taskTree root []).owner p ≠ some p :=
      fun howner => hp (TaskTree.owner_initial howner).1
    simp [lifeShown, hnone]
  · rintro past σ out n σ' o hrun hmarks ⟨hlegal, hadmits⟩ hstep
    have hinv := lifecycle_run (legal_lifecycle (lifeAdmits_tree hlegal)) hrun
    have htracks := tracks_run (lifeAdmits_tree hlegal) hrun
    obtain ⟨q, howner⟩ := hadmits.live
    obtain ⟨P, hP, -⟩ := htracks.processes q ⟨_, howner⟩
    have hcomes : ComesFrom root past σ n q P :=
      ⟨howner, htracks.processForThread howner, hP, hinv.keyed q P hP, hinv.keyed, hinv.rootPid⟩
    have hprocesses : ∀ k, (taskTree root past).Live k → ∃ R, σ.processes k = some R :=
      fun k hk => (htracks.processes k hk).imp fun R hR => hR.1
    rw [lifeMarks_append, List.foldlM_append, hmarks, Option.bind_eq_bind, Option.bind_some]
    exact lifeMarks_next hcomes hprocesses hadmits (notify_effect hstep) hp

end runs

end Whyrun
