import Whyrun.Execution.TaskTree

/-!
The order of command markers. The accepted sequences of markers are the
prefixes of repeated arm, start and stop of one command; the abstract
machine `MarkerPhase` reads them, and while the root lives the active
command of the execution state is the phase of that machine. A rejected
marker leaves the state and the sink as they were: this is shown of the
handler written out statement by statement.
-/

namespace Whyrun

open ByteText ExecutionState

/-! ### The protocol -/

/-- What the order of markers depends on. -/
abbrev MarkerKey := CommandMarkerType × UInt64

def CommandMarker.key (marker : CommandMarker) : MarkerKey := (marker.type, marker.id)

/-- The markers of one command. -/
def markerCycle (id : UInt64) : List MarkerKey := [(.arm, id), (.start, id), (.stop, id)]

inductive MarkerPhase
  | idle
  | armed (id : UInt64)
  | running (id : UInt64)
  deriving DecidableEq

namespace MarkerPhase

def next : MarkerPhase → MarkerKey → Option MarkerPhase
  | idle, (.arm, id) => some (armed id)
  | armed a, (.start, id) => if a = id then some (running id) else none
  | running a, (.stop, id) => if a = id then some idle else none
  | _, _ => none

/-- The phase after a sequence of markers, if all of them fit. -/
def follow (keys : List MarkerKey) : Option MarkerPhase := keys.foldlM next idle

/-- The markers that finish the current command. -/
def rest : MarkerPhase → List MarkerKey
  | idle => []
  | armed id => [(.start, id), (.stop, id)]
  | running id => [(.stop, id)]

theorem follow_snoc (keys : List MarkerKey) (key : MarkerKey) :
    follow (keys ++ [key]) = (follow keys).bind fun phase => phase.next key := by
  simp [follow, List.foldlM_append]

theorem next_eq_some {phase phase' : MarkerPhase} {key : MarkerKey}
    (h : phase.next key = some phase') :
    (∃ id, phase = idle ∧ key = (.arm, id) ∧ phase' = armed id) ∨
      (∃ id, phase = armed id ∧ key = (.start, id) ∧ phase' = running id) ∨
      ∃ id, phase = running id ∧ key = (.stop, id) ∧ phase' = idle := by
  obtain ⟨type, id⟩ := key
  cases phase <;> cases type <;> simp_all [next]

/-- A sequence that fits is finished by the rest of its last command. -/
theorem append_rest {keys : List MarkerKey} {phase : MarkerPhase}
    (h : follow keys = some phase) :
    ∃ ids : List UInt64, keys ++ phase.rest = ids.flatMap markerCycle := by
  induction keys using List.reverseRecOn generalizing phase with
  | nil =>
      obtain rfl : idle = phase := by simpa [follow] using h
      exact ⟨[], rfl⟩
  | append_singleton keys key ih =>
      rw [follow_snoc, Option.bind_eq_some_iff] at h
      obtain ⟨before, hbefore, hnext⟩ := h
      obtain ⟨ids, hids⟩ := ih hbefore
      -- an arm begins a new command, the others shorten what is left of one
      rcases next_eq_some hnext with ⟨id, rfl, rfl, rfl⟩ | ⟨id, rfl, rfl, rfl⟩ | ⟨id, rfl, rfl, rfl⟩
      · exact ⟨ids ++ [id], by simp [← hids, rest, markerCycle]⟩
      · exact ⟨ids, by simpa [rest] using hids⟩
      · exact ⟨ids, by simpa [rest] using hids⟩

theorem follow_cycles (ids : List UInt64) : follow (ids.flatMap markerCycle) = some idle := by
  induction ids with
  | nil => rfl
  | cons id ids ih =>
      rw [List.flatMap_cons, follow, List.foldlM_append]
      simpa [markerCycle, next, follow] using ih

/-- The accepted sequences are the prefixes of whole commands. -/
theorem follow_isSome_iff (keys : List MarkerKey) :
    (∃ phase, follow keys = some phase) ↔
      ∃ ids : List UInt64, keys <+: ids.flatMap markerCycle := by
  constructor
  · rintro ⟨phase, h⟩
    obtain ⟨ids, hids⟩ := append_rest h
    exact ⟨ids, phase.rest, hids⟩
  · rintro ⟨ids, rest, hrest⟩
    have hall := follow_cycles ids
    rw [← hrest, follow, List.foldlM_append] at hall
    obtain ⟨phase, hphase, -⟩ := Option.bind_eq_some_iff.mp hall
    exact ⟨phase, hphase⟩

end MarkerPhase

/-! ### The handler, statement by statement -/

/-- A member function while it runs: it changes the object and the sink,
and what it has changed stays when it throws. -/
abbrev Body := ExceptT Failure (StateM (ExecutionState × List Event))

namespace Body

/-- Run the body: how it ends, the object and what the sink has received. -/
def after {α : Type} (body : Body α) (s : ExecutionState × List Event) :
    Except Failure α × ExecutionState × List Event :=
  (ExceptT.run body).run s

@[simp] theorem after_pure {α : Type} (a : α) (s : ExecutionState × List Event) :
    (pure a : Body α).after s = (.ok a, s) := rfl

@[simp] theorem after_throw {α : Type} (e : Failure) (s : ExecutionState × List Event) :
    (throw e : Body α).after s = (.error e, s) := rfl

@[simp] theorem after_get (s : ExecutionState × List Event) :
    (get : Body _).after s = (.ok s, s) := rfl

@[simp] theorem after_modify (f : ExecutionState × List Event → ExecutionState × List Event)
    (s : ExecutionState × List Event) : (modify f : Body Unit).after s = (.ok (), f s) := rfl

/-- What follows a statement runs in the state that it leaves, unless it throws. -/
@[simp] theorem after_bind {α β : Type} (body : Body α) (rest : α → Body β)
    (s : ExecutionState × List Event) :
    (body >>= rest).after s =
      match body.after s with
      | (.ok a, s') => (rest a).after s'
      | (.error e, s') => (.error e, s') := by
  unfold after
  simp only [ExceptT.run_bind, StateT.run_bind]
  cases hbody : StateT.run (ExceptT.run body) s with
  | mk result s' => cases result <;> rfl

def setCommand (key : Pid) (process : ProcessState) (id : Option UInt64) : Body Unit :=
  modify fun s => (s.1.setProcess key { process with commandId := id }, s.2)

def setActive (active : Option ActiveCommand) : Body Unit :=
  modify fun s => ({ s.1 with activeCommand := active }, s.2)

def emit (event : Event) : Body Unit :=
  modify fun s => (s.1, s.2 ++ [s.1.emit event])

/-- `ExecutionState::on_command_marker`, one statement after the other. -/
def onCommandMarker (tid : Pid) (marker : CommandMarker) (timestampNs : UInt64) :
    Body Unit := do
  let (σ, _) ← get
  let key := σ.processForThread tid
  match σ.processes key with
  | none => return
  | some process =>
      if process.pid ≠ σ.rootPid then return
      else match marker.type with
      | .arm =>
          if σ.activeCommand.isSome ∨ process.commandId.isSome then
            throw "command armed before the previous command ended"
          else
            setCommand key process (some marker.id)
            setActive (some ⟨marker.id, none, false⟩)
      | .start =>
          match σ.activeCommand with
          | none => throw "command start marker does not match the armed command"
          | some active =>
              if active.id ≠ marker.id ∨ active.started ∨ process.commandId ≠ some marker.id then
                throw "command start marker does not match the armed command"
              else
                setActive (some { active with started := true })
                emit (commandStartEvent process.pid tid marker.id marker.text marker.cwd
                  (active.firstProcessNs.getD timestampNs))
      | .stop =>
          match σ.activeCommand with
          | none => throw "command end marker does not match the active command"
          | some active =>
              if active.id ≠ marker.id ∨ !active.started ∨ process.commandId ≠ some marker.id then
                throw "command end marker does not match the active command"
              else
                -- the event is filled in while the root still has the command
                emit (commandEndEvent process.pid tid (some marker.id) marker.exitCode
                  marker.cwd timestampNs)
                setCommand key process none
                setActive none

/-- What a call leaves behind: the state, and the sink with the new events. -/
def outcome (σ : ExecutionState) (out : List Event) :
    Except Failure (ExecutionState × List Event) →
      Except Failure Unit × ExecutionState × List Event
  | .ok (σ', es) => (.ok (), σ', out ++ es)
  | .error e => (.error e, σ, out)

theorem after_onCommandMarker (tid : Pid) (m : CommandMarker) (t : UInt64) (σ : ExecutionState)
    (out : List Event) :
    (onCommandMarker tid m t).after (σ, out) = outcome σ out (σ.onCommandMarker tid m t) := by
  unfold onCommandMarker ExecutionState.onCommandMarker
  rw [after_bind, after_get]
  dsimp only
  cases σ.processes (σ.processForThread tid) with
  | none => simp [outcome]
  | some P =>
      dsimp only
      by_cases hother : P.pid ≠ σ.rootPid
      · simp [if_pos hother, outcome]
      simp only [if_neg hother]
      cases m.type with
      | arm =>
          dsimp only
          split <;> simp [outcome, setCommand, setActive]
      | start =>
          cases σ.activeCommand with
          | none => rfl
          | some a =>
              dsimp only
              split <;> simp [outcome, setActive, emit]
      | stop =>
          cases σ.activeCommand with
          | none => rfl
          | some a =>
              dsimp only
              split <;> simp [outcome, setCommand, setActive, emit]

end Body

/-! ### The root's markers -/

/-- The marker of a notification that comes from a task of the root process. -/
def rootMarker (root : Pid) (past : List Notification) : Notification → List CommandMarker
  | .marker tid m _ => if (taskTree root past).owner tid = some root then [m] else []
  | _ => []

def rootMarkers (root : Pid) (ns : List Notification) : List CommandMarker :=
  (ns.foldl (fun r n => (r.1 ++ [n], r.2 ++ rootMarker root r.1 n)) ([], [])).2

theorem rootMarkers_snoc (root : Pid) (past : List Notification) (n : Notification) :
    rootMarkers root (past ++ [n]) = rootMarkers root past ++ rootMarker root past n :=
  Traces.foldl_history_snoc (fun past markers n => markers ++ rootMarker root past n) [] past n

theorem rootMarker_of_other {root : Pid} {past : List Notification} {n : Notification}
    (h : n.isMarker = false) : rootMarker root past n = [] := by
  cases n <;> first | rfl | contradiction

/-- The root does not exit, and no new task gets the tid of one of its live
tasks. -/
structure MarkerRunAdmits (root : Pid) (past : List Notification) (n : Notification) :
    Prop where
  alive : n.exits root = false
  fresh : ∀ tid, (taskTree root past).owner tid = some root → n.creates tid = false

variable {σ σ' : ExecutionState} {n : Notification} {es : List Event}

/-- The phase that the active command stands for. -/
def ExecutionState.markerPhase (σ : ExecutionState) : MarkerPhase :=
  match σ.activeCommand with
  | none => .idle
  | some active => if active.started then .running active.id else .armed active.id

@[simp] theorem markerPhase_noteFirstProcess (σ : ExecutionState) (p : Pid) (t : UInt64) :
    (σ.noteFirstProcess p t).markerPhase = σ.markerPhase := by
  unfold noteFirstProcess
  split
  · rfl
  · rename_i a ha
    split <;> simp [markerPhase, ha]

/-- Only markers and the exit of the root change the phase. -/
theorem Effect.markerPhase_of_other (he : Effect σ n σ' es) (hkeyed : σ.Keyed)
    (hexit : n.exits σ.rootPid = false) (hmarker : n.isMarker = false) :
    σ'.markerPhase = σ.markerPhase := by
  cases he with
  | arm | start | stop => contradiction
  | createdProcess => exact markerPhase_noteFirstProcess _ _ _
  | exitedRunning leader found root | exitedIdle leader found root =>
      have htid := (hkeyed _ _ found).symm.trans root
      simp [Notification.exits, htid] at hexit
  | _ => rfl

/-- The root accepts exactly the markers that the machine accepts. -/
theorem onCommandMarker_phase {tid : Pid} (m : CommandMarker) (t : UInt64) (hkeyed : σ.Keyed)
    (hroot : RootHolds σ) (htid : σ.processForThread tid = σ.rootPid) :
    match σ.markerPhase.next m.key with
    | some phase =>
        ∃ σ' es, σ.onCommandMarker tid m t = .ok (σ', es) ∧ σ'.markerPhase = phase
    | none => ∃ e, σ.onCommandMarker tid m t = .error e := by
  obtain ⟨P, hP, hid⟩ := hroot.held
  have hpid : P.pid = σ.rootPid := hkeyed _ _ hP
  obtain ⟨type, id, text, cwd, code⟩ := m
  cases hactive : σ.activeCommand with
  | none =>
      cases type <;>
        simp [onCommandMarker, htid, hP, hpid, hid, hactive, markerPhase, MarkerPhase.next,
          CommandMarker.key]
  | some a =>
      cases hstarted : a.started <;> cases type <;> by_cases hsame : a.id = id <;>
        simp [onCommandMarker, htid, hP, hpid, hid, hactive, hstarted, hsame, markerPhase,
          MarkerPhase.next, CommandMarker.key]

/-! ### Runs -/

/-- A creation makes its child a task of the root process when a task of
the root process creates it as a thread. -/
theorem owner_created_iff {root parentTid childTid : Pid} {past : List Notification}
    {tree : TaskTree} (ev : UInt32) (flags t : UInt64) (hne : childTid ≠ root)
    (hfresh : tree.owner childTid ≠ some root) (tid : Pid) :
    (tree.next past (.created parentTid childTid ev flags t)).owner tid = some root ↔
      if tid = childTid then
        isThreadCreation ev flags = true ∧ tree.owner parentTid = some root
      else tree.owner tid = some root := by
  simp only [TaskTree.next]
  cases hparent : tree.owner parentTid with
  | none =>
      by_cases hchild : tid = childTid
      · simp [hchild, hfresh]
      · simp [hchild]
  | some parent =>
      by_cases hchild : tid = childTid
      · cases isThreadCreation ev flags <;> simp [hchild, hne]
      · cases isThreadCreation ev flags <;> simp [hchild]

/-- The thread map and the tree agree on the tasks of the root process. -/
theorem Effect.rootTasks_next {root : Pid} {past : List Notification} (he : Effect σ n σ' es)
    (hkeyed : σ.Keyed) (hroot : σ.rootPid = root) (holds : RootHolds σ)
    (hadmits : MarkerRunAdmits root past n)
    (htasks : ∀ tid, σ.processForThread tid = root ↔ (taskTree root past).owner tid = some root)
    (tid : Pid) :
    σ'.processForThread tid = root ↔ (taskTree root (past ++ [n])).owner tid = some root := by
  subst hroot
  have hleader := holds.leader_eq
  obtain ⟨R, hR, -⟩ := holds.held
  have howner := (htasks σ.rootPid).mp hleader
  have hchild : ∀ {child}, n.creates child = true →
      child ≠ σ.rootPid ∧ (taskTree σ.rootPid past).owner child ≠ some σ.rootPid := by
    intro child hcreates
    have hfresh : (taskTree σ.rootPid past).owner child ≠ some σ.rootPid := by
      intro hlive
      rw [hadmits.fresh child hlive] at hcreates
      contradiction
    exact ⟨fun heq => hfresh (heq ▸ howner), hfresh⟩
  rw [taskTree_snoc]
  cases he with
  | markerIgnored | arm | start | stop | exec | syscallUnknown | syscall => exact htasks tid
  | @execDiscovered task links t unknown =>
      -- a tid that is not known is taken for a process of its own
      have hother : σ.processForThread task ≠ σ.rootPid := by
        intro htask
        rw [htask, hR] at unknown
        contradiction
      by_cases htid : tid = task
      · subst htid
        have htask : tid ≠ σ.rootPid := fun heq => hother (heq ▸ hleader)
        simp [TaskTree.next, ← htasks, hother, htask]
      · simp [TaskTree.next, ← htasks, htid]
  | @createdUnknown parentTid childTid ev flags t unknown =>
      obtain ⟨hne, hfresh⟩ := @hchild childTid (by simp [Notification.creates])
      have hparent : σ.processForThread parentTid ≠ σ.rootPid := by
        intro hparent
        rw [hparent, hR] at unknown
        contradiction
      rw [owner_created_iff ev flags t hne hfresh, ← htasks parentTid, ← htasks tid]
      split
      · rename_i htid
        simp [htid, htasks childTid, hfresh, hparent]
      · rfl
  | @createdThread parentTid childTid ev flags t P found thread =>
      obtain ⟨hne, hfresh⟩ := @hchild childTid (by simp [Notification.creates])
      rw [owner_created_iff ev flags t hne hfresh, ← htasks parentTid, ← htasks tid,
        processForThread_setThread, ← hkeyed _ _ found]
      split <;> simp [thread]
  | @createdProcess parentTid childTid ev flags t P found process =>
      obtain ⟨hne, hfresh⟩ := @hchild childTid (by simp [Notification.creates])
      rw [owner_created_iff ev flags t hne hfresh, ← htasks parentTid, ← htasks tid,
        processForThread_noteFirstProcess, processForThread_setThread]
      split <;> simp [process, hne]
  | @exitedUnknown task code signal t leader unknown =>
      have hother : task ≠ σ.rootPid := by simpa [Notification.exits] using hadmits.alive
      by_cases htid : tid = task
      · simp [TaskTree.next, htid, leader, hother]
      · simp [TaskTree.next, ← htasks, Function.update_of_ne htid]
  | @exitedThread task | @exited task | @exitedRunning task | @exitedIdle task =>
      have hother : task ≠ σ.rootPid := by simpa [Notification.exits] using hadmits.alive
      by_cases htid : tid = task
      · simp [TaskTree.next, htid, hother]
      · simp [TaskTree.next, ← htasks, htid, processForThread]

/-- What holds after a history in which every marker was accepted. -/
structure MarkerRun (root : Pid) (past : List Notification) (σ : ExecutionState) : Prop where
  keyed : σ.Keyed
  rootPid : σ.rootPid = root
  holds : RootHolds σ
  tasks : ∀ tid, σ.processForThread tid = root ↔ (taskTree root past).owner tid = some root
  phase : MarkerPhase.follow ((rootMarkers root past).map CommandMarker.key) =
    some σ.markerPhase

theorem markerRun_start (root : Pid) (cwd : Bytes) (startNs : UInt64) :
    MarkerRun root [] (initialState root cwd none startNs) where
  keyed := initialState_keyed root cwd none startNs
  rootPid := initialState_rootPid root cwd none startNs
  holds := initialState_rootHolds root cwd none startNs
  tasks tid := by
    by_cases htid : tid = root <;>
      simp [processForThread, initialState_threadToProcess, taskTree, TaskTree.initial, htid]
  phase := by
    simp [rootMarkers, MarkerPhase.follow, markerPhase, initialState_activeCommand]

/-- A marker of a task outside the root process has no effect. -/
theorem notify_marker_of_other {tid : Pid} (m : CommandMarker) (t : UInt64) (hkeyed : σ.Keyed)
    (h : σ.processForThread tid ≠ σ.rootPid) : σ.notify (.marker tid m t) = .ok (σ, []) := by
  unfold notify onCommandMarker
  dsimp only
  cases hfound : σ.processes (σ.processForThread tid) with
  | none => rfl
  | some P =>
      have hpid : P.pid ≠ σ.rootPid := by rwa [hkeyed _ _ hfound]
      exact if_pos hpid

/-- One notification keeps what holds, and is refused only where the machine
refuses its marker. -/
theorem MarkerRun.step {root : Pid} {past : List Notification} (h : MarkerRun root past σ)
    (hadmits : MarkerRunAdmits root past n) :
    match MarkerPhase.follow ((rootMarkers root (past ++ [n])).map CommandMarker.key) with
    | some _ => ∃ σ' es, σ.notify n = .ok (σ', es) ∧ MarkerRun root (past ++ [n]) σ'
    | none => ∃ e, σ.notify n = .error e := by
  have hnext : ∀ {σ' es}, σ.notify n = .ok (σ', es) →
      MarkerPhase.follow ((rootMarkers root (past ++ [n])).map CommandMarker.key) =
        some σ'.markerPhase → MarkerRun root (past ++ [n]) σ' := by
    intro σ' es hstep hphase
    have he := notify_effect hstep
    have howner := (h.tasks root).mp (h.rootPid ▸ h.holds.leader_eq)
    exact
      { keyed := he.keyed h.keyed
        rootPid := he.rootPid.trans h.rootPid
        holds := he.rootHolds h.keyed h.holds (h.rootPid ▸ hadmits.alive)
          (h.rootPid ▸ hadmits.fresh root howner)
        tasks := he.rootTasks_next h.keyed h.rootPid h.holds hadmits h.tasks
        phase := hphase }
  rw [rootMarkers_snoc]
  rw [rootMarkers_snoc] at hnext
  cases hmarker : n.isMarker with
  | false =>
      rw [rootMarker_of_other hmarker, List.append_nil, h.phase]
      rw [rootMarker_of_other hmarker, List.append_nil] at hnext
      obtain ⟨⟨σ', es⟩, hstep⟩ := notify_ok_of_not_marker σ hmarker
      have hsame := (notify_effect hstep).markerPhase_of_other h.keyed
        (h.rootPid ▸ hadmits.alive) hmarker
      exact ⟨σ', es, hstep, hnext hstep (by rw [h.phase, hsame])⟩
  | true =>
      cases n with
      | exec | created | exited | syscall => contradiction
      | marker tid m t =>
          by_cases htid : (taskTree root past).owner tid = some root
          · simp only [rootMarker, htid, if_true] at hnext ⊢
            rw [List.map_append, List.map_singleton, MarkerPhase.follow_snoc, h.phase,
              Option.bind_some] at hnext ⊢
            have haccept := onCommandMarker_phase m t h.keyed h.holds
              ((h.tasks tid).mpr htid |>.trans h.rootPid.symm)
            cases hphase : σ.markerPhase.next m.key with
            | none =>
                simp only [hphase] at haccept
                exact haccept
            | some phase =>
                simp only [hphase] at haccept ⊢
                obtain ⟨σ', es, hstep, hsame⟩ := haccept
                exact ⟨σ', es, hstep, hnext hstep (by rw [hphase, hsame])⟩
          · simp only [rootMarker, htid, if_false, List.append_nil] at hnext ⊢
            have hother : σ.processForThread tid ≠ σ.rootPid := by
              rw [h.rootPid]
              exact fun hroot => htid ((h.tasks tid).mp hroot)
            have hstep := notify_marker_of_other m t h.keyed hother
            rw [h.phase]
            exact ⟨σ, [], hstep, hnext hstep h.phase⟩

/-- A run goes through exactly when the machine reads all markers of the root. -/
theorem record_follows {root : Pid} (cwd : Bytes) (startNs : UInt64) {ns : List Notification}
    (legal : Transducer.Legal (MarkerRunAdmits root) ns) :
    match MarkerPhase.follow ((rootMarkers root ns).map CommandMarker.key) with
    | some _ => ∃ σ es, record root cwd none startNs ns = .ok (σ, es) ∧ MarkerRun root ns σ
    | none => ∀ σ es, record root cwd none startNs ns ≠ .ok (σ, es) := by
  induction ns using List.reverseRecOn with
  | nil =>
      have hstart := markerRun_start root cwd startNs
      rw [hstart.phase]
      exact ⟨_, _, (record_ok_iff ..).mpr ⟨[], rfl, rfl⟩, hstart⟩
  | append_singleton past n ih =>
      have hpast := ih legal.init
      cases hfollow : MarkerPhase.follow ((rootMarkers root past).map CommandMarker.key) with
      | none =>
          have hrest : MarkerPhase.follow
              ((rootMarkers root (past ++ [n])).map CommandMarker.key) = none := by
            rw [rootMarkers_snoc, List.map_append, MarkerPhase.follow, List.foldlM_append,
              ← MarkerPhase.follow, hfollow]
            rfl
          rw [hrest]
          rw [hfollow] at hpast
          intro σ es hrecord
          obtain ⟨τ, out, more, hbefore, -, -⟩ := (record_append_ok_iff ..).mp hrecord
          exact hpast τ out hbefore
      | some phase =>
          rw [hfollow] at hpast
          obtain ⟨σ, es, hrecord, hrun⟩ := hpast
          have hstep := hrun.step legal.last
          cases hnext : MarkerPhase.follow
              ((rootMarkers root (past ++ [n])).map CommandMarker.key) with
          | some phase' =>
              rw [hnext] at hstep
              obtain ⟨σ', more, hstep, hrun'⟩ := hstep
              refine ⟨σ', es ++ more, (record_append_ok_iff ..).mpr ⟨σ, es, more, hrecord, ?_, rfl⟩,
                hrun'⟩
              rwa [Transducer.run_singleton]
          | none =>
              rw [hnext] at hstep
              obtain ⟨e, hstep⟩ := hstep
              intro σ' es' hboth
              obtain ⟨τ, out, more, hbefore, hlast, -⟩ := (record_append_ok_iff ..).mp hboth
              rw [hrecord, Except.ok.injEq, Prod.mk.injEq] at hbefore
              obtain ⟨rfl, rfl⟩ := hbefore
              rw [Transducer.run_singleton, hstep] at hlast
              contradiction

/-- In a session the markers of the root are accepted exactly when they form
a prefix of whole commands; a marker of another process does nothing; a
rejected marker changes neither the state nor the sink. -/
theorem marker_order_enforced (root : Pid) (cwd : Bytes) (startNs : UInt64)
    (ns : List Notification) (legal : Transducer.Legal (MarkerRunAdmits root) ns) :
    ((∃ σ es, record root cwd none startNs ns = .ok (σ, es)) ↔
      ∃ ids : List UInt64,
        (rootMarkers root ns).map CommandMarker.key <+: ids.flatMap markerCycle) ∧
    (∀ past tid m t rest σ es, ns = past ++ .marker tid m t :: rest →
      record root cwd none startNs past = .ok (σ, es) →
      (taskTree root past).owner tid ≠ some root →
      σ.notify (.marker tid m t) = .ok (σ, [])) ∧
    ∀ (σ : ExecutionState) (out : List Event) (tid : Pid) (m : CommandMarker) (t : UInt64),
      (Body.onCommandMarker tid m t).after (σ, out) =
        match σ.onCommandMarker tid m t with
        | .ok (σ', es) => (.ok (), σ', out ++ es)
        | .error e => (.error e, σ, out) := by
  refine ⟨?_, ?_, ?_⟩
  · rw [← MarkerPhase.follow_isSome_iff]
    have hrun := record_follows cwd startNs legal
    cases hfollow : MarkerPhase.follow ((rootMarkers root ns).map CommandMarker.key) with
    | none =>
        rw [hfollow] at hrun
        simpa using hrun
    | some phase =>
        rw [hfollow] at hrun
        obtain ⟨σ, es, hrecord, -⟩ := hrun
        exact ⟨fun _ => ⟨phase, rfl⟩, fun _ => ⟨σ, es, hrecord⟩⟩
  · rintro past tid m t rest σ es rfl hrecord htid
    have hpast := record_follows cwd startNs legal.of_append
    cases hfollow : MarkerPhase.follow ((rootMarkers root past).map CommandMarker.key) with
    | none =>
        rw [hfollow] at hpast
        exact absurd hrecord (hpast σ es)
    | some phase =>
        rw [hfollow] at hpast
        obtain ⟨τ, out, hsame, hrun⟩ := hpast
        rw [hrecord, Except.ok.injEq, Prod.mk.injEq] at hsame
        obtain ⟨rfl, rfl⟩ := hsame
        refine notify_marker_of_other m t hrun.keyed ?_
        rw [hrun.rootPid]
        exact fun hroot => htid ((hrun.tasks tid).mp hroot)
  · intro σ out tid m t
    rw [Body.after_onCommandMarker]
    cases σ.onCommandMarker tid m t <;> rfl

/-- The root arms and starts a command; between the two it forks a process,
which prints a marker of its own. -/
theorem marker_order_enforced_sample :
    ∃ σ es, record 7 (lit "/") none 0
      [.marker 7 { type := .arm, id := 1 } 1, .created 7 8 ptraceEventFork 0 2,
        .marker 8 { type := .stop, id := 9 } 3, .marker 7 { type := .start, id := 1 } 4] =
      .ok (σ, es) := by
  have harm := (Transducer.legal_nil (MarkerRunAdmits 7)).snoc
    (i := .marker 7 { type := .arm, id := 1 } 1) ⟨rfl, fun _ _ => rfl⟩
  have hfork := harm.snoc (i := .created 7 8 ptraceEventFork 0 2)
    ⟨rfl, fun tid htid => by
      obtain ⟨rfl, -⟩ := TaskTree.owner_initial htid
      decide⟩
  have hother := hfork.snoc (i := .marker 8 { type := .stop, id := 9 } 3) ⟨rfl, fun _ _ => rfl⟩
  have hstart := hother.snoc (i := .marker 7 { type := .start, id := 1 } 4) ⟨rfl, fun _ _ => rfl⟩
  exact (marker_order_enforced 7 (lit "/") 0 _ hstart).1.mpr ⟨[1], by decide⟩

end Whyrun
