import Whyrun.Execution.Attribution
import Whyrun.Library.Traces

/-!
Notifications of different processes commute. A notification changes only
the record of its own process, the entries of its task and of the task that
it creates, and, for the root, the active command; a change elsewhere is
neither seen nor undone by it.
-/

namespace Whyrun

open ByteText ExecutionState

/-! ### Updates -/

/-- A change of one entry of the execution state. -/
inductive Update
  | process (key : Pid) (record : Option ProcessState)
  | thread (tid : Pid) (owner : Option Pid)
  | active (command : Option ActiveCommand)

namespace Update

def apply (σ : ExecutionState) : Update → ExecutionState
  | .process key record => { σ with processes := Function.update σ.processes key record }
  | .thread tid owner => σ.setThread tid owner
  | .active command => { σ with activeCommand := command }

/-- The update is one that the notification can make. -/
def Within (σ : ExecutionState) (n : Notification) : Update → Prop
  | .process key _ => key = σ.processForThread n.task ∨ n.creates key = true
  | .thread tid _ => tid = n.task ∨ n.creates tid = true
  | .active _ => σ.processForThread n.task = σ.rootPid

/-- The update is at an entry that the notification neither reads nor
changes. -/
def Apart (σ : ExecutionState) (n : Notification) : Update → Prop
  | .process key _ => key ≠ σ.processForThread n.task ∧ n.creates key = false
  | .thread tid _ => tid ≠ n.task ∧ n.creates tid = false
  | .active _ => σ.processForThread n.task ≠ σ.rootPid

/-- The updates are at different entries. -/
def Disjoint : Update → Update → Prop
  | .process key _, .process key' _ => key ≠ key'
  | .thread tid _, .thread tid' _ => tid ≠ tid'
  | .active _, .active _ => False
  | _, _ => True

theorem apply_comm : Traces.Commutes apply Disjoint := by
  intro σ u v h
  cases u <;> cases v
  case process.process key P key' P' =>
    simp only [apply]
    rw [Function.update_comm h]
  case thread.thread tid p tid' p' =>
    simp only [apply, setThread]
    rw [Function.update_comm h]
  case active.active => exact h.elim
  all_goals rfl

end Update

variable {σ σ' : ExecutionState} {n : Notification} {es : List Event} {u : Update}

/-! ### What an update elsewhere leaves alone -/

namespace Update

@[simp] theorem rootPid_apply (u : Update) (σ : ExecutionState) :
    (u.apply σ).rootPid = σ.rootPid := by
  cases u <;> rfl

theorem Apart.processForThread (h : u.Apart σ n) :
    (u.apply σ).processForThread n.task = σ.processForThread n.task := by
  cases u with
  | thread tid p =>
      have hne : n.task ≠ tid := Ne.symm h.1
      simp [apply, hne]
  | process | active => rfl

theorem Apart.processes (h : u.Apart σ n) :
    (u.apply σ).processes (σ.processForThread n.task) =
      σ.processes (σ.processForThread n.task) := by
  cases u with
  | process key P =>
      have hne : σ.processForThread n.task ≠ key := Ne.symm h.1
      simp [apply, hne]
  | thread | active => rfl

theorem Apart.activeCommand (h : u.Apart σ n)
    (hroot : σ.processForThread n.task = σ.rootPid) :
    (u.apply σ).activeCommand = σ.activeCommand := by
  cases u with
  | process | thread => rfl
  | active a => exact absurd hroot h

/-- An update elsewhere does not change what `emit` fills in. -/
theorem Apart.attributed (h : u.Apart σ n) {P : ProcessState}
    (hpid : P.pid = σ.processForThread n.task) :
    (u.apply σ).attributed P = σ.attributed P := by
  funext e
  by_cases hroot : σ.processForThread n.task = σ.rootPid
  · have harmed : (u.apply σ).isArmed = σ.isArmed := by
      rw [isArmed, isArmed, h.activeCommand hroot]
    simp [ExecutionState.attributed, attribution, harmed]
  · simp [ExecutionState.attributed, attribution, hpid, hroot]

theorem Apart.disjoint {v : Update} (h : u.Apart σ n) (hv : v.Within σ n) : u.Disjoint v := by
  cases u <;> cases v <;> simp only [Disjoint]
  case process.process key P key' P' =>
    rintro rfl
    rcases hv with hv | hv
    · exact h.1 hv
    · simp [h.2] at hv
  case thread.thread tid p tid' p' =>
    rintro rfl
    rcases hv with hv | hv
    · exact h.1 hv
    · simp [h.2] at hv
  case active.active => exact h hv

end Update

/-! ### The updates of a notification -/

/-- The update of the active command that a fork by a process makes. -/
theorem noteFirstProcess_updates (σ : ExecutionState) (p : Pid) (t : UInt64) :
    ∃ us : List Update, (∀ v ∈ us, ∃ command, v = .active command ∧ p = σ.rootPid) ∧
      ∀ ρ : ExecutionState, ρ.rootPid = σ.rootPid →
        (p = σ.rootPid → ρ.activeCommand = σ.activeCommand) →
        ρ.noteFirstProcess p t = us.foldl Update.apply ρ := by
  by_cases hfirst : p = σ.rootPid ∧
      ∃ a, σ.activeCommand = some a ∧ a.started = false ∧ a.firstProcessNs = none
  · obtain ⟨hroot, a, ha, harmed, hnone⟩ := hfirst
    refine ⟨[.active (some { a with firstProcessNs := some t })], by simp [hroot],
      fun ρ hρ hactive => ?_⟩
    simp [noteFirstProcess, hactive hroot, ha, hroot, hρ, harmed, hnone, Update.apply]
  · refine ⟨[], by simp, fun ρ hρ hactive => ?_⟩
    rw [List.foldl_nil, noteFirstProcess]
    split
    · rfl
    · rename_i a ha
      apply if_neg
      rintro ⟨hroot, harmed, hnone⟩
      apply hfirst
      rw [hρ] at hroot
      exact ⟨hroot, a, by rw [← hactive hroot, ha], by simpa using harmed, hnone⟩

/-- The notification comes from a task of the process that is recorded under
its own pid. -/
def KnownAs (σ : ExecutionState) (n : Notification) : Prop :=
  ∃ P, σ.processes (σ.processForThread n.task) = some P ∧ P.pid = σ.processForThread n.task

theorem Known.knownAs (h : Known σ n) (hkeyed : σ.Keyed) : KnownAs σ n := by
  obtain ⟨P, hP⟩ := h
  exact ⟨P, hP, hkeyed _ P hP⟩

theorem KnownAs.apply (h : KnownAs σ n) (hu : u.Apart σ n) : KnownAs (u.apply σ) n := by
  obtain ⟨P, hP, hpid⟩ := h
  exact ⟨P, by rw [hu.processForThread, hu.processes, hP], by rw [hu.processForThread, hpid]⟩

theorem Update.Apart.apply {v : Update} (hv : v.Apart σ n) (hu : u.Apart σ n) :
    v.Apart (u.apply σ) n := by
  have hthread := hu.processForThread
  cases v with
  | process key P => exact ⟨by rw [hthread]; exact hv.1, hv.2⟩
  | thread tid p => exact hv
  | active a =>
      intro hroot
      rw [hthread, Update.rootPid_apply] at hroot
      exact hv hroot

/-- What a notification of a known process does: updates of its own entries,
which it would make in the same way, with the same events, after an update
elsewhere. -/
theorem Effect.updates (he : Effect σ n σ' es) (hknown : KnownAs σ n) :
    ∃ us : List Update, σ' = us.foldl Update.apply σ ∧ (∀ v ∈ us, v.Within σ n) ∧
      ∀ u : Update, u.Apart σ n → Effect (u.apply σ) n (us.foldl Update.apply (u.apply σ)) es := by
  obtain ⟨Q, hQ, hQpid⟩ := hknown
  have hfound : ∀ {u : Update} {P : ProcessState}, u.Apart σ n →
      σ.processes (σ.processForThread n.task) = some P →
      (u.apply σ).processes ((u.apply σ).processForThread n.task) = some P := by
    intro u P hu hP
    rw [hu.processForThread, hu.processes, hP]
  have hpid : ∀ {P : ProcessState}, σ.processes (σ.processForThread n.task) = some P →
      P.pid = σ.processForThread n.task := by
    intro P hP
    obtain rfl : Q = P := Option.some.inj (hQ.symm.trans hP)
    exact hQpid
  have hexit : ∀ {u : Update} {P : ProcessState} {tid : Pid}, tid = n.task →
      σ.processForThread tid = tid → σ.processes tid = some P → u.Apart σ n →
      (u.apply σ).processForThread tid = tid ∧ (u.apply σ).processes tid = some P ∧
        (u.apply σ).attributed P = σ.attributed P := by
    rintro u P tid rfl leader found hu
    have hP := hu.processes
    rw [leader] at hP
    exact ⟨hu.processForThread.trans leader, hP.trans found,
      hu.attributed (hpid (by rw [leader, found]))⟩
  cases he with
  | markerIgnored other =>
      refine ⟨[], rfl, nofun, fun u hu => .markerIgnored fun P hP => ?_⟩
      obtain rfl : Q = P := Option.some.inj ((hfound hu hQ).symm.trans hP)
      rw [Update.rootPid_apply]
      exact other Q hQ
  | @arm tid m t P found root type idle free =>
      have hkey : σ.processForThread tid = σ.rootPid := (hpid found).symm.trans root
      refine ⟨[.process (σ.processForThread tid) (some _), .active _], rfl, ?_, fun u hu => ?_⟩
      · simp [Update.Within, Notification.task, hkey]
      · have heffect := Effect.arm (t := t) (hfound hu found) (by simpa using root) type
          (by rw [hu.activeCommand hkey, idle]) free
        rwa [hu.processForThread] at heffect
  | @start tid m t P a found root type active id armed held =>
      have hkey : σ.processForThread tid = σ.rootPid := (hpid found).symm.trans root
      refine ⟨[.active _], rfl, ?_, fun u hu => ?_⟩
      · simp [Update.Within, Notification.task, hkey]
      · exact .start (hfound hu found) (by simpa using root) type
          (by rw [hu.activeCommand hkey, active]) id armed held
  | @stop tid m t P a found root type active id started held =>
      have hkey : σ.processForThread tid = σ.rootPid := (hpid found).symm.trans root
      refine ⟨[.process (σ.processForThread tid) (some _), .active _], rfl, ?_, fun u hu => ?_⟩
      · simp [Update.Within, Notification.task, hkey]
      · have heffect := Effect.stop (t := t) (hfound hu found) (by simpa using root) type
          (by rw [hu.activeCommand hkey, active]) id started held
        rwa [hu.processForThread] at heffect
  | @exec tid links t P found =>
      refine ⟨[.process (σ.processForThread tid) (some _)], rfl, ?_, fun u hu => ?_⟩
      · simp [Update.Within, Notification.task]
      · have hthread := hu.processForThread
        rw [Notification.task] at hthread
        have heffect : Effect (u.apply σ) (.exec tid links t) _ _ := .exec (hfound hu found)
        rwa [hu.attributed (hpid found), hthread] at heffect
  | execDiscovered unknown =>
      rw [Notification.task, unknown] at hQ
      contradiction
  | createdUnknown unknown =>
      rw [Notification.task, unknown] at hQ
      contradiction
  | createdThread found thread =>
      refine ⟨[.thread _ _], rfl, ?_, fun u hu => .createdThread (hfound hu found) thread⟩
      simp [Update.Within, Notification.creates]
  | @createdProcess parentTid childTid ev flags t P found process =>
      obtain ⟨us, hus, hnote⟩ := noteFirstProcess_updates σ P.pid t
      refine ⟨.process childTid (some _) :: .thread childTid _ :: us,
        hnote _ (by simp) (by simp), ?_, fun u hu => ?_⟩
      · intro v hv
        rcases List.mem_cons.mp hv with rfl | hv
        · simp [Update.Within, Notification.creates]
        rcases List.mem_cons.mp hv with rfl | hv
        · simp [Update.Within, Notification.creates]
        obtain ⟨command, rfl, hroot⟩ := hus v hv
        exact (hpid found).symm.trans hroot
      · have heffect : Effect (u.apply σ) (.created parentTid childTid ev flags t) _ _ :=
          .createdProcess (hfound hu found) process
        rw [hnote] at heffect
        · exact heffect
        · simp
        · intro hroot
          exact hu.activeCommand ((hpid found).symm.trans hroot)
  | @exitedThread tid code signal t thread =>
      refine ⟨[.thread _ _], rfl, ?_, fun u hu => .exitedThread ?_⟩
      · simp [Update.Within, Notification.task]
      · have hthread := hu.processForThread
        rw [Notification.task] at hthread
        rwa [hthread]
  | exitedUnknown leader unknown =>
      rw [Notification.task, leader, unknown] at hQ
      contradiction
  | @exited tid code signal t P leader found notRoot =>
      refine ⟨[.process _ (some _), .thread _ _], rfl, ?_, fun u hu => ?_⟩
      · simp [Update.Within, Notification.task, leader]
      · obtain ⟨hleader, hP, hattributed⟩ := hexit rfl leader found hu
        have heffect : Effect (u.apply σ) (.exited tid code signal t) _ _ :=
          .exited hleader hP (by simpa using notRoot)
        rwa [hattributed] at heffect
  | @exitedRunning tid code signal t P id leader found root started held =>
      obtain rfl : tid = σ.rootPid := by
        rw [← root, hpid (by rw [Notification.task, leader, found]), Notification.task, leader]
      refine ⟨[.process _ (some _), .active _, .thread _ _], rfl, ?_, fun u hu => ?_⟩
      · simp [Update.Within, Notification.task, leader]
      · obtain ⟨hleader, hP, hattributed⟩ := hexit rfl leader found hu
        have hactive := hu.activeCommand leader
        have heffect : Effect (u.apply σ) (.exited σ.rootPid code signal t) _ _ :=
          .exitedRunning hleader hP (by simpa using root)
            (by rw [isStarted, hactive]; exact started) held
        rwa [hattributed] at heffect
  | @exitedIdle tid code signal t P leader found root idle =>
      obtain rfl : tid = σ.rootPid := by
        rw [← root, hpid (by rw [Notification.task, leader, found]), Notification.task, leader]
      refine ⟨[.process _ (some _), .active _, .thread _ _], rfl, ?_, fun u hu => ?_⟩
      · simp [Update.Within, Notification.task, leader]
      · obtain ⟨hleader, hP, hattributed⟩ := hexit rfl leader found hu
        have hactive := hu.activeCommand leader
        have hstarted : (u.apply σ).isStarted = σ.isStarted := by rw [isStarted, isStarted, hactive]
        have harmed : (u.apply σ).isArmed = σ.isArmed := by rw [isArmed, isArmed, hactive]
        have heffect : Effect (u.apply σ) (.exited σ.rootPid code signal t) _ _ :=
          .exitedIdle hleader hP (by simpa using root) (by rw [hstarted]; exact idle)
        rwa [hattributed, harmed] at heffect
  | syscallUnknown unknown =>
      rw [Notification.task, unknown] at hQ
      contradiction
  | @syscall memory call P found =>
      refine ⟨[.process (σ.processForThread call.tid) (some _)], rfl, ?_, fun u hu => ?_⟩
      · simp [Update.Within, Notification.task]
      · have hthread := hu.processForThread
        rw [Notification.task] at hthread
        have heffect : Effect (u.apply σ) (.syscall memory call) _ _ :=
          .syscall (hfound hu found)
        rwa [hu.attributed (hpid found), hthread] at heffect

/-! ### Effects determine the outcome -/

theorem Effect.unique {σ₁ σ₂ : ExecutionState} {es₁ es₂ : List Event} (h₁ : Effect σ n σ₁ es₁)
    (h₂ : Effect σ n σ₂ es₂) : σ₁ = σ₂ ∧ es₁ = es₂ := by
  cases h₁ <;> cases h₂ <;> simp_all

/-- An effect is the outcome of its notification. -/
theorem Effect.notify_eq (h : Effect σ n σ' es) : σ.notify n = .ok (σ', es) := by
  cases hstep : σ.notify n with
  | ok r =>
      obtain ⟨rfl, rfl⟩ := h.unique (notify_effect hstep)
      rfl
  | error e =>
      -- only a marker throws, and only when it matches none of the cases
      cases h with
      | markerIgnored other =>
          simp only [notify, onCommandMarker] at hstep
          split at hstep
          · contradiction
          · rename_i P hP
            rw [if_pos (other P hP)] at hstep
            contradiction
      | arm found root type idle free =>
          simp [notify, onCommandMarker, found, root, type, idle, free] at hstep
      | start found root type active id armed held =>
          simp [notify, onCommandMarker, found, root, type, active, id, armed, held] at hstep
      | stop found root type active id started held =>
          simp [notify, onCommandMarker, found, root, type, active, id, started, held] at hstep
      | _ => contradiction

/-! ### Independent notifications -/

/-- The notifications concern different known processes, neither creates a
task of the other, and they do not create the same task. -/
structure Independent (σ : ExecutionState) (n n' : Notification) : Prop where
  known : Known σ n
  known' : Known σ n'
  different : σ.processForThread n.task ≠ σ.processForThread n'.task
  fresh : ∀ c, n.creates c = true → c ≠ n'.task ∧ c ≠ σ.processForThread n'.task
  fresh' : ∀ c, n'.creates c = true → c ≠ n.task ∧ c ≠ σ.processForThread n.task
  distinct : ∀ c, n.creates c = true → n'.creates c = false

namespace Independent

variable {n' : Notification}

theorem symm (h : Independent σ n n') : Independent σ n' n where
  known := h.known'
  known' := h.known
  different := h.different.symm
  fresh := h.fresh'
  fresh' := h.fresh
  distinct c hc := by
    by_contra hcreates
    rw [h.distinct c (by simpa using hcreates)] at hc
    contradiction

theorem task_ne (h : Independent σ n n') : n.task ≠ n'.task :=
  fun htask => h.different (by rw [htask])

theorem creates_eq_false (h : Independent σ n n') {c : Pid}
    (hc : c = n.task ∨ c = σ.processForThread n.task) : n'.creates c = false := by
  by_contra hcreates
  obtain ⟨htask, hprocess⟩ := h.fresh' c (by simpa using hcreates)
  exact hc.elim htask hprocess

/-- What one of the notifications changes, the other does not notice. -/
theorem apart (h : Independent σ n n') {u : Update} (hu : u.Within σ n) : u.Apart σ n' := by
  cases u with
  | process key P =>
      rcases hu with rfl | hu
      · exact ⟨h.different, h.creates_eq_false (.inr rfl)⟩
      · exact ⟨(h.fresh key hu).2, h.distinct key hu⟩
  | thread tid p =>
      rcases hu with rfl | hu
      · exact ⟨h.task_ne, h.creates_eq_false (.inl rfl)⟩
      · exact ⟨(h.fresh tid hu).1, h.distinct tid hu⟩
  | active a => exact fun hroot => h.different (Eq.trans hu hroot.symm)

end Independent

/-- Updates elsewhere change neither the events of a notification nor its own
updates. -/
theorem Effect.after_updates (he : Effect σ n σ' es) (hknown : KnownAs σ n) {us : List Update}
    (hus : ∀ u ∈ us, u.Apart σ n) :
    Effect (us.foldl Update.apply σ) n (us.foldl Update.apply σ') es := by
  induction us generalizing σ σ' with
  | nil => exact he
  | cons u us ih =>
      have hu := hus u (by simp)
      obtain ⟨ws, rfl, hws, hnatural⟩ := he.updates hknown
      have hcomm : ws.foldl Update.apply (u.apply σ) = u.apply (ws.foldl Update.apply σ) :=
        Update.apply_comm.foldl_step (fun w hw => hu.disjoint (hws w hw)) σ
      have hnext := hnatural u hu
      rw [hcomm] at hnext
      exact ih hnext (hknown.apply hu) fun v hv => (hus v (by simp [hv])).apply hu

namespace Update

/-- The update that restores the entry. -/
def undo (σ : ExecutionState) : Update → Update
  | .process key _ => .process key (σ.processes key)
  | .thread tid _ => .thread tid (σ.threadToProcess tid)
  | .active _ => .active σ.activeCommand

theorem undo_apply (u : Update) (σ : ExecutionState) : (u.undo σ).apply (u.apply σ) = σ := by
  cases u <;> simp [undo, apply, setThread]

theorem Apart.undo (h : u.Apart σ n) : (u.undo σ).Apart (u.apply σ) n := by
  have happly := h.apply h
  cases u <;> exact happly

end Update

/-- Nor do updates elsewhere decide whether a notification throws. -/
theorem Effect.before_updates {us : List Update} (hknown : KnownAs σ n)
    (hus : ∀ u ∈ us, u.Apart σ n) {τ : ExecutionState}
    (he : Effect (us.foldl Update.apply σ) n τ es) : ∃ σ', Effect σ n σ' es := by
  induction us generalizing σ with
  | nil => exact ⟨τ, he⟩
  | cons u us ih =>
      have hu := hus u (by simp)
      obtain ⟨ρ, hρ⟩ := ih (hknown.apply hu) (fun v hv => (hus v (by simp [hv])).apply hu) he
      have hundo : ∀ v ∈ [u.undo σ], v.Apart (u.apply σ) n := by simpa using hu.undo
      have hback := hρ.after_updates (hknown.apply hu) hundo
      rw [List.foldl_cons, List.foldl_nil, Update.undo_apply] at hback
      exact ⟨_, hback⟩

/-- Two independent notifications have the same outcome in either order. -/
theorem Independent.swap {n' : Notification} (h : Independent σ n n') (hkeyed : σ.Keyed)
    {σ₁ τ : ExecutionState} {es' : List Event} (hfirst : σ.notify n = .ok (σ₁, es))
    (hsecond : σ₁.notify n' = .ok (τ, es')) :
    ∃ σ₂, σ.notify n' = .ok (σ₂, es') ∧ σ₂.notify n = .ok (τ, es) := by
  have hknown := h.known.knownAs hkeyed
  have hknown' := h.known'.knownAs hkeyed
  have he := notify_effect hfirst
  obtain ⟨us, rfl, hus, -⟩ := he.updates hknown
  have hus' : ∀ u ∈ us, u.Apart σ n' := fun u hu => h.apart (hus u hu)
  obtain ⟨σ₂, he'⟩ := Effect.before_updates hknown' hus' (notify_effect hsecond)
  obtain ⟨hτ, -⟩ := (he'.after_updates hknown' hus').unique (notify_effect hsecond)
  obtain ⟨vs, rfl, hvs, -⟩ := he'.updates hknown'
  have hlast := he.after_updates hknown fun v hv => h.symm.apart (hvs v hv)
  have hcomm : vs.foldl Update.apply (us.foldl Update.apply σ) =
      us.foldl Update.apply (vs.foldl Update.apply σ) :=
    Update.apply_comm.foldl_foldl (fun u hu v hv => (hus' u hu).disjoint (hvs v hv)) σ
  rw [hcomm, hτ] at hlast
  exact ⟨_, he'.notify_eq, hlast.notify_eq⟩

/-! ### Runs -/

section runs

variable {root : Pid} {cwd : Bytes} {rootCommand : Option Bytes} {startNs : UInt64}
  {past : List Notification} {n' : Notification}

theorem keyed_record (hrun : record root cwd rootCommand startNs past = .ok (σ, es)) :
    σ.Keyed := by
  obtain ⟨out, hrest, -⟩ := (record_ok_iff ..).mp hrun
  refine Transducer.run_invariant (motive := fun _ σ _ => σ.Keyed) (initialState_keyed _ _ _ _)
    ?_ hrest
  intro past σ out n σ' o hkeyed hstep
  exact (notify_effect hstep).keyed hkeyed

/-- The events of one process. -/
def processEvents (p : Pid) (es : List Event) : List Event := es.filter fun e => e.pid = p

/-- Independent notifications commute: from every reachable state either order
of the two throws or neither does, both end in the same state, each of the
two emits the same events, and whatever follows, every process has the same
history of events. -/
theorem independent_notifications_commute
    (hrun : record root cwd rootCommand startNs past = .ok (σ, out))
    (h : Independent σ n n') :
    (∀ τ es es', (∃ σ₁, σ.notify n = .ok (σ₁, es) ∧ σ₁.notify n' = .ok (τ, es')) ↔
      ∃ σ₂, σ.notify n' = .ok (σ₂, es') ∧ σ₂.notify n = .ok (τ, es)) ∧
    ∀ rest τ es, record root cwd rootCommand startNs (past ++ n :: n' :: rest) = .ok (τ, es) →
      ∃ es', record root cwd rootCommand startNs (past ++ n' :: n :: rest) = .ok (τ, es') ∧
        ∀ p, processEvents p es = processEvents p es' := by
  have hkeyed := keyed_record hrun
  refine ⟨fun τ es es' => ⟨?_, ?_⟩, fun rest τ es hwhole => ?_⟩
  · rintro ⟨σ₁, hfirst, hsecond⟩
    exact h.swap hkeyed hfirst hsecond
  · rintro ⟨σ₂, hfirst, hsecond⟩
    exact h.symm.swap hkeyed hfirst hsecond
  · obtain ⟨ρ, before, after, hpast, hafter, rfl⟩ := (record_append_ok_iff ..).mp hwhole
    obtain ⟨rfl, rfl⟩ := Prod.mk.inj (Except.ok.inj (hrun.symm.trans hpast))
    obtain ⟨σ₁, o, more, hfirst, hmore, rfl⟩ := Transducer.run_cons_ok_iff.mp hafter
    obtain ⟨τ₁, o', last, hsecond, hlast, rfl⟩ := Transducer.run_cons_ok_iff.mp hmore
    obtain ⟨σ₂, hfirst', hsecond'⟩ := h.swap hkeyed hfirst hsecond
    refine ⟨out ++ (o' ++ (o ++ last)), (record_append_ok_iff ..).mpr ⟨σ, out, _, hpast,
      Transducer.run_cons_ok_iff.mpr ⟨σ₂, o', o ++ last, hfirst',
        Transducer.run_cons_ok_iff.mpr ⟨τ₁, o, last, hsecond', hlast, rfl⟩, rfl⟩, rfl⟩,
      fun p => ?_⟩
    -- the events of the two notifications belong to different processes
    obtain ⟨P, hP⟩ := h.known
    obtain ⟨P', hP'⟩ := h.known'
    have hpid := hkeyed _ P hP
    have hpid' := hkeyed _ P' hP'
    have hswap :
        processEvents p o ++ processEvents p o' = processEvents p o' ++ processEvents p o := by
      by_cases hp : p = P.pid
      · have hnil : processEvents p o' = [] := by
          refine List.filter_eq_nil_iff.mpr fun e he => ?_
          have hevent := ((notify_effect hfirst').eventOf hP' he).pid
          simp only [decide_eq_true_eq]
          rw [hevent, hp, hpid, hpid']
          exact h.different.symm
        rw [hnil, List.append_nil, List.nil_append]
      · have hnil : processEvents p o = [] := by
          refine List.filter_eq_nil_iff.mpr fun e he => ?_
          have hevent := ((notify_effect hfirst).eventOf hP he).pid
          simp only [decide_eq_true_eq]
          rw [hevent]
          exact Ne.symm hp
        rw [hnil, List.append_nil, List.nil_append]
    simp only [processEvents] at hswap ⊢
    simp only [List.filter_append]
    rw [← List.append_assoc (List.filter _ o), hswap, List.append_assoc]

end runs

/-- The exit of a child and an arm marker of the root, in either order. -/
theorem independent_sample :
    ∃ σ out, record 7 (lit "/") none 0 [.created 7 8 ptraceEventFork 0 1] = .ok (σ, out) ∧
      ∀ τ es es', (∃ σ₁, σ.notify (.exited 8 0 0 2) = .ok (σ₁, es) ∧
          σ₁.notify (.marker 7 { type := .arm, id := 1 } 3) = .ok (τ, es')) ↔
        ∃ σ₂, σ.notify (.marker 7 { type := .arm, id := 1 } 3) = .ok (σ₂, es') ∧
          σ₂.notify (.exited 8 0 0 2) = .ok (τ, es) := by
  obtain ⟨σ, out, hrun, hindependent⟩ : ∃ σ out,
      record 7 (lit "/") none 0 [.created 7 8 ptraceEventFork 0 1] = .ok (σ, out) ∧
        Independent σ (.exited 8 0 0 2) (.marker 7 { type := .arm, id := 1 } 3) :=
    ⟨_, _, rfl, ⟨_, rfl⟩, ⟨_, rfl⟩, by decide, nofun, nofun, nofun⟩
  exact ⟨σ, out, hrun, (independent_notifications_commute hrun hindependent).1⟩

end Whyrun
