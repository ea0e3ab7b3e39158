import Whyrun.Execution.Lifecycle

/-!
Runs of the execution state: which histories the kernel can produce, and
the life of commands over a whole run. A run starts with
`add_initial_process`, in command mode (with a root command) or in session
mode (without one).
-/

namespace Whyrun

open ByteText ExecutionState

/-! ### Histories -/

/-- The exit of the root has not been reported. -/
def rootAlive (root : Pid) (past : List Notification) : Bool :=
  past.all fun n => !n.exits root

@[simp] theorem rootAlive_nil (root : Pid) : rootAlive root [] = true := rfl

@[simp] theorem rootAlive_append (root : Pid) (past rest : List Notification) :
    rootAlive root (past ++ rest) = (rootAlive root past && rootAlive root rest) := by
  simp [rootAlive, List.all_append]

@[simp] theorem rootAlive_singleton (root : Pid) (n : Notification) :
    rootAlive root [n] = !n.exits root := by
  simp [rootAlive]

/-- No new task gets the tid of the live root, and markers come only while
the root lives. -/
structure LifecycleAdmits (root : Pid) (past : List Notification) (n : Notification) :
    Prop where
  fresh : rootAlive root past = true → n.creates root = false
  marker : n.isMarker = true → rootAlive root past = true

/-! ### The first state -/

section initial

variable (root : Pid) (cwd : Bytes) (rootCommand : Option Bytes) (startNs : UInt64)

/-- The state after `add_initial_process`. -/
def initialState : ExecutionState := (addInitialProcess root cwd rootCommand startNs).1

/-- The events of `add_initial_process`. -/
def initialEvents : List Event := (addInitialProcess root cwd rootCommand startNs).2

theorem record_ok_iff {ns : List Notification} {σ : ExecutionState} {es : List Event} :
    record root cwd rootCommand startNs ns = .ok (σ, es) ↔
      ∃ es', Transducer.run notify (initialState root cwd rootCommand startNs) ns =
        .ok (σ, es') ∧ es = initialEvents root cwd rootCommand startNs ++ es' := by
  unfold record
  dsimp only
  rw [← initialState, ← initialEvents]
  cases hrun : Transducer.run notify (initialState root cwd rootCommand startNs) ns with
  | error e => simp [Except.map]
  | ok r =>
      obtain ⟨τ, out⟩ := r
      simp only [Except.map, Except.ok.injEq, Prod.mk.injEq]
      constructor
      · rintro ⟨rfl, rfl⟩
        exact ⟨out, ⟨rfl, rfl⟩, rfl⟩
      · rintro ⟨es', ⟨rfl, rfl⟩, rfl⟩
        exact ⟨rfl, rfl⟩

theorem record_append_ok_iff {past rest : List Notification} {σ : ExecutionState}
    {es : List Event} :
    record root cwd rootCommand startNs (past ++ rest) = .ok (σ, es) ↔
      ∃ τ out more, record root cwd rootCommand startNs past = .ok (τ, out) ∧
        Transducer.run notify τ rest = .ok (σ, more) ∧ es = out ++ more := by
  simp only [record_ok_iff, Transducer.run_append_ok_iff]
  constructor
  · rintro ⟨_, ⟨τ, o, o', hpast, hrest, rfl⟩, rfl⟩
    exact ⟨τ, _, o', ⟨o, hpast, rfl⟩, hrest, by simp⟩
  · rintro ⟨τ, _, o', ⟨o, hpast, rfl⟩, hrest, rfl⟩
    exact ⟨o ++ o', ⟨τ, o, o', hpast, hrest, rfl⟩, by simp⟩

theorem initialState_rootPid : (initialState root cwd rootCommand startNs).rootPid = root := by
  unfold initialState addInitialProcess
  cases rootCommand <;> rfl

theorem initialState_processes (k : Pid) :
    (initialState root cwd rootCommand startNs).processes k =
      if k = root then
        some { pid := root, cwd, commandId := rootCommand.map fun _ => 1 }
      else none := by
  have hupdate : (initialState root cwd rootCommand startNs).processes =
      Function.update (fun _ => none) root
        (some { pid := root, cwd, commandId := rootCommand.map fun _ => 1 }) := by
    unfold initialState addInitialProcess
    cases rootCommand <;> rfl
  rw [hupdate]
  by_cases h : k = root
  · subst h; simp
  · simp [h]

theorem initialState_threadToProcess (k : Pid) :
    (initialState root cwd rootCommand startNs).threadToProcess k =
      if k = root then some root else none := by
  have hupdate : (initialState root cwd rootCommand startNs).threadToProcess =
      Function.update (fun _ => none) root (some root) := by
    unfold initialState addInitialProcess
    cases rootCommand <;> rfl
  rw [hupdate]
  by_cases h : k = root
  · subst h; simp
  · simp [h]

theorem initialState_activeCommand :
    (initialState root cwd rootCommand startNs).activeCommand =
      rootCommand.map fun _ => ⟨1, some startNs, true⟩ := by
  unfold initialState addInitialProcess
  cases rootCommand <;> rfl

theorem initialEvents_eq :
    initialEvents root cwd rootCommand startNs =
      rootCommand.toList.map fun text => commandStartEvent root root 1 text cwd startNs := by
  unfold initialEvents addInitialProcess
  cases rootCommand with
  | none => rfl
  | some text => simp [emit_of_commandId _ (e := commandStartEvent ..) rfl]

theorem initialState_keyed : (initialState root cwd rootCommand startNs).Keyed := by
  intro k P hP
  rw [initialState_processes] at hP
  split at hP
  · obtain rfl := Option.some.inj hP
    exact Eq.symm ‹_›
  · contradiction

theorem initialState_rootHolds : RootHolds (initialState root cwd rootCommand startNs) := by
  refine ⟨?_, { pid := root, cwd, commandId := rootCommand.map fun _ => 1 }, ?_, ?_⟩
  · simp [initialState_rootPid, initialState_threadToProcess]
  · simp [initialState_rootPid, initialState_processes]
  · rw [initialState_activeCommand]
    cases rootCommand <;> rfl

theorem initial_alternates :
    Alternates (marks (initialEvents root cwd rootCommand startNs))
      (initialState root cwd rootCommand startNs).openCommand := by
  refine ⟨[], ?_⟩
  rw [initialEvents_eq, openCommand, initialState_activeCommand]
  cases rootCommand <;> rfl

end initial

/-! ### The life of commands over a run -/

variable {root : Pid} {cwd : Bytes} {rootCommand : Option Bytes} {startNs : UInt64}

/-- What a run has established after the notifications `past`. -/
structure LifecycleInv (root : Pid) (first : List Event) (past : List Notification)
    (σ : ExecutionState) (out : List Event) : Prop where
  rootPid : σ.rootPid = root
  keyed : σ.Keyed
  alive : rootAlive root past = true → RootHolds σ
  dead : rootAlive root past = false → σ.activeCommand = none
  alternates : Alternates (marks (first ++ out)) σ.openCommand

theorem LifecycleInv.rootHolds_or_idle {first out : List Event} {past : List Notification}
    {σ : ExecutionState} (h : LifecycleInv root first past σ out) :
    RootHolds σ ∨ σ.activeCommand = none := by
  cases halive : rootAlive root past with
  | true => exact .inl (h.alive halive)
  | false => exact .inr (h.dead halive)

/-- One admitted notification keeps the invariant. -/
theorem LifecycleInv.next {first out es : List Event} {past : List Notification}
    {σ σ' : ExecutionState} {n : Notification} (h : LifecycleInv root first past σ out)
    (admits : LifecycleAdmits root past n) (he : Effect σ n σ' es) :
    LifecycleInv root first (past ++ [n]) σ' (out ++ es) where
  rootPid := he.rootPid.trans h.rootPid
  keyed := he.keyed h.keyed
  alive halive := by
    simp only [rootAlive_append, rootAlive_singleton, Bool.and_eq_true,
      Bool.not_eq_true'] at halive
    refine he.rootHolds h.keyed (h.alive halive.1) ?_ ?_
    · rw [h.rootPid, halive.2]
    · rw [h.rootPid, admits.fresh halive.1]
  dead hdead := by
    cases halive : rootAlive root past with
    | true =>
        have hexit : n.exits root = true := by
          simpa [halive] using hdead
        exact (he.exit_root h.keyed (h.alive halive) (by rw [h.rootPid, hexit])).1
    | false =>
        refine he.idle (h.dead halive) ?_
        by_contra hmarker
        have := admits.marker (by simpa using hmarker)
        simp [halive] at this
  alternates := by
    rw [← List.append_assoc, marks_append]
    exact h.alternates.step (he.markStep h.keyed h.rootHolds_or_idle)

/-- Every legal run keeps the invariant. -/
theorem lifecycle_run {ns : List Notification}
    (legal : Transducer.Legal (LifecycleAdmits root) ns) {σ : ExecutionState}
    {es : List Event}
    (hrun : Transducer.run notify (initialState root cwd rootCommand startNs) ns =
      .ok (σ, es)) :
    LifecycleInv root (initialEvents root cwd rootCommand startNs) ns σ es := by
  refine Transducer.run_induction
    (motive := LifecycleInv root (initialEvents root cwd rootCommand startNs)) ?_ ?_ legal hrun
  · exact ⟨initialState_rootPid .., initialState_keyed _ _ _ _, fun _ => initialState_rootHolds ..,
      by simp, by simpa using initial_alternates root cwd rootCommand startNs⟩
  · intro past σ out n σ' es _ hinv admits hstep
    exact hinv.next admits (notify_effect hstep)

/-- After the root's exit a run emits no command event. -/
theorem marks_after_exit {ns : List Notification} {σ σ' : ExecutionState} {es : List Event}
    (hkeyed : σ.Keyed) (hidle : σ.activeCommand = none)
    (hmarker : ∀ n ∈ ns, n.isMarker = false)
    (hrun : Transducer.run notify σ ns = .ok (σ', es)) : marks es = [] := by
  induction ns generalizing σ es with
  | nil =>
      simp only [Transducer.run_nil, Except.ok.injEq, Prod.mk.injEq] at hrun
      rw [← hrun.2, marks_nil]
  | cons n ns ih =>
      obtain ⟨τ, o, o', hstep, hrest, rfl⟩ := Transducer.run_cons_ok_iff.mp hrun
      have he := notify_effect hstep
      have hidle' := he.idle hidle (hmarker n (by simp))
      have hmark := he.markStep hkeyed (.inr hidle)
      rw [openCommand_eq_none_of_idle hidle, openCommand_eq_none_of_idle hidle'] at hmark
      have hquiet : marks o = [] := by
        generalize marks o = ms at hmark
        cases hmark
        rfl
      rw [marks_append, hquiet, List.nil_append]
      exact ih (he.keyed hkeyed) hidle' (fun m hm => hmarker m (by simp [hm])) hrest

/-- Memory that holds the path `x` everywhere. -/
def sampleMemory : TraceeMemory where
  readString _ _ := lit "x"
  readBytes _ _ _ := none
  readBytes_length h := by contradiction

/-- Memory that holds the text and the bytes everywhere. -/
def sampleMemoryOf (text bytes : Bytes) : TraceeMemory where
  readString _ _ := text
  readBytes _ _ size := if size ≤ bytes.length then some (bytes.take size) else none
  readBytes_length h := by
    split at h
    · rename_i hsize
      rw [← Option.some.inj h, List.length_take]
      exact Nat.min_eq_left hsize
    · contradiction

end Whyrun
