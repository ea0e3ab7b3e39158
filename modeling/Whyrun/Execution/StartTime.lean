import Whyrun.Execution.Runs

/-!
When a command starts. The start of a command may be reported after events
that belong to it: the root already forks while the command is only armed.
`firstProcessNs` is the time of the first such fork, and the start is dated
back to it. The invariant says that it bounds everything that carries the
armed id.
-/

namespace Whyrun

open ByteText ExecutionState

variable {σ σ' : ExecutionState} {n : Notification} {es out : List Event}
  {past ns : List Notification}

/-! ### Armed ids -/

/-- The id that the notification arms. -/
def Notification.arms : Notification → Option UInt64
  | .marker _ m _ => if m.type = .arm then some m.id else none
  | _ => none

/-- The ids of the arm markers of a history, in order. -/
def armedIds (ns : List Notification) : List UInt64 := ns.filterMap Notification.arms

@[simp] theorem armedIds_append (ns ns' : List Notification) :
    armedIds (ns ++ ns') = armedIds ns ++ armedIds ns' := by
  simp [armedIds]

theorem mem_armedIds_append {id : UInt64} (h : id ∈ armedIds past) (ns : List Notification) :
    id ∈ armedIds (past ++ ns) := by
  simp [h]

/-! ### The invariant -/

/-- An armed command bounds what carries its id: no start of it has been
emitted, every event of it is at or after its first process, and a process
other than the root holds it only once there is a first process. -/
structure ArmedBound (σ : ExecutionState) (out : List Event) (a : ActiveCommand) : Prop where
  unstarted : ∀ e ∈ out, e.commandId = some a.id → e.type ≠ .commandStart
  bounded : ∀ e ∈ out, e.commandId = some a.id →
    ∃ t, a.firstProcessNs = some t ∧ t ≤ e.timestampNs
  holders : ∀ k P, σ.processes k = some P → P.commandId = some a.id →
    P.pid = σ.rootPid ∨ a.firstProcessNs.isSome = true

structure StartBound (past : List Notification) (σ : ExecutionState) (out : List Event) :
    Prop where
  /-- Only armed ids are in use. -/
  processes : ∀ k P c, σ.processes k = some P → P.commandId = some c → c ∈ armedIds past
  events : ∀ e ∈ out, ∀ c, e.commandId = some c → c ∈ armedIds past
  active : ∀ a, σ.activeCommand = some a → a.id ∈ armedIds past
  /-- Every time is the time of a notification. -/
  times : ∀ e ∈ out, ∃ n ∈ past, e.timestampNs = n.timestampNs
  first : ∀ a t, σ.activeCommand = some a → a.firstProcessNs = some t →
    ∃ n ∈ past, t = n.timestampNs
  armed : ∀ a, σ.activeCommand = some a → a.started = false → ArmedBound σ out a
  /-- No event of a command is before its start. -/
  started : ∀ s ∈ out, s.type = .commandStart → ∀ e ∈ out, e.commandId = s.commandId →
    s.timestampNs ≤ e.timestampNs

/-- The notification is not earlier than those before it, and arms no id for
the second time. -/
structure TimedAdmits (past : List Notification) (n : Notification) : Prop where
  time : ∀ m ∈ past, m.timestampNs ≤ n.timestampNs
  fresh : ∀ id, n.arms = some id → id ∉ armedIds past

theorem legal_timed (htimes : ns.Pairwise fun m n => m.timestampNs ≤ n.timestampNs)
    (hids : (armedIds ns).Nodup) : Transducer.Legal TimedAdmits ns := by
  rintro past n rest rfl
  constructor
  · intro m hm
    exact (List.pairwise_append.mp htimes).2.2 m hm n (by simp)
  · intro id hid hmem
    rw [armedIds_append] at hids
    exact (List.disjoint_of_nodup_append hids) hmem (by simp [armedIds, hid])

theorem StartBound.time_mem (h : StartBound past σ out) {e : Event} (he : e ∈ out)
    (n : Notification) : ∃ m ∈ past ++ [n], e.timestampNs = m.timestampNs := by
  obtain ⟨m, hm, htime⟩ := h.times e he
  exact ⟨m, List.mem_append_left _ hm, htime⟩

theorem StartBound.first_mem (h : StartBound past σ out) {a : ActiveCommand} {t : UInt64}
    (ha : σ.activeCommand = some a) (ht : a.firstProcessNs = some t) (n : Notification) :
    ∃ m ∈ past ++ [n], t = m.timestampNs := by
  obtain ⟨m, hm, htime⟩ := h.first a t ha ht
  exact ⟨m, List.mem_append_left _ hm, htime⟩

/-- A notification that arms and starts nothing and gives no process a new
command keeps the bound; its events carry commands of processes that are not
the root of an armed command. -/
theorem StartBound.of_quiet (h : StartBound past σ out) (admits : TimedAdmits past n)
    (hactive : σ'.activeCommand = σ.activeCommand ∨ σ'.activeCommand = none)
    (hroot : σ'.rootPid = σ.rootPid)
    (hprocesses : ∀ k P' c, σ'.processes k = some P' → P'.commandId = some c →
      ∃ k₀ P, σ.processes k₀ = some P ∧ P.commandId = some c ∧ P.pid = P'.pid)
    (htimes : ∀ e ∈ es, e.timestampNs = n.timestampNs)
    (htypes : ∀ e ∈ es, e.type ≠ .commandStart)
    (hevents : ∀ e ∈ es, ∀ c, e.commandId = some c →
      ∃ k P, σ.processes k = some P ∧ P.commandId = some c ∧
        ¬ (P.pid = σ.rootPid ∧ σ.isArmed = true)) :
    StartBound (past ++ [n]) σ' (out ++ es) := by
  have hsame : ∀ a, σ'.activeCommand = some a → σ.activeCommand = some a := by
    intro a ha
    rcases hactive with hactive | hactive
    · rw [← hactive, ha]
    · rw [hactive] at ha
      contradiction
  have hbefore : ∀ e ∈ out, e.timestampNs ≤ n.timestampNs := by
    intro e he
    obtain ⟨m, hm, htime⟩ := h.times e he
    rw [htime]
    exact admits.time m hm
  refine ⟨?_, ?_, ?_, ?_, ?_, ?_, ?_⟩
  · intro k P' c hP' hc
    obtain ⟨k₀, P, hP, hPc, -⟩ := hprocesses k P' c hP' hc
    exact mem_armedIds_append (h.processes k₀ P c hP hPc) _
  · intro e he c hc
    rcases List.mem_append.mp he with he | he
    · exact mem_armedIds_append (h.events e he c hc) _
    · obtain ⟨k, P, hP, hPc, -⟩ := hevents e he c hc
      exact mem_armedIds_append (h.processes k P c hP hPc) _
  · exact fun a ha => mem_armedIds_append (h.active a (hsame a ha)) _
  · intro e he
    rcases List.mem_append.mp he with he | he
    · exact h.time_mem he _
    · exact ⟨n, by simp, htimes e he⟩
  · intro a t ha ht
    exact h.first_mem (hsame a ha) ht _
  · intro a ha hstarted
    have ha' := hsame a ha
    obtain ⟨hunstarted, hbounded, hholders⟩ := h.armed a ha' hstarted
    have harmed : σ.isArmed = true := by simp [isArmed, ha', hstarted]
    have hfirst : ∀ e ∈ es, e.commandId = some a.id →
        ∃ t, a.firstProcessNs = some t ∧ t ≤ e.timestampNs := by
      intro e he hid
      obtain ⟨k, P, hP, hPid, hother⟩ := hevents e he a.id hid
      rcases hholders k P hP hPid with hpid | hsome
      · exact absurd ⟨hpid, harmed⟩ hother
      · obtain ⟨t, ht⟩ := Option.isSome_iff_exists.mp hsome
        obtain ⟨m, hm, rfl⟩ := h.first a t ha' ht
        exact ⟨_, ht, by rw [htimes e he]; exact admits.time m hm⟩
    refine ⟨fun e he hid => ?_, fun e he hid => ?_, fun k P' hP' hid => ?_⟩
    · rcases List.mem_append.mp he with he | he
      · exact hunstarted e he hid
      · exact htypes e he
    · rcases List.mem_append.mp he with he | he
      · exact hbounded e he hid
      · exact hfirst e he hid
    · obtain ⟨k₀, P, hP, hPid, hpid⟩ := hprocesses k P' a.id hP' hid
      rw [← hpid, hroot]
      exact hholders k₀ P hP hPid
  · intro s hs htype e he hid
    rcases List.mem_append.mp hs with hs | hs
    · rcases List.mem_append.mp he with he | he
      · exact h.started s hs htype e he hid
      · rw [htimes e he]
        exact hbefore s hs
    · exact absurd htype (htypes s hs)

/-! ### The three notifications that are not quiet -/

theorem StartBound.arm (h : StartBound past σ out) {tid key : Pid} {m : CommandMarker} {t : UInt64}
    {P : ProcessState} (admits : TimedAdmits past (.marker tid m t)) (type : m.type = .arm)
    (root : P.pid = σ.rootPid) :
    StartBound (past ++ [.marker tid m t])
      { σ.setProcess key { P with commandId := some m.id } with
        activeCommand := some ⟨m.id, none, false⟩ } out := by
  have hid : m.id ∉ armedIds past := admits.fresh m.id (by simp [Notification.arms, type])
  have hnew : m.id ∈ armedIds (past ++ [.marker tid m t]) := by
    simp [armedIds, Notification.arms, type]
  have hunused : ∀ e ∈ out, e.commandId ≠ some m.id := fun e he hc => hid (h.events e he m.id hc)
  refine ⟨?_, fun e he c hc => mem_armedIds_append (h.events e he c hc) _, ?_, ?_, ?_, ?_,
    h.started⟩
  · intro k Q c hQ hc
    simp only [processes_setProcess] at hQ
    split at hQ
    · obtain rfl := Option.some.inj hQ
      obtain rfl : m.id = c := Option.some.inj hc
      exact hnew
    · exact mem_armedIds_append (h.processes k Q c hQ hc) _
  · rintro a ha
    obtain rfl := Option.some.inj ha
    exact hnew
  · intro e he
    exact h.time_mem he _
  · rintro a t' ha ht
    obtain rfl := Option.some.inj ha
    contradiction
  · rintro a ha -
    obtain rfl := Option.some.inj ha
    refine ⟨fun e he hc => absurd hc (hunused e he), fun e he hc => absurd hc (hunused e he), ?_⟩
    intro k Q hQ hc
    simp only [processes_setProcess] at hQ
    split at hQ
    · obtain rfl := Option.some.inj hQ
      exact .inl root
    · exact absurd (h.processes k Q m.id hQ hc) hid

/-- The start is dated to the first process, or to the marker when no event
of the command has been emitted. -/
theorem StartBound.start (h : StartBound past σ out) {tid pid : Pid} {m : CommandMarker}
    {t : UInt64} {a : ActiveCommand} (active : σ.activeCommand = some a) (id : a.id = m.id)
    (armed : a.started = false) :
    StartBound (past ++ [.marker tid m t])
      { σ with activeCommand := some { a with started := true } }
      (out ++ [commandStartEvent pid tid m.id m.text m.cwd (a.firstProcessNs.getD t)]) := by
  obtain ⟨hunstarted, hbounded, -⟩ := h.armed a active armed
  have hmem : m.id ∈ armedIds past := id ▸ h.active a active
  have htime : ∃ n ∈ past ++ [.marker tid m t], a.firstProcessNs.getD t = n.timestampNs := by
    cases hfirst : a.firstProcessNs with
    | none => exact ⟨.marker tid m t, by simp, rfl⟩
    | some t' =>
        exact h.first_mem active hfirst _
  refine ⟨fun k P c hP hc => mem_armedIds_append (h.processes k P c hP hc) _, ?_, ?_, ?_, ?_, ?_,
    ?_⟩
  · intro e he c hc
    rcases List.mem_append.mp he with he | he
    · exact mem_armedIds_append (h.events e he c hc) _
    · obtain rfl := List.mem_singleton.mp he
      obtain rfl : m.id = c := Option.some.inj hc
      exact mem_armedIds_append hmem _
  · intro b hb
    obtain rfl := Option.some.inj hb
    exact mem_armedIds_append (h.active a active) _
  · intro e he
    rcases List.mem_append.mp he with he | he
    · exact h.time_mem he _
    · obtain rfl := List.mem_singleton.mp he
      exact htime
  · intro b t' hb ht
    obtain rfl := Option.some.inj hb
    exact h.first_mem active ht _
  · intro b hb hstarted
    obtain rfl := Option.some.inj hb
    contradiction
  · intro s hs htype e he hc
    rcases List.mem_append.mp hs with hs | hs <;> rcases List.mem_append.mp he with he | he
    · exact h.started s hs htype e he hc
    · -- an earlier start of the same id would contradict that it is unstarted
      obtain rfl := List.mem_singleton.mp he
      exact absurd htype (hunstarted s hs (by rw [id]; exact hc.symm))
    · obtain rfl := List.mem_singleton.mp hs
      obtain ⟨t', ht', hle⟩ := hbounded e he (by rw [id]; exact hc)
      simpa [commandStartEvent, ht'] using hle
    · obtain rfl := List.mem_singleton.mp hs
      obtain rfl := List.mem_singleton.mp he
      exact UInt64.le_refl _

/-- What noting a first process does to the active command. -/
theorem activeCommand_noteFirstProcess {p : Pid} {t : UInt64} {a' : ActiveCommand}
    (h : (σ.noteFirstProcess p t).activeCommand = some a') :
    ∃ a, σ.activeCommand = some a ∧ a'.id = a.id ∧ a'.started = a.started ∧
      (a'.firstProcessNs = a.firstProcessNs ∨
        (a.firstProcessNs = none ∧ a'.firstProcessNs = some t)) ∧
      (p = σ.rootPid → a.started = false → a'.firstProcessNs.isSome = true) := by
  unfold noteFirstProcess at h
  cases hactive : σ.activeCommand with
  | none => simp [hactive] at h
  | some a =>
      simp only [hactive] at h
      split at h
      · rename_i hnote
        obtain rfl := Option.some.inj h
        exact ⟨a, rfl, rfl, rfl, .inr ⟨hnote.2.2, rfl⟩, fun _ _ => rfl⟩
      · rename_i hnote
        obtain rfl : a = a' := Option.some.inj (hactive.symm.trans h)
        refine ⟨a, rfl, rfl, rfl, .inl rfl, fun hp hstarted => ?_⟩
        by_contra hnone
        exact hnote ⟨hp, by simp [hstarted], by simpa using hnone⟩

/-- A fork keeps the bound of an armed command; a fork by the root gives it
its first process. -/
theorem ArmedBound.fork {a a' : ActiveCommand} {parentTid childTid k : Pid} {ev : UInt32}
    {t : UInt64} {P : ProcessState} (h : ArmedBound σ out a) (hid : a'.id = a.id)
    (hfirst : a'.firstProcessNs = a.firstProcessNs ∨
      (a.firstProcessNs = none ∧ a'.firstProcessNs = some t))
    (hnoted : P.pid = σ.rootPid → a'.firstProcessNs.isSome = true)
    (hbefore : ∀ t', a.firstProcessNs = some t' → t' ≤ t) (found : σ.processes k = some P)
    (hroot : σ'.rootPid = σ.rootPid)
    (hprocesses : ∀ j Q c, σ'.processes j = some Q → Q.commandId = some c →
      P.commandId = some c ∨ σ.processes j = some Q) :
    ArmedBound σ' (out ++ [forkEvent P parentTid childTid ev t]) a' := by
  -- a holder of the armed id that is not the root had a first process before
  have hsome : ∀ j Q, σ.processes j = some Q → Q.commandId = some a.id →
      Q.pid = σ.rootPid ∨ a'.firstProcessNs.isSome = true := by
    intro j Q hQ hQid
    rcases h.holders j Q hQ hQid with hpid | hold
    · exact .inl hpid
    · rcases hfirst with hfirst | ⟨hnone, -⟩
      · exact .inr (by rw [hfirst, hold])
      · simp [hnone] at hold
  have hnote : P.commandId = some a.id → a'.firstProcessNs.isSome = true := by
    intro hPid
    rcases hsome k P found hPid with hpid | hold
    · exact hnoted hpid
    · exact hold
  refine ⟨fun e he hc => ?_, fun e he hc => ?_, fun j Q hQ hQid => ?_⟩
  · rw [hid] at hc
    rcases List.mem_append.mp he with he | he
    · exact h.unstarted e he hc
    · obtain rfl := List.mem_singleton.mp he
      exact fun htype => by contradiction
  · rw [hid] at hc
    rcases List.mem_append.mp he with he | he
    · obtain ⟨t', ht', hle⟩ := h.bounded e he hc
      rcases hfirst with hfirst | ⟨hnone, -⟩
      · exact ⟨t', hfirst.trans ht', hle⟩
      · simp [ht'] at hnone
    · obtain rfl := List.mem_singleton.mp he
      obtain ⟨t', ht'⟩ := Option.isSome_iff_exists.mp (hnote hc)
      refine ⟨t', ht', ?_⟩
      rcases hfirst with hfirst | ⟨-, hfirst⟩
      · exact hbefore t' (hfirst ▸ ht')
      · rw [hfirst] at ht'
        exact UInt64.le_of_eq (Option.some.inj ht').symm
  · rw [hid] at hQid
    rcases hprocesses j Q a.id hQ hQid with hPid | hQ
    · exact .inr (hnote hPid)
    · rw [hroot]
      exact hsome j Q hQ hQid

theorem StartBound.fork (h : StartBound past σ out) {parentTid childTid : Pid} {ev : UInt32}
    {flags t : UInt64} {k : Pid} {P : ProcessState}
    (admits : TimedAdmits past (.created parentTid childTid ev flags t))
    (found : σ.processes k = some P) :
    StartBound (past ++ [.created parentTid childTid ev flags t])
      (((σ.setProcess childTid { P with pid := childTid, parentPid := P.pid }).setThread
        childTid (some childTid)).noteFirstProcess P.pid t)
      (out ++ [forkEvent P parentTid childTid ev t]) := by
  set child : ProcessState := { P with pid := childTid, parentPid := P.pid } with hchild
  set σ₁ := (σ.setProcess childTid child).setThread childTid (some childTid) with hσ₁
  have hprocesses : ∀ j Q c, (σ₁.noteFirstProcess P.pid t).processes j = some Q →
      Q.commandId = some c → P.commandId = some c ∨ σ.processes j = some Q := by
    intro j Q c hQ hc
    simp only [processes_noteFirstProcess, hσ₁, processes_setThread, processes_setProcess] at hQ
    split at hQ
    · obtain rfl := Option.some.inj hQ
      exact .inl hc
    · exact .inr hQ
  have hforked : ∀ m ∈ past, m.timestampNs ≤ t := fun m hm => admits.time m hm
  refine ⟨?_, ?_, ?_, ?_, ?_, ?_, ?_⟩
  · intro j Q c hQ hc
    rcases hprocesses j Q c hQ hc with hPc | hQ
    · exact mem_armedIds_append (h.processes k P c found hPc) _
    · exact mem_armedIds_append (h.processes j Q c hQ hc) _
  · intro e he c hc
    rcases List.mem_append.mp he with he | he
    · exact mem_armedIds_append (h.events e he c hc) _
    · obtain rfl := List.mem_singleton.mp he
      exact mem_armedIds_append (h.processes k P c found hc) _
  · intro a' ha'
    obtain ⟨a, ha, hid, -⟩ := activeCommand_noteFirstProcess ha'
    exact mem_armedIds_append (hid ▸ h.active a ha) _
  · intro e he
    rcases List.mem_append.mp he with he | he
    · exact h.time_mem he _
    · obtain rfl := List.mem_singleton.mp he
      exact ⟨.created parentTid childTid ev flags t, by simp, rfl⟩
  · intro a' t' ha' ht'
    obtain ⟨a, ha, -, -, hfirst | ⟨-, hfirst⟩, -⟩ := activeCommand_noteFirstProcess ha'
    · exact h.first_mem ha (hfirst ▸ ht') _
    · refine ⟨.created parentTid childTid ev flags t, by simp, ?_⟩
      rw [hfirst] at ht'
      exact (Option.some.inj ht').symm
  · intro a' ha' hstarted'
    obtain ⟨a, ha, hid, hstarted, hfirst, hnoted⟩ := activeCommand_noteFirstProcess ha'
    rw [hstarted] at hstarted'
    refine (h.armed a ha hstarted').fork hid hfirst (fun hroot => hnoted hroot hstarted')
      (fun t' ht' => ?_) found (rootPid_noteFirstProcess _ _ _) hprocesses
    obtain ⟨m, hm, rfl⟩ := h.first a t' ha ht'
    exact hforked m hm
  · intro s hs htype e he hc
    rcases List.mem_append.mp hs with hs | hs
    · rcases List.mem_append.mp he with he | he
      · exact h.started s hs htype e he hc
      · obtain rfl := List.mem_singleton.mp he
        obtain ⟨m, hm, htime⟩ := h.times s hs
        rw [htime]
        exact hforked m hm
    · obtain rfl := List.mem_singleton.mp hs
      contradiction

/-! ### Runs -/

theorem holder_of_setProcess {key : Pid} {P Q : ProcessState} (found : σ.processes key = some P)
    (hpid : Q.pid = P.pid) (hcommand : ∀ c, Q.commandId = some c → P.commandId = some c) :
    ∀ k P' c, (σ.setProcess key Q).processes k = some P' → P'.commandId = some c →
      ∃ k₀ P, σ.processes k₀ = some P ∧ P.commandId = some c ∧ P.pid = P'.pid := by
  intro k P' c hP' hc
  rw [processes_setProcess] at hP'
  split at hP'
  · obtain rfl := Option.some.inj hP'
    exact ⟨key, P, found, hcommand c hc, hpid.symm⟩
  · exact ⟨k, P', hP', hc, rfl⟩

theorem holder_of_attribution {key : Pid} {P : ProcessState} (found : σ.processes key = some P)
    {c : UInt64} (hc : σ.attribution P = some c) :
    ∃ k Q, σ.processes k = some Q ∧ Q.commandId = some c ∧
      ¬ (Q.pid = σ.rootPid ∧ σ.isArmed = true) := by
  unfold attribution at hc
  split at hc
  · contradiction
  · exact ⟨key, P, found, hc, ‹_›⟩

/-- One notification keeps the bound. -/
theorem StartBound.next (h : StartBound past σ out) (admits : TimedAdmits past n)
    (he : Effect σ n σ' es) : StartBound (past ++ [n]) σ' (out ++ es) := by
  have hsame : ∀ k P' c, σ.processes k = some P' → P'.commandId = some c →
      ∃ k₀ P, σ.processes k₀ = some P ∧ P.commandId = some c ∧ P.pid = P'.pid :=
    fun k P' c hP' hc => ⟨k, P', hP', hc, rfl⟩
  cases he with
  | markerIgnored | createdUnknown | exitedUnknown | syscallUnknown =>
      exact h.of_quiet admits (.inl rfl) rfl hsame nofun nofun nofun
  | createdThread | exitedThread =>
      exact h.of_quiet admits (.inl rfl) rfl hsame nofun nofun nofun
  | arm found root type =>
      rw [List.append_nil]
      exact h.arm admits type root
  | start found root type active id armed => exact h.start active id armed
  | @stop tid m t P a found root type active id started held =>
      refine h.of_quiet admits (.inr rfl) rfl (holder_of_setProcess found rfl nofun) ?_ ?_ ?_
      · simp [commandEndEvent, Notification.timestampNs]
      · simp [commandEndEvent]
      · intro e he c hc
        obtain rfl := List.mem_singleton.mp he
        exact ⟨_, P, found, held.trans hc, by simp [isArmed, active, started]⟩
  | @exec tid links t P found =>
      refine h.of_quiet admits (.inl rfl) rfl (holder_of_setProcess found rfl fun _ => id) ?_ ?_ ?_
      · simp [execEvent, attributed, Notification.timestampNs]
      · simp [execEvent, attributed]
      · intro e he c hc
        obtain rfl := List.mem_singleton.mp he
        exact holder_of_attribution found hc
  | @execDiscovered tid links t unknown =>
      refine h.of_quiet admits (.inl rfl) rfl ?_ ?_ ?_ ?_
      · intro k P' c hP' hc
        simp only [processes_setThread, processes_setProcess] at hP'
        split at hP'
        · obtain rfl := Option.some.inj hP'
          contradiction
        · exact hsame k P' c hP' hc
      · simp [execEvent, Notification.timestampNs]
      · simp [execEvent]
      · intro e he c hc
        obtain rfl := List.mem_singleton.mp he
        contradiction
  | createdProcess found process => exact h.fork admits found
  | @exited tid code signal t P leader found notRoot =>
      refine h.of_quiet admits (.inl rfl) rfl (holder_of_setProcess found rfl fun _ => id) ?_ ?_ ?_
      · simp [exitEvent, attributed, Notification.timestampNs]
      · simp [exitEvent, attributed]
      · intro e he c hc
        obtain rfl := List.mem_singleton.mp he
        exact holder_of_attribution found hc
  | @exitedRunning tid code signal t P id leader found root started held =>
      refine h.of_quiet admits (.inr rfl) rfl (holder_of_setProcess found rfl nofun) ?_ ?_ ?_
      · simp [exitEvent, commandEndEvent, attributed, Notification.timestampNs]
      · simp [exitEvent, commandEndEvent, attributed]
      · intro e he c hc
        simp only [List.mem_cons, List.not_mem_nil, or_false] at he
        rcases he with rfl | rfl
        · exact holder_of_attribution found hc
        · refine ⟨_, P, found, held.trans hc, ?_⟩
          rintro ⟨-, harmed⟩
          rw [isStarted_eq_false_of_isArmed harmed] at started
          contradiction
  | @exitedIdle tid code signal t P leader found root idle =>
      refine h.of_quiet admits (.inr rfl) rfl (holder_of_setProcess found ?_ ?_) ?_ ?_ ?_
      · split <;> rfl
      · intro c hc
        split at hc
        · contradiction
        · exact hc
      · simp [exitEvent, attributed, Notification.timestampNs]
      · simp [exitEvent, attributed]
      · intro e he c hc
        obtain rfl := List.mem_singleton.mp he
        exact holder_of_attribution found hc
  | @syscall memory call P found =>
      have hspec := syscallExit_spec memory P call
      have hshape : ∀ e ∈ (syscallExit memory P call).2.toList.map (σ.attributed P),
          ∃ type resource metadata, type.isIo = true ∧
            e = σ.attributed P (makeEvent P call type resource metadata) := by
        intro e he
        obtain ⟨raw, hraw, rfl⟩ := List.mem_map.mp he
        obtain ⟨type, resource, metadata, hio, rfl⟩ := hspec.event raw (Option.mem_toList.mp hraw)
        exact ⟨type, resource, metadata, hio, rfl⟩
      refine h.of_quiet admits (.inl rfl) rfl
        (holder_of_setProcess found hspec.identity.pid fun c hc =>
          hspec.identity.commandId.symm.trans hc) ?_ ?_ ?_
      · intro e he
        obtain ⟨type, resource, metadata, -, rfl⟩ := hshape e he
        rfl
      · intro e he
        obtain ⟨type, resource, metadata, hio, rfl⟩ := hshape e he
        rintro rfl
        contradiction
      · intro e he c hc
        obtain ⟨type, resource, metadata, -, rfl⟩ := hshape e he
        exact holder_of_attribution found hc

/-- The bound holds after every session with ordered times and distinct
armed ids. -/
theorem startBound_run {root : Pid} {cwd : Bytes} {startNs : UInt64}
    (legal : Transducer.Legal TimedAdmits ns)
    (hrun : Transducer.run notify (initialState root cwd none startNs) ns = .ok (σ, out)) :
    StartBound ns σ out := by
  refine Transducer.run_induction (motive := StartBound) ?_ ?_ legal hrun
  · have hidle : (initialState root cwd none startNs).activeCommand = none := rfl
    refine ⟨?_, nofun, ?_, nofun, ?_, ?_, nofun⟩
    · intro k P c hP hc
      rw [initialState_processes] at hP
      split at hP
      · obtain rfl := Option.some.inj hP
        contradiction
      · contradiction
    · simp [hidle]
    · simp [hidle]
    · simp [hidle]
  · exact fun past σ out n σ' o _ h admits hstep => h.next admits (notify_effect hstep)

end Whyrun
