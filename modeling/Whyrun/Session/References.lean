import Whyrun.Execution.Attribution
import Whyrun.Session.Acceptance

/-!
Which commands the events of a recording refer to. A process that the root
forks while a command is only armed carries the id of that command, so the
references are sound exactly when every such command is started later.
-/

namespace Whyrun

open ByteText ExecutionState CapsuleWriter CommandProtocol

/-! ### References -/

/-- Every command id of an event is that of a start event. -/
def Referenced (es : List Event) : Prop :=
  ∀ e ∈ es, ∀ id, e.commandId = some id → id ∈ startedIds es

instance (es : List Event) : Decidable (Referenced es) :=
  decidable_of_iff (es.all fun e => e.commandId.all fun id => (startedIds es).contains id)
    (by simp [Referenced, Option.all_eq_true])

/-- Every command id of a stored event has its row and can be shown. -/
def RowsReferenced (capsule : Capsule) : Prop :=
  ∀ row ∈ capsule.events, ∀ k, row.commandId = some k →
    (∃ command, capsule.commands.lookup k = some command) ∧
      ∀ events, ∃ out, showCapsule capsule events (some k) = .ok out

/-- The references of a stored recording are those of its events. -/
theorem rowsReferenced_iff {run : RunMetadata} {es : List Event} {capsule : Capsule}
    (hes : ∀ e ∈ es, e.Storable) (h : emitAll (create run) es = .ok capsule) :
    RowsReferenced capsule ↔ Referenced es := by
  have htable := commandTable_fold hes (commands_emitAll h)
  have hrows := events_recording h
  constructor
  · intro hreferenced e he id hid
    obtain ⟨i, hi, rfl⟩ := List.getElem_of_mem he
    have hrow : eventRow (0 + i + 1) es[i] ∈ capsule.events := by
      rw [hrows]
      exact List.mem_mapIdx.mpr ⟨i, hi, rfl⟩
    obtain ⟨⟨command, hcommand⟩, -⟩ :=
      hreferenced _ hrow (asI64 id) (by simp [eventRow, hid])
    have hmem : asI64 id ∈ capsule.commands :=
      AList.lookup_isSome.mp (by rw [hcommand]; rfl)
    obtain ⟨id', hid', heq⟩ := (htable.ids _).mp hmem
    rw [← asI64_of_lt (htable.bounded id' hid')] at heq
    rwa [← asI64_injective heq]
  · intro hreferenced row hrow k hk
    rw [hrows] at hrow
    obtain ⟨i, e, he, rfl⟩ := mem_eventRows hrow
    obtain ⟨id, hid, rfl⟩ := Option.map_eq_some_iff.mp hk
    have hstarted := hreferenced e (List.mem_of_getElem? he) id hid
    have hmem : asI64 id ∈ capsule.commands := by
      rw [asI64_of_lt (htable.bounded id hstarted)]
      exact (htable.ids _).mpr ⟨id, hstarted, rfl⟩
    obtain ⟨command, hcommand⟩ := Option.isSome_iff_exists.mp (AList.lookup_isSome.mpr hmem)
    exact ⟨⟨command, hcommand⟩, showCapsule_of_lookup hcommand⟩

/-! ### Started commands -/

section runs

variable (root : Pid) (cwd : Bytes) (rootCommand : Option Bytes) (startNs : UInt64)

/-- The command is the one of the whole run, or a start marker of the root
names it. -/
def StartedIn (ns : List Notification) (id : UInt64) : Prop :=
  (rootCommand.isSome ∧ id = 1) ∨
    ∃ past tid m t rest, ns = past ++ .marker tid m t :: rest ∧ m.type = .start ∧ m.id = id ∧
      (taskTree root past).owner tid = some root

/-- Whenever the root forks a process, the command that it holds is started
in the run. -/
def ForksStarted (ns : List Notification) : Prop :=
  ∀ past forker child ptraceEvent flags t rest id,
    ns = past ++ .created forker child ptraceEvent flags t :: rest →
    isThreadCreation ptraceEvent flags = false →
    (taskTree root past).owner forker = some root →
    HeldAfter root cwd rootCommand startNs past (some id) →
    StartedIn root rootCommand ns id

variable {root cwd rootCommand startNs} {past ns : List Notification} {n : Notification}
  {σ σ' : ExecutionState} {es out : List Event}

theorem StartedIn.append {id : UInt64} (h : StartedIn root rootCommand past id)
    (rest : List Notification) : StartedIn root rootCommand (past ++ rest) id := by
  obtain h | ⟨before, tid, m, t, after, rfl, h⟩ := h
  · exact .inl h
  · exact .inr ⟨before, tid, m, t, after ++ rest, by simp, h⟩

/-- The last notification of a history starts the commands that its marker
names, if the root sent it. -/
theorem startedIn_snoc_iff {id : UInt64} :
    StartedIn root rootCommand (past ++ [n]) id ↔
      StartedIn root rootCommand past id ∨
        ∃ tid m t, n = .marker tid m t ∧ m.type = .start ∧ m.id = id ∧
          (taskTree root past).owner tid = some root := by
  constructor
  · rintro (h | ⟨before, tid, m, t, after, hsplit, h⟩)
    · exact .inl (.inl h)
    rcases List.eq_nil_or_concat after with rfl | ⟨after, last, rfl⟩
    · obtain ⟨rfl, heq⟩ := List.append_inj' hsplit rfl
      exact .inr ⟨tid, m, t, (List.cons.inj heq).1, h⟩
    · rw [List.concat_eq_append, ← List.cons_append, ← List.append_assoc] at hsplit
      obtain ⟨rfl, -⟩ := List.append_inj' hsplit rfl
      exact .inl (.inr ⟨before, tid, m, t, after, rfl, h⟩)
  · rintro (h | ⟨tid, m, t, rfl, h⟩)
    · exact h.append [n]
    · exact .inr ⟨past, tid, m, t, [], rfl, h⟩

/-- A notification starts exactly the command that a start marker of the root
names. -/
theorem mem_startedIds_step {first : List Event} {id : UInt64}
    (hinv : LifecycleInv root first past σ out)
    (htracks : Tracks root cwd rootCommand startNs past σ) (admits : TreeAdmits root past n)
    (he : Effect σ n σ' es) :
    id ∈ startedIds es ↔ ∃ tid m t, n = .marker tid m t ∧ m.type = .start ∧ m.id = id ∧
      (taskTree root past).owner tid = some root := by
  cases hmarker : n.isMarker with
  | false =>
      rw [he.startedIds_of_not_marker hmarker]
      refine ⟨by simp, ?_⟩
      rintro ⟨tid, m, t, rfl, -⟩
      contradiction
  | true =>
      have hlive := hinv.alive (admits.marker hmarker)
      cases n with
      | marker tid m t =>
          obtain ⟨p, howner⟩ := admits.live
          have hkey := htracks.processForThread howner
          rw [Notification.task] at howner hkey
          by_cases hp : p = root
          · rw [he.startedIds_marker hinv.keyed hlive (by rw [hkey, hp, hinv.rootPid])]
            simp only [startIds, List.mem_filterMap, List.mem_singleton]
            constructor
            · rintro ⟨m', rfl, hid⟩
              split at hid
              · exact ⟨tid, m', t, rfl, ‹_›, Option.some.inj hid, by rw [howner, hp]⟩
              · contradiction
            · rintro ⟨_, _, _, heq, htype, hid, -⟩
              obtain ⟨rfl, rfl, rfl⟩ := Notification.marker.inj heq
              exact ⟨m, rfl, by rw [if_pos htype, hid]⟩
          · have hsilent : es = [] := by
              have hforeign : ∀ P, σ.processes (σ.processForThread tid) = some P →
                  P.pid ≠ σ.rootPid := by
                intro P hP
                rw [hinv.keyed _ P hP, hkey, hinv.rootPid]
                exact hp
              cases he with
              | markerIgnored => rfl
              | arm found root | start found root | stop found root =>
                  exact absurd root (hforeign _ found)
            subst hsilent
            refine ⟨by simp [startedIds], ?_⟩
            rintro ⟨_, _, _, heq, -, -, hroot⟩
            obtain ⟨rfl, rfl, rfl⟩ := Notification.marker.inj heq
            exact absurd (Option.some.inj (howner.symm.trans hroot)) hp
      | _ => contradiction

/-- The start events of a run are those of its start markers. -/
theorem mem_startedIds_iff (legal : Transducer.Legal (TreeAdmits root) ns)
    (hrun : record root cwd rootCommand startNs ns = .ok (σ, es)) (id : UInt64) :
    id ∈ startedIds es ↔ StartedIn root rootCommand ns id := by
  induction ns using List.reverseRecOn generalizing σ es with
  | nil =>
      obtain ⟨out, hrest, rfl⟩ := (record_ok_iff ..).mp hrun
      simp only [Transducer.run_nil, Except.ok.injEq, Prod.mk.injEq] at hrest
      rw [← hrest.2, List.append_nil, initialEvents_eq]
      cases rootCommand with
      | none => simp [StartedIn, startedIds]
      | some text => simp [StartedIn, startedIds, commandStartEvent]
  | append_singleton past n ih =>
      obtain ⟨τ, before, o, hpast, hlast, rfl⟩ := (record_append_ok_iff ..).mp hrun
      rw [Transducer.run_singleton] at hlast
      obtain ⟨out, hout, hbefore⟩ := (record_ok_iff ..).mp hpast
      have hinv := lifecycle_run (legal_lifecycle legal.init) hout
      have htracks := tracks_run legal.init hout
      rw [startedIds_append, List.mem_append, ih legal.init hpast, startedIn_snoc_iff,
        mem_startedIds_step hinv htracks legal.last (notify_effect hlast)]

/-! ### Where the id of an event comes from -/

theorem mem_startedIds_of_openCommand {first : List Event} {id : UInt64}
    (hinv : LifecycleInv root first past σ out) (hopen : σ.openCommand = some id) :
    id ∈ startedIds (first ++ out) := by
  obtain ⟨ids, hids⟩ := hinv.alternates
  refine mem_startedIds_of_mem_marks ?_
  rw [hids, hopen]
  simp

/-- An event with a command is a command event, carries a started command, or
belongs to the root or to a descendant of a process that the root forked
while it held the command. -/
theorem command_of_step {first : List Event} (legal : Transducer.Legal (TreeAdmits root) past)
    (hrun : Transducer.run notify (initialState root cwd rootCommand startNs) past =
      .ok (σ, out)) (hinv : LifecycleInv root first past σ out) (admits : TreeAdmits root past n)
    (he : Effect σ n σ' es) {e : Event} (hmem : e ∈ es) {id : UInt64}
    (hid : e.commandId = some id) :
    e.isCommandMark = true ∨ id ∈ startedIds (first ++ out) ∨
      ∃ before forker child ev flags t rest,
        past ++ [n] = before ++ .created forker child ev flags t :: rest ∧
        isThreadCreation ev flags = false ∧ (taskTree root before).owner forker = some root ∧
        HeldAfter root cwd rootCommand startNs before (some id) := by
  have htracks := tracks_run legal hrun
  obtain ⟨p, howner⟩ := admits.live
  obtain ⟨P, hP, hcommand⟩ := htracks.processes p ⟨_, howner⟩
  have hpid : P.pid = p := hinv.keyed p P hP
  have hevent := he.eventOf (by rw [htracks.processForThread howner, hP]) hmem
  cases hmark : e.isCommandMark with
  | true => exact .inl rfl
  | false =>
      refine .inr ?_
      cases hlaunch : (taskTree root past).launch p with
      | some l =>
          have hheld := htracks.heldAfter_of_event legal hinv admits howner hP hlaunch hevent
          obtain ⟨forker, child, ev, flags, t, rest, rfl, hprocess, hroot⟩ :=
            launch_eq_fork legal hlaunch
          rw [hid] at hheld
          exact .inr ⟨l, forker, child, ev, flags, t, rest ++ [n], by simp, hprocess, hroot, hheld⟩
      | none =>
          obtain rfl := eq_root_of_launch legal ⟨_, howner⟩ hlaunch
          by_cases hfork : e.type = .processFork
          · have hheld := htracks.heldAfter legal hinv hrun ⟨_, howner⟩ hP
            rw [hlaunch, Option.getD_none, ← hevent.fork hfork, hid] at hheld
            obtain ⟨-, forker, child, ev, flags, t, rfl, process, -⟩ :=
              (he.origin hmem).2 hfork
            exact .inr ⟨past, forker, child, ev, flags, t, [], rfl, process, howner, hheld⟩
          · rw [hlaunch] at hcommand
            rw [hevent.other hmark hfork,
              attribution_root (hpid.trans hinv.rootPid.symm) hcommand] at hid
            exact .inl (mem_startedIds_of_openCommand hinv hid)

/-- An event with a command refers to a start event, or to a command that the
root held at a fork. -/
theorem command_of_mem (legal : Transducer.Legal (TreeAdmits root) ns)
    (hrun : record root cwd rootCommand startNs ns = .ok (σ, es)) {e : Event} (hmem : e ∈ es)
    {id : UInt64} (hid : e.commandId = some id) :
    id ∈ startedIds es ∨
      ∃ before forker child ev flags t rest,
        ns = before ++ .created forker child ev flags t :: rest ∧
        isThreadCreation ev flags = false ∧ (taskTree root before).owner forker = some root ∧
        HeldAfter root cwd rootCommand startNs before (some id) := by
  cases hmark : e.isCommandMark with
  | true =>
      obtain ⟨before, after, rfl⟩ := List.append_of_mem hmem
      have halternates := alternates_record (legal_lifecycle legal) hrun
      rw [marks_append, marks_cons, if_pos hmark, hid, List.singleton_append] at halternates
      refine .inl (mem_startedIds_of_mem_marks ?_)
      rw [marks_append, marks_cons, if_pos hmark, hid]
      cases htype : e.type with
      | commandStart => simp
      | commandEnd =>
          rw [htype] at halternates
          have hstart := start_mem_of_alternates _ halternates
          exact List.mem_append_left _ hstart
      | _ => simp [Event.isCommandMark, htype] at hmark
  | false =>
      obtain ⟨out, hrest, rfl⟩ := (record_ok_iff ..).mp hrun
      rcases List.mem_append.mp hmem with hfirst | hmem
      · rw [initialEvents_eq] at hfirst
        obtain ⟨text, -, rfl⟩ := List.mem_map.mp hfirst
        contradiction
      obtain ⟨past, n, rest, τ, o, τ', o', rfl, hpast, hstep, hmem⟩ :=
        Transducer.exists_step_of_mem_run hrest hmem
      have hlegal := legal.of_append
      have hinv := lifecycle_run (legal_lifecycle hlegal) hpast
      obtain hmark' | hstarted | ⟨before, forker, child, ev, flags, t, after, hsplit, h⟩ :=
        command_of_step hlegal hpast hinv (legal past n rest rfl) (notify_effect hstep) hmem hid
      · rw [hmark'] at hmark
        contradiction
      · obtain ⟨τ₁, o₁, o₂, hpast', -, rfl⟩ := Transducer.run_append_ok_iff.mp hrest
        obtain ⟨-, rfl⟩ := Prod.mk.inj (Except.ok.inj (hpast'.symm.trans hpast))
        refine .inl ?_
        rw [← List.append_assoc, startedIds_append]
        exact List.mem_append_left _ hstarted
      · refine .inr ⟨before, forker, child, ev, flags, t, after ++ rest, ?_, h⟩
        rw [List.append_cons, hsplit]
        simp

/-- The fork event of a process that the root forks carries the root's
command. -/
theorem mem_of_fork (legal : Transducer.Legal (TreeAdmits root) ns)
    (hrun : record root cwd rootCommand startNs ns = .ok (σ, es)) {forker child : Pid}
    {ev : UInt32} {flags t : UInt64} {rest : List Notification} {id : UInt64}
    (hsplit : ns = past ++ .created forker child ev flags t :: rest)
    (process : isThreadCreation ev flags = false)
    (howner : (taskTree root past).owner forker = some root)
    (hheld : HeldAfter root cwd rootCommand startNs past (some id)) :
    ∃ e ∈ es, e.commandId = some id := by
  subst hsplit
  obtain ⟨τ, before, after, hpast, hrest, rfl⟩ := (record_append_ok_iff ..).mp hrun
  obtain ⟨τ', o, more, hstep, -, rfl⟩ := Transducer.run_cons_ok_iff.mp hrest
  obtain ⟨out, hout, rfl⟩ := (record_ok_iff ..).mp hpast
  have hlegal := legal.of_append
  have hinv := lifecycle_run (legal_lifecycle hlegal) hout
  have htracks := tracks_run hlegal hout
  obtain ⟨τ₁, out₁, hpast₁, hheld⟩ := hheld
  obtain ⟨rfl, -⟩ := Prod.mk.inj (Except.ok.inj (hpast₁.symm.trans hpast))
  obtain ⟨P, hP, -⟩ := htracks.processes root ⟨_, howner⟩
  rw [heldCommand, hinv.rootPid, hP, Option.bind_some] at hheld
  have hkey := htracks.processForThread howner
  rw [(notify_effect hstep).fork_emits (by rw [hkey, hP]) process]
  exact ⟨forkEvent P forker child ev t, by simp, hheld⟩

/-- The references of a recording are sound exactly when every command that
the root holds when it forks a process is started in the run; in a stored
recording every command id then has its row. -/
theorem referenced_iff (legal : Transducer.Legal (TreeAdmits root) ns)
    (hrun : record root cwd rootCommand startNs ns = .ok (σ, es)) :
    (Referenced es ↔ ForksStarted root cwd rootCommand startNs ns) ∧
      ∀ run capsule, emitAll (create run) es = .ok capsule →
        (RowsReferenced capsule ↔ ForksStarted root cwd rootCommand startNs ns) := by
  have hevents : Referenced es ↔ ForksStarted root cwd rootCommand startNs ns := by
    constructor
    · intro hreferenced past forker child ev flags t rest id hsplit process howner hheld
      obtain ⟨e, he, hid⟩ := mem_of_fork legal hrun hsplit process howner hheld
      exact (mem_startedIds_iff legal hrun id).mp (hreferenced e he id hid)
    · intro hforks e he id hid
      obtain hstarted | ⟨before, forker, child, ev, flags, t, rest, hsplit, process, howner,
          hheld⟩ := command_of_mem legal hrun he hid
      · exact hstarted
      · exact (mem_startedIds_iff legal hrun id).mpr
          (hforks before forker child ev flags t rest id hsplit process howner hheld)
  refine ⟨hevents, fun run capsule hcapsule => ?_⟩
  rw [rowsReferenced_iff (storable_record hrun) hcapsule, hevents]

end runs

/-- A shell that forks a child at its prompt and is then left. -/
def samplePromptFork : List Notification :=
  [.marker 7 { type := .arm, id := 1 } 1, .created 7 8 ptraceEventFork 0 2, .exited 8 0 0 3,
    .exited 7 0 0 4]

theorem samplePromptFork_legal : Transducer.Legal (TreeAdmits 7) samplePromptFork := by
  have hchild := sampleFork_legal.snoc (i := .exited 8 0 0 3)
    ⟨⟨8, by decide⟩, fun _ _ => rfl, nofun⟩
  exact hchild.snoc (i := .exited 7 0 0 4) ⟨⟨7, by decide⟩, fun _ _ => rfl, nofun⟩

/-- The child of an armed command keeps the id of a command that never
starts. -/
theorem armed_reference_dangles :
    ¬ ∀ (root : Pid) (cwd : Bytes) (rootCommand : Option Bytes) (startNs : UInt64)
        (ns : List Notification) (σ : ExecutionState) (es : List Event),
      Transducer.Legal (TreeAdmits root) ns →
      record root cwd rootCommand startNs ns = .ok (σ, es) → rootAlive root ns = false →
      Referenced es := by
  intro h
  obtain ⟨σ, es, hrun, e, he, hid, hstarted⟩ : ∃ σ es,
      record 7 (lit "/") none 0 samplePromptFork = .ok (σ, es) ∧
        ∃ e ∈ es, e.commandId = some 1 ∧ startedIds es = [] :=
    ⟨_, _, rfl, _, List.mem_cons_self, rfl, rfl⟩
  have hmem := h 7 (lit "/") none 0 _ σ es samplePromptFork_legal hrun rfl e he 1 hid
  rw [hstarted] at hmem
  contradiction

/-- A child that is forked at the prompt holds the id of the command that then
starts. -/
theorem referenced_iff_sample :
    ∃ σ es, record 7 (lit "/") none 0 (sampleBackground ++ [.exited 8 0 0 5]) = .ok (σ, es) ∧
      es.any (fun e => e.pid = 8 ∧ e.commandId = some 1) ∧ Referenced es ∧
      ForksStarted 7 (lit "/") none 0 (sampleBackground ++ [.exited 8 0 0 5]) := by
  obtain ⟨σ, es, hrun, hchild, hreferenced⟩ : ∃ σ es,
      record 7 (lit "/") none 0 (sampleBackground ++ [.exited 8 0 0 5]) = .ok (σ, es) ∧
        es.any (fun e => e.pid = 8 ∧ e.commandId = some 1) ∧ Referenced es :=
    ⟨_, _, rfl, by decide, by decide⟩
  exact ⟨σ, es, hrun, hchild, hreferenced,
    (referenced_iff sampleBackground_legal hrun).1.mp hreferenced⟩

end Whyrun
