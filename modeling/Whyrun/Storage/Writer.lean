import Whyrun.Library.Transducer
import Whyrun.Model.SqliteStore

/-!
What a sequence of `emit` calls leaves in a capsule. Every table is written
on its own: `emit_eq` splits one call into its effect on each table, and
`emitAll_ok_iff` does the same for a whole recording. All later results
about capsules start from there.
-/

namespace Whyrun.CapsuleWriter

open ByteText Relational

/-! ### One call, table by table -/

/-- The rows that a sequence of events adds to `events` after `count` rows. -/
def eventRows (count : ℕ) (events : List Event) : List EventRow :=
  events.mapIdx fun i event => eventRow (count + i + 1) event

def filesAfter (files : Table Bytes FileActivity) (event : Event) :
    Table Bytes FileActivity :=
  if event.type = .fileRead ∨ event.type = .fileWrite then fileTransfer files event else files

def networkAfter (network : Table Bytes NetworkActivity) (event : Event) :
    Table Bytes NetworkActivity :=
  if event.type = .networkConnect then networkConnect network event else network

def commandsAfter (commands : Table ℤ CommandRow) (event : Event) :
    Except Failure (Table ℤ CommandRow) :=
  match event.type with
  | .commandStart => startCommand commands event
  | .commandEnd => endCommand commands event
  | _ => .ok commands

def processesAfter (processes : Table ℤ ProcessRow) (event : Event) :
    Except Failure (Table ℤ ProcessRow) :=
  match event.type with
  | .processExec => processExec processes event
  | .processFork => processFork processes event
  | .processExit => processExit processes event
  | _ => .ok processes

theorem emit_eq (capsule : Capsule) (event : Event) :
    emit capsule event = (commandsAfter capsule.commands event).bind fun commands =>
      (processesAfter capsule.processes event).map fun processes =>
        { capsule with
          commands, processes
          events := capsule.events ++ [eventRow (capsule.events.length + 1) event]
          fileActivity := filesAfter capsule.fileActivity event
          networkActivity := networkAfter capsule.networkActivity event } := by
  unfold emit commandsAfter processesAfter filesAfter networkAfter
  dsimp only
  cases event.type with
  | commandStart => cases startCommand capsule.commands event <;> rfl
  | commandEnd => cases endCommand capsule.commands event <;> rfl
  | processExec => cases processExec capsule.processes event <;> rfl
  | processFork => cases processFork capsule.processes event <;> rfl
  | processExit => cases processExit capsule.processes event <;> rfl
  | fileRead | fileWrite | fileOpen | networkConnect | localIpcConnect => rfl

theorem emit_ok_iff {capsule capsule' : Capsule} {event : Event} :
    emit capsule event = .ok capsule' ↔ ∃ commands processes,
      commandsAfter capsule.commands event = .ok commands ∧
      processesAfter capsule.processes event = .ok processes ∧
      capsule' = { capsule with
        commands, processes
        events := capsule.events ++ [eventRow (capsule.events.length + 1) event]
        fileActivity := filesAfter capsule.fileActivity event
        networkActivity := networkAfter capsule.networkActivity event } := by
  rw [emit_eq]
  cases hcommands : commandsAfter capsule.commands event with
  | error e => simp [Except.bind]
  | ok commands =>
      cases hprocesses : processesAfter capsule.processes event with
      | error e => simp [Except.bind, Except.map]
      | ok processes =>
          simp only [Except.bind, Except.map, Except.ok.injEq]
          exact ⟨fun h => ⟨_, _, rfl, rfl, h.symm⟩, by rintro ⟨_, _, rfl, rfl, rfl⟩; rfl⟩

/-! ### A recording -/

@[simp] theorem emitAll_nil (capsule : Capsule) : emitAll capsule [] = .ok capsule := rfl

theorem emitAll_append {capsule capsule' : Capsule} {es es' : List Event} :
    emitAll capsule (es ++ es') = .ok capsule' ↔
      ∃ middle, emitAll capsule es = .ok middle ∧ emitAll middle es' = .ok capsule' :=
  Transducer.foldlM_append_ok_iff

theorem eventRows_cons (count : ℕ) (event : Event) (es : List Event) :
    eventRows count (event :: es) = eventRow (count + 1) event :: eventRows (count + 1) es := by
  simp only [eventRows, List.mapIdx_cons, add_zero, List.cons.injEq, true_and,
    List.mapIdx_eq_mapIdx_iff]
  intro i _
  congr 1
  omega

/-- A recording writes each table on its own. -/
theorem emitAll_ok_iff {capsule capsule' : Capsule} {es : List Event} :
    emitAll capsule es = .ok capsule' ↔ ∃ commands processes,
      es.foldlM commandsAfter capsule.commands = .ok commands ∧
      es.foldlM processesAfter capsule.processes = .ok processes ∧
      capsule' = { capsule with
        commands, processes
        events := capsule.events ++ eventRows capsule.events.length es
        fileActivity := es.foldl filesAfter capsule.fileActivity
        networkActivity := es.foldl networkAfter capsule.networkActivity } := by
  induction es generalizing capsule with
  | nil => simp [emitAll, eventRows, pure, Except.pure, eq_comm]
  | cons event es ih =>
      rw [emitAll, Transducer.foldlM_cons_ok_iff]
      constructor
      · rintro ⟨middle, hfirst, hrest⟩
        obtain ⟨commands, processes, hcommands, hprocesses, rfl⟩ := emit_ok_iff.mp hfirst
        obtain ⟨commands', processes', hcommands', hprocesses', rfl⟩ := ih.mp hrest
        exact ⟨commands', processes', Transducer.foldlM_cons_ok_iff.mpr ⟨_, hcommands, hcommands'⟩,
          Transducer.foldlM_cons_ok_iff.mpr ⟨_, hprocesses, hprocesses'⟩, by simp [eventRows_cons]⟩
      · rintro ⟨commands', processes', hcommands, hprocesses, rfl⟩
        obtain ⟨commands, hfirst, hcommands'⟩ := Transducer.foldlM_cons_ok_iff.mp hcommands
        obtain ⟨processes, hfirst', hprocesses'⟩ := Transducer.foldlM_cons_ok_iff.mp hprocesses
        exact ⟨_, emit_ok_iff.mpr ⟨commands, processes, hfirst, hfirst', rfl⟩,
          ih.mpr ⟨commands', processes', hcommands', hprocesses', by simp [eventRows_cons]⟩⟩

section recording

variable {capsule capsule' : Capsule} {es : List Event}

theorem events_emitAll (h : emitAll capsule es = .ok capsule') :
    capsule'.events = capsule.events ++ eventRows capsule.events.length es := by
  obtain ⟨_, _, _, _, rfl⟩ := emitAll_ok_iff.mp h
  rfl

theorem fileActivity_emitAll (h : emitAll capsule es = .ok capsule') :
    capsule'.fileActivity = es.foldl filesAfter capsule.fileActivity := by
  obtain ⟨_, _, _, _, rfl⟩ := emitAll_ok_iff.mp h
  rfl

theorem networkActivity_emitAll (h : emitAll capsule es = .ok capsule') :
    capsule'.networkActivity = es.foldl networkAfter capsule.networkActivity := by
  obtain ⟨_, _, _, _, rfl⟩ := emitAll_ok_iff.mp h
  rfl

theorem commands_emitAll (h : emitAll capsule es = .ok capsule') :
    es.foldlM commandsAfter capsule.commands = .ok capsule'.commands := by
  obtain ⟨_, _, hcommands, _, rfl⟩ := emitAll_ok_iff.mp h
  exact hcommands

end recording

/-- The description of a session at `/`. -/
def sampleRun : RunMetadata :=
  { id := lit "run", mode := .session, command := [lit "/bin/bash"], cwd := lit "/",
    startNs := 0 }

/-- The rows of a recording that starts on an empty capsule. -/
theorem events_recording {run : RunMetadata} {capsule : Capsule} {es : List Event}
    (h : emitAll (create run) es = .ok capsule) : capsule.events = eventRows 0 es := by
  simpa [create] using events_emitAll h

theorem mem_eventRows {count : ℕ} {es : List Event} {row : EventRow}
    (h : row ∈ eventRows count es) : ∃ i e, es[i]? = some e ∧ row = eventRow (count + i + 1) e := by
  obtain ⟨i, hi, rfl⟩ := List.mem_mapIdx.mp h
  exact ⟨i, es[i], by simp [hi], rfl⟩

end Whyrun.CapsuleWriter
