import Whyrun.Storage.Recording

/-!
The life of commands from the first notification to the stored rows: starts
and ends alternate in the event stream, the root holds the active command as
long as it lives, and after an observed root exit every row of the commands
table has its end.
-/

namespace Whyrun

open ByteText Relational ExecutionState CapsuleWriter

variable {root : Pid} {cwd : Bytes} {rootCommand : Option Bytes} {startNs : UInt64}
  {ns : List Notification} {σ : ExecutionState} {es : List Event}

/-- The invariant of runs, for a recording. -/
theorem lifecycle_record (legal : Transducer.Legal (LifecycleAdmits root) ns)
    (hrun : record root cwd rootCommand startNs ns = .ok (σ, es)) :
    ∃ out, LifecycleInv root (initialEvents root cwd rootCommand startNs) ns σ out ∧
      es = initialEvents root cwd rootCommand startNs ++ out := by
  obtain ⟨out, hrest, rfl⟩ := (record_ok_iff ..).mp hrun
  exact ⟨out, lifecycle_run legal hrest, rfl⟩

theorem alternates_record (legal : Transducer.Legal (LifecycleAdmits root) ns)
    (hrun : record root cwd rootCommand startNs ns = .ok (σ, es)) :
    Alternates (marks es) σ.openCommand := by
  obtain ⟨out, hinv, rfl⟩ := lifecycle_record legal hrun
  exact hinv.alternates

/-- Once the root has exited, every command has ended. -/
theorem paired_of_exited (legal : Transducer.Legal (LifecycleAdmits root) ns)
    (hrun : record root cwd rootCommand startNs ns = .ok (σ, es))
    (hexited : rootAlive root ns = false) :
    ∃ ids : List UInt64, marks es = ids.flatMap commandPair := by
  obtain ⟨out, hinv, rfl⟩ := lifecycle_record legal hrun
  obtain ⟨ids, hids⟩ := hinv.alternates
  rw [openCommand_eq_none_of_idle (hinv.dead hexited)] at hids
  exact ⟨ids, by simpa using hids⟩

/-- Up to and including its exit, the root holds exactly the active command. -/
theorem heldCommand_record (legal : Transducer.Legal (LifecycleAdmits root) ns)
    (hrun : record root cwd rootCommand startNs ns = .ok (σ, es))
    (halive : rootAlive root ns.dropLast = true) :
    σ.heldCommand = σ.activeCommand.map ActiveCommand.id := by
  obtain ⟨out, hinv, rfl⟩ := lifecycle_record legal hrun
  cases hns : rootAlive root ns with
  | true => exact (hinv.alive hns).heldCommand_eq
  | false =>
      rcases List.eq_nil_or_concat ns with rfl | ⟨past, n, rfl⟩
      · simp at hns
      · rw [List.concat_eq_append] at legal hrun halive hns
        rw [List.dropLast_concat] at halive
        obtain ⟨τ, out', more, hpast, hlast, -⟩ := (record_append_ok_iff ..).mp hrun
        rw [Transducer.run_singleton] at hlast
        obtain ⟨_, hinv', -⟩ := lifecycle_record legal.init hpast
        have hexit : n.exits root = true := by
          simpa [halive] using hns
        obtain ⟨hactive, hheld⟩ := (notify_effect hlast).exit_root hinv'.keyed
          (hinv'.alive halive) (by rw [hinv'.rootPid, hexit])
        rw [hactive, hheld, Option.map_none]

/-- After the root's exit a recording gains no command event. -/
theorem marks_eq_of_exited {past rest : List Notification}
    (legal : Transducer.Legal (LifecycleAdmits root) (past ++ rest))
    (hrun : record root cwd rootCommand startNs (past ++ rest) = .ok (σ, es))
    (hexited : rootAlive root past = false) :
    ∃ τ out, record root cwd rootCommand startNs past = .ok (τ, out) ∧ marks es = marks out := by
  obtain ⟨τ, out, more, hpast, hrest, rfl⟩ := (record_append_ok_iff ..).mp hrun
  obtain ⟨_, hinv, -⟩ := lifecycle_record legal.of_append hpast
  have hquiet : marks more = [] := by
    refine marks_after_exit hinv.keyed (hinv.dead hexited) (fun n hn => ?_) hrest
    obtain ⟨before, after, rfl⟩ := List.append_of_mem hn
    by_contra hmarker
    have hadmits := legal (past ++ before) n after (by simp)
    have hlive := hadmits.marker (by simpa using hmarker)
    simp [hexited] at hlive
  exact ⟨τ, out, hpast, by rw [marks_append, hquiet, List.append_nil]⟩

/-- The life of commands over every legal recording: starts and ends
alternate with equal ids; the root holds the active command up to its exit;
after the exit every command has ended, no further command event follows,
and the stored commands are all complete. -/
theorem command_lifecycle (legal : Transducer.Legal (LifecycleAdmits root) ns)
    (hrun : record root cwd rootCommand startNs ns = .ok (σ, es)) :
    (∃ o, Alternates (marks es) o) ∧
    (∀ past rest, ns = past ++ rest → rootAlive root past.dropLast = true →
      ∃ τ out, record root cwd rootCommand startNs past = .ok (τ, out) ∧
        τ.heldCommand = τ.activeCommand.map ActiveCommand.id) ∧
    (rootAlive root ns = false → ∃ ids : List UInt64, marks es = ids.flatMap commandPair) ∧
    (∀ past rest, ns = past ++ rest → rootAlive root past = false →
      ∃ τ out, record root cwd rootCommand startNs past = .ok (τ, out) ∧
        marks es = marks out) ∧
    (rootAlive root ns = false → (startedIds es).Nodup →
      (∀ id ∈ startedIds es, id.toNat < 2 ^ 63) → ∀ run : RunMetadata,
      ∃ capsule, emitAll (create run) es = .ok capsule ∧
        ∀ id row, capsule.commands.lookup id = some row →
          row.endNs ≠ none ∧ row.exitCode ≠ none) := by
  refine ⟨⟨_, alternates_record legal hrun⟩, ?_, paired_of_exited legal hrun, ?_, ?_⟩
  · rintro past rest rfl halive
    obtain ⟨τ, out, more, hpast, -, -⟩ := (record_append_ok_iff ..).mp hrun
    exact ⟨τ, out, hpast, heldCommand_record legal.of_append hpast halive⟩
  · rintro past rest rfl hexited
    exact marks_eq_of_exited legal hrun hexited
  · intro hexited hnodup hbounded run
    obtain ⟨ids, hids⟩ := paired_of_exited legal hrun hexited
    have hes := storable_record hrun
    obtain ⟨capsule, hcapsule⟩ := (emitAll_ok_iff_startedIds run hes).mpr
      ⟨hnodup, hbounded⟩
    exact ⟨capsule, hcapsule, fun id row hrow =>
      ended_commands hes hids (commands_emitAll hcapsule) hrow⟩

/-- A command is armed, forks a child, starts, and the shell exits in it. -/
def sampleCommand : List Notification :=
  [.marker 7 { type := .arm, id := 1 } 1, .created 7 8 ptraceEventFork 0 2,
    .marker 7 { type := .start, id := 1, text := lit "ls" } 3, .exited 7 0 0 4]

theorem sampleCommand_legal : Transducer.Legal (LifecycleAdmits 7) sampleCommand := by
  have hfirst : Transducer.Legal (LifecycleAdmits 7)
      [.marker 7 { type := .arm, id := 1 } 1] :=
    (Transducer.legal_nil _).snoc ⟨fun _ => rfl, fun _ => rfl⟩
  have hsecond := hfirst.snoc (i := .created 7 8 ptraceEventFork 0 2)
    ⟨fun _ => rfl, fun h => by contradiction⟩
  exact (hsecond.snoc (i := .marker 7 { type := .start, id := 1, text := lit "ls" } 3)
    ⟨fun _ => rfl, fun _ => rfl⟩).snoc (i := .exited 7 0 0 4)
    ⟨fun _ => rfl, fun h => by contradiction⟩

theorem command_lifecycle_sample :
    ∃ σ es, record 7 (lit "/") none 0 sampleCommand = .ok (σ, es) ∧
      ∃ ids : List UInt64, marks es = ids.flatMap commandPair := by
  obtain ⟨σ, es, hrun⟩ : ∃ σ es, record 7 (lit "/") none 0 sampleCommand = .ok (σ, es) :=
    ⟨_, _, rfl⟩
  exact ⟨σ, es, hrun, (command_lifecycle sampleCommand_legal hrun).2.2.1 rfl⟩

end Whyrun
