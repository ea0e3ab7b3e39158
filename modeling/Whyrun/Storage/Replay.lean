import Whyrun.Execution.Runs
import Whyrun.Storage.MetadataText
import Whyrun.Storage.Writer

/-!
The `events` table is the whole recording. Each of its rows is read back as
the event it was written from, and the events that are read, given to a new
writer, write every other table again: commands, processes and the two
activity tables hold nothing that the log does not.

What is read is the event up to the order of its metadata, which the text
does not keep. No table depends on it, since the keys of the metadata of a
recorded event are distinct.
-/

namespace Whyrun

open ByteText JsonObject Relational

/-! ### Recorded metadata has distinct keys -/

def Event.DistinctKeys (e : Event) : Prop := (e.metadata.map Prod.fst).Nodup

section keys

variable {P : ProcessState} {call : RawSyscall} {memory : TraceeMemory} {e : Event}

theorem transferExit_distinctKeys (he : e ∈ (transferExit P call).2) : e.DistinctKeys := by
  unfold transferExit at he
  dsimp only at he
  split at he
  · contradiction
  split at he
  · contradiction
  · obtain rfl := Option.some.inj he
    show [lit "fd", lit "requested_bytes"].Nodup
    decide

theorem connectExit_distinctKeys (he : e ∈ (connectExit memory P call).2) : e.DistinctKeys := by
  have hkeys : [lit "operation", lit "fd", lit "family"].Nodup := by decide
  unfold connectExit at he
  dsimp only at he
  split at he
  · contradiction
  split at he
  · obtain rfl := Option.some.inj he
    exact hkeys
  split at he
  · obtain rfl := Option.some.inj he
    exact hkeys
  · obtain rfl := Option.some.inj he
    exact hkeys

theorem syscallExit_distinctKeys (he : e ∈ (syscallExit memory P call).2) : e.DistinctKeys := by
  unfold syscallExit at he
  split at he
  · obtain rfl := Option.some.inj he
    show [lit "operation", lit "flags"].Nodup
    decide
  split at he
  · obtain rfl := Option.some.inj he
    show [lit "operation", lit "flags", lit "dirfd"].Nodup
    decide
  split at he
  · exact transferExit_distinctKeys he
  split at he
  · unfold closeExit at he
    split at he <;> contradiction
  split at he
  · unfold dupExit at he
    split at he <;> contradiction
  split at he
  · unfold socketExit at he
    split at he <;> contradiction
  split at he
  · exact connectExit_distinctKeys he
  split at he
  · unfold chdirExit at he
    dsimp only at he
    split at he <;> contradiction
  split at he
  · unfold fchdirExit at he
    split at he
    · contradiction
    · split at he <;> contradiction
  · contradiction

theorem commandStartEvent_distinctKeys (pid tid : Pid) (id : UInt64) (text cwd : Bytes)
    (t : UInt64) : (commandStartEvent pid tid id text cwd t).DistinctKeys := by
  show [lit "cwd", lit "sequence"].Nodup
  decide

theorem commandEndEvent_distinctKeys (pid tid : Pid) (id : Option UInt64) (result : Int32)
    (cwd : Bytes) (t : UInt64) : (commandEndEvent pid tid id result cwd t).DistinctKeys := by
  show [lit "cwd"].Nodup
  decide

theorem exitEvent_distinctKeys (tid : Pid) (code signal : Int32) (t : UInt64) :
    (exitEvent P tid code signal t).DistinctKeys := by
  show [lit "exit_code", lit "term_signal"].Nodup
  decide

theorem Event.DistinctKeys.attributed (he : e.DistinctKeys) (σ : ExecutionState) :
    (σ.attributed P e).DistinctKeys := he

theorem Effect.distinctKeys {σ σ' : ExecutionState} {n : Notification} {es : List Event}
    (he : Effect σ n σ' es) (hmem : e ∈ es) : e.DistinctKeys := by
  cases he with
  | markerIgnored | arm | createdUnknown | createdThread | exitedThread | exitedUnknown
  | syscallUnknown => contradiction
  | start =>
      rw [List.mem_singleton.mp hmem]
      exact commandStartEvent_distinctKeys ..
  | stop =>
      rw [List.mem_singleton.mp hmem]
      exact commandEndEvent_distinctKeys ..
  | exec | execDiscovered =>
      rw [List.mem_singleton.mp hmem]
      exact List.nodup_singleton _
  | createdProcess =>
      rw [List.mem_singleton.mp hmem]
      show [lit "child_pid", lit "kind", lit "executable"].Nodup
      decide
  | exited | exitedIdle =>
      rw [List.mem_singleton.mp hmem]
      exact (exitEvent_distinctKeys ..).attributed σ
  | exitedRunning =>
      rcases List.mem_pair.mp hmem with rfl | rfl
      · exact (exitEvent_distinctKeys ..).attributed σ
      · exact commandEndEvent_distinctKeys ..
  | syscall =>
      obtain ⟨e', he', rfl⟩ := List.mem_map.mp hmem
      exact (syscallExit_distinctKeys (Option.mem_toList.mp he')).attributed σ

end keys

open ExecutionState in
theorem record_distinctKeys {root : Pid} {cwd : Bytes} {rootCommand : Option Bytes}
    {startNs : UInt64} {ns : List Notification} {σ : ExecutionState} {es : List Event}
    (hrecord : record root cwd rootCommand startNs ns = .ok (σ, es)) :
    ∀ e ∈ es, e.DistinctKeys := by
  obtain ⟨out, hrun, rfl⟩ := (record_ok_iff root cwd rootCommand startNs).mp hrecord
  have hfirst : ∀ e ∈ initialEvents root cwd rootCommand startNs, e.DistinctKeys := by
    intro e he
    rw [initialEvents_eq] at he
    cases rootCommand with
    | none => contradiction
    | some text =>
        rw [List.mem_singleton.mp he]
        exact commandStartEvent_distinctKeys ..
  have hlater : ∀ e ∈ out, e.DistinctKeys := by
    refine Transducer.run_invariant (motive := fun _ _ out => ∀ e ∈ out, e.DistinctKeys)
      (by simp) ?_ hrun
    intro _ _ out _ _ o hout hstep e he
    rcases List.mem_append.mp he with he | he
    · exact hout e he
    · exact (notify_effect hstep).distinctKeys he
  intro e he
  rcases List.mem_append.mp he with he | he
  · exact hfirst e he
  · exact hlater e he

/-! ### Reading a row -/

def eventTypes : List EventType :=
  [.commandStart, .commandEnd, .processExec, .processFork, .processExit, .fileOpen, .fileRead,
    .fileWrite, .networkConnect, .localIpcConnect]

/-- The type that `event_type_name` gives this name. -/
def eventTypeOf (name : Bytes) : Option EventType :=
  eventTypes.find? fun type => eventTypeName type = name

@[simp] theorem eventTypeOf_eventTypeName (type : EventType) :
    eventTypeOf (eventTypeName type) = some type := by
  have hfound : ∀ other : EventType,
      decide (eventTypeName other = eventTypeName type) = decide (other = type) :=
    fun other => decide_eq_decide.mpr eventTypeName_inj
  rw [eventTypeOf, funext hfound]
  cases type <;> rfl

/-- The number that `as_i64` has stored. -/
def ofI64 (value : ℤ) : UInt64 := (Int64.ofInt value).toUInt64

@[simp] theorem ofI64_asI64 (value : UInt64) : ofI64 (asI64 value) = value := by
  rw [ofI64, asI64, Int64.ofInt_toInt, UInt64.toUInt64_toInt64]

/-- The event of a row of the `events` table. -/
def readEvent (row : EventRow) : Option Event := do
  let type ← eventTypeOf row.type
  let metadata ← parseObject row.metadataJson
  some
    { timestampNs := ofI64 row.timestampNs, pid := Int32.ofInt row.pid, tid := Int32.ofInt row.tid
      type, resource := row.resource, result := Int64.ofInt row.result
      errnoValue := Int32.ofInt row.errnoValue, metadata
      commandId := row.commandId.map ofI64 }

/-- The event with its metadata in the order of the stored text. -/
def Event.sorted (e : Event) : Event := { e with metadata := sortedEntries e.metadata }

namespace CapsuleWriter

theorem readEvent_eventRow (id : ℕ) (e : Event) : readEvent (eventRow id e) = some e.sorted := by
  have hcommand : (e.commandId.map asI64).map ofI64 = e.commandId := by
    rw [Option.map_map]
    convert Option.map_id' with value
    exact ofI64_asI64 value
  simp only [readEvent, eventRow, eventTypeOf_eventTypeName, parseObject_metadataJson,
    Option.bind_eq_bind, Option.bind_some, ofI64_asI64, Int32.ofInt_toInt, Int64.ofInt_toInt,
    hcommand]
  rfl

theorem readEvents_eventRows (count : ℕ) (es : List Event) :
    (eventRows count es).mapM readEvent = some (es.map Event.sorted) := by
  induction es generalizing count with
  | nil => rfl
  | cons e es ih =>
      rw [eventRows_cons, List.mapM_cons, readEvent_eventRow, ih]
      rfl

/-! ### Writing the events that were read -/

section sorted

variable {e : Event} (hkeys : e.DistinctKeys)

include hkeys

theorem metadataValue_sorted (key fallback : Bytes) :
    metadataValue e.sorted key fallback = metadataValue e key fallback := by
  have hlookup : (sortedEntries e.metadata).lookup key = e.metadata.lookup key :=
    (lookup_perm (sortedEntries_perm e.metadata).symm hkeys key).symm
  show ((sortedEntries e.metadata).lookup key).getD fallback = _
  rw [hlookup]
  rfl

theorem integerEntry_sorted (key fallback : Bytes) :
    integerEntry e.sorted key fallback = integerEntry e key fallback := by
  rw [integerEntry, integerEntry, metadataValue_sorted hkeys]

omit hkeys in
theorem metadataJson_sortedEntries (metadata : List (Bytes × Bytes)) :
    metadataJson (sortedEntries metadata) = metadataJson metadata := by
  show [123] ++ [44].intercalate ((sortedEntries (sortedEntries metadata)).map jsonEntry) ++
    [125] = _
  rw [sortedEntries_congr (sortedEntries_perm metadata)]
  rfl

omit hkeys in
theorem eventRow_sorted (id : ℕ) : eventRow id e.sorted = eventRow id e := by
  show { eventRow id e with metadataJson := metadataJson (sortedEntries e.metadata) } = _
  rw [metadataJson_sortedEntries]
  rfl

theorem commandsAfter_sorted (commands : Table ℤ CommandRow) :
    commandsAfter commands e.sorted = commandsAfter commands e := by
  have hstart : startCommand commands e.sorted = startCommand commands e := by
    have hrow : startRow e.sorted = startRow e := by
      funext sequence
      rw [startRow, startRow, metadataValue_sorted hkeys]
      rfl
    rw [startCommand, startCommand, integerEntry_sorted hkeys, hrow]
    rfl
  have hend : endCommand commands e.sorted = endCommand commands e := by
    have hrow : endRow e.sorted = endRow e := by
      funext row
      rw [endRow, endRow, metadataValue_sorted hkeys]
      rfl
    rw [endCommand, endCommand, hrow]
    rfl
  rw [commandsAfter, commandsAfter, hstart, hend]
  rfl

theorem processesAfter_sorted (processes : Table ℤ ProcessRow) :
    processesAfter processes e.sorted = processesAfter processes e := by
  have hexec : processExec processes e.sorted = processExec processes e := by
    rw [processExec, processExec, integerEntry_sorted hkeys]
    rfl
  have hfork : processFork processes e.sorted = processFork processes e := by
    rw [processFork, processFork, integerEntry_sorted hkeys, metadataValue_sorted hkeys]
    rfl
  have hexit : processExit processes e.sorted = processExit processes e := by
    rw [processExit, processExit, integerEntry_sorted hkeys, integerEntry_sorted hkeys]
    rfl
  rw [processesAfter, processesAfter, hexec, hfork, hexit]
  rfl

/-- The order of the metadata does not matter to the writer. -/
theorem emit_sorted (capsule : Capsule) : emit capsule e.sorted = emit capsule e := by
  rw [emit_eq, emit_eq, commandsAfter_sorted hkeys, processesAfter_sorted hkeys,
    eventRow_sorted]
  rfl

end sorted

theorem emitAll_sorted {capsule : Capsule} {es : List Event} (hkeys : ∀ e ∈ es, e.DistinctKeys) :
    emitAll capsule (es.map Event.sorted) = emitAll capsule es := by
  induction es generalizing capsule with
  | nil => rfl
  | cons e es ih =>
      obtain ⟨he, hes⟩ := List.forall_mem_cons.mp hkeys
      rw [List.map_cons, emitAll, emitAll, List.foldlM_cons, List.foldlM_cons, emit_sorted he]
      congr 1
      funext middle
      exact ih hes

end CapsuleWriter

open CapsuleWriter ExecutionState

/-! ### The recording of a log -/

/-- The event as it is read: its metadata stand in some order. -/
def SameEvent (read e : Event) : Prop :=
  ∃ metadata, metadata.Perm e.metadata ∧ read = { e with metadata }

/-- Every event of a recording is read back from its row, and the events that
are read write the capsule once more, from its row of `runs` alone. -/
theorem log_rewrites_capsule {root : Pid} {cwd : Bytes} {rootCommand : Option Bytes}
    {startNs : UInt64} {ns : List Notification} {σ : ExecutionState} {es : List Event}
    {run : RunMetadata} {capsule : Capsule} (result : CollectionResult)
    (hrecord : record root cwd rootCommand startNs ns = .ok (σ, es))
    (hstore : emitAll (create run) es = .ok capsule) :
    ∃ read, (finish capsule result).events.mapM readEvent = some read ∧
      List.Forall₂ SameEvent read es ∧
      emitAll { run := (finish capsule result).run } read = .ok (finish capsule result) := by
  refine ⟨es.map Event.sorted, ?_, ?_, ?_⟩
  · show capsule.events.mapM readEvent = _
    rw [events_recording hstore, readEvents_eventRows]
  · rw [List.forall₂_map_left_iff]
    apply List.forall₂_same.mpr
    intro e _
    exact ⟨sortedEntries e.metadata, sortedEntries_perm e.metadata, rfl⟩
  · rw [emitAll_sorted (record_distinctKeys hrecord)]
    obtain ⟨commands, processes, hcommands, hprocesses, rfl⟩ := emitAll_ok_iff.mp hstore
    exact emitAll_ok_iff.mpr ⟨commands, processes, hcommands, hprocesses, rfl⟩

/-- A process of the root that runs `/bin/ls`, and its end. -/
def sampleLog : List Notification :=
  [.created 7 8 ptraceEventFork 0 1, .exec 8 ⟨lit "/", lit "/bin/ls"⟩ 2, .exited 8 1 0 3,
    .exited 7 0 0 4]

theorem log_rewrites_capsule_sample :
    ∃ σ es capsule, record 7 (lit "/") (some (lit "ls")) 0 sampleLog = .ok (σ, es) ∧
      emitAll (create sampleRun) es = .ok capsule ∧
      ∃ read, (finish capsule {}).events.mapM readEvent = some read ∧
        List.Forall₂ SameEvent read es ∧
        emitAll { run := (finish capsule {}).run } read = .ok (finish capsule {}) := by
  obtain ⟨σ, es, hrecord⟩ : ∃ σ es, record 7 (lit "/") (some (lit "ls")) 0 sampleLog =
      .ok (σ, es) := ⟨_, _, rfl⟩
  obtain ⟨capsule, hstore⟩ : ∃ capsule, emitAll (create sampleRun) es = .ok capsule := by
    obtain ⟨-, rfl⟩ := Prod.mk.inj (Except.ok.inj hrecord)
    exact ⟨_, emitAll_ok_iff.mpr ⟨_, _, rfl, rfl, rfl⟩⟩
  exact ⟨σ, es, capsule, hrecord, hstore, log_rewrites_capsule {} hrecord hstore⟩

end Whyrun
