import Whyrun.Model.CapsuleFile
import Whyrun.Storage.Aggregation
import Whyrun.Storage.Publication

/-!
A capsule is all or nothing. The statements of the writer, run one after
another, build the capsule of the recorded events; an exception at any of
them leaves the files as they were, and one inside the transaction leaves no
row even in the temporary file.
-/

namespace Whyrun

open ByteText Relational CapsuleWriter Transactions

/-! ### The statements build the capsule -/

/-- The tables and indexes of a capsule, in the order of their creation. -/
def capsuleSchema : List SchemaObject :=
  [ .metadata, .runs, .commands, .processes, .events, .fileActivity, .networkActivity,
    .eventsByTime, .eventsByErrno, .eventsByCommand, .commandsByTime ]

/-- The database holds a capsule. -/
structure Store.Holds (s : Store) (capsule : Capsule) : Prop where
  schema : s.schema = capsuleSchema
  version : s.metadata.lookup (lit "schema_version") = some capsule.schemaVersion
  runs : s.runs = [capsule.run]
  commands : s.commands = capsule.commands
  processes : s.processes = capsule.processes
  events : s.events = capsule.events
  fileActivity : s.fileActivity = capsule.fileActivity
  networkActivity : s.networkActivity = capsule.networkActivity

/-- The content after a sequence of statements. -/
def runStatements (s : Store) (statements : List StoreStatement) : Except Failure Store :=
  statements.foldlM (fun s statement => statement s) s

theorem effects_statements (s : Store) (statements : List StoreStatement) :
    (statements.map Command.statement).foldlM (fun s command => command.effect s) s =
      runStatements s statements := by
  rw [List.foldlM_map]
  rfl

variable {s s' : Store} {capsule capsule' : Capsule} {run : RunMetadata} {event : Event}
  {es : List Event}

theorem on_of_mem {table : SchemaObject} (h : table ∈ s.schema) (statement : StoreStatement) :
    Store.on table statement s = statement s := if_pos h

theorem Store.Holds.mem_schema (h : s.Holds capsule) {table : SchemaObject}
    (htable : table ∈ capsuleSchema) : table ∈ s.schema := h.schema ▸ htable

/-- What the constructor leaves. -/
theorem holds_setup
    (h : (setupCommands run).foldlM (fun s command => command.effect s) {} = .ok s) :
    s.Holds (create run) := by
  have hsetup : (setupCommands run).foldlM (fun s command => command.effect s) ({} : Store) =
      .ok { schema := capsuleSchema
            metadata := ((∅ : Table Bytes Bytes).insert (lit "schema_version") (lit "3")).insert
              (lit "tool_version") kVersion
            runs := [(create run).run] } := rfl
  rw [hsetup] at h
  obtain rfl := Except.ok.inj h
  exact ⟨rfl, rfl, rfl, rfl, rfl, rfl, rfl, rfl⟩

theorem runStatements_on {table : SchemaObject} (h : table ∈ s.schema)
    (statement : StoreStatement) :
    runStatements s [Store.on table statement] = statement s := by
  rw [runStatements, List.foldlM_cons, Store.on, if_pos h]
  cases statement s <;> rfl

/-- One call of `emit`, table by table. -/
theorem runStatements_emit (h : s.Holds capsule) (event : Event) :
    runStatements s (emitStatements event) =
      (commandsAfter s.commands event).bind fun commands =>
        (processesAfter s.processes event).map fun processes =>
          { s with
            commands, processes
            events := s.events ++ [eventRow (s.events.length + 1) event]
            fileActivity := filesAfter s.fileActivity event
            networkActivity := networkAfter s.networkActivity event } := by
  let inserted : Store :=
    { s with events := s.events ++ [eventRow (s.events.length + 1) event] }
  have hinsert : runStatements s (emitStatements event) =
      runStatements inserted (activityStatement event).toList := by
    rw [runStatements, emitStatements, List.foldlM_cons, Store.insertEvent, Store.on,
      if_pos (h.mem_schema (by decide))]
    rfl
  have hmem : ∀ {table}, table ∈ capsuleSchema → table ∈ inserted.schema := h.mem_schema
  -- after the row of the event there is at most one statement, by its type
  rw [hinsert]
  unfold activityStatement commandsAfter processesAfter filesAfter networkAfter
  cases event.type with
  | commandStart =>
      rw [Option.toList, runStatements_on (hmem (by decide))]
      cases hstart : startCommand s.commands event <;>
        simp [inserted, Except.bind, Except.map]
  | commandEnd =>
      rw [Option.toList, runStatements_on (hmem (by decide))]
      cases hend : endCommand s.commands event <;>
        simp [inserted, Except.bind, Except.map]
  | processExec | processFork | processExit =>
      rw [Option.toList, runStatements_on (hmem (by decide))]
      rfl
  | fileRead | fileWrite | networkConnect =>
      rw [Option.toList, runStatements_on (hmem (by decide))]
      rfl
  | fileOpen | localIpcConnect => rfl

theorem holds_emit (h : s.Holds capsule)
    (hrun : runStatements s (emitStatements event) = .ok s') :
    ∃ capsule', emit capsule event = .ok capsule' ∧ s'.Holds capsule' := by
  rw [runStatements_emit h] at hrun
  rw [emit_eq, ← h.commands, ← h.processes]
  cases hcommands : commandsAfter s.commands event with
  | error e =>
      rw [hcommands] at hrun
      contradiction
  | ok commands =>
      rw [hcommands] at hrun
      cases hprocesses : processesAfter s.processes event with
      | error e =>
          rw [hprocesses] at hrun
          contradiction
      | ok processes =>
          rw [hprocesses] at hrun
          obtain rfl := Except.ok.inj hrun
          exact ⟨_, rfl, h.schema, h.version, h.runs, rfl, rfl, by rw [h.events],
            by rw [h.fileActivity], by rw [h.networkActivity]⟩

/-- The calls of `emit`, one after another. -/
theorem holds_emitAll (h : s.Holds capsule)
    (hrun : (es.flatMap emitCommands).foldlM (fun s command => command.effect s) s = .ok s') :
    ∃ capsule', emitAll capsule es = .ok capsule' ∧ s'.Holds capsule' := by
  induction es generalizing s capsule with
  | nil =>
      obtain rfl := Transducer.foldlM_nil_ok_iff.mp hrun
      exact ⟨capsule, rfl, h⟩
  | cons event es ih =>
      rw [List.flatMap_cons] at hrun
      obtain ⟨middle, hfirst, hrest⟩ := Transducer.foldlM_append_ok_iff.mp hrun
      rw [emitCommands, effects_statements] at hfirst
      obtain ⟨next, hemit, hnext⟩ := holds_emit h hfirst
      obtain ⟨capsule', hall, hholds⟩ := ih hnext hrest
      exact ⟨capsule', Transducer.foldlM_cons_ok_iff.mpr ⟨next, hemit, hall⟩, hholds⟩

theorem holds_finish (h : s.Holds capsule) (result : CollectionResult)
    (hrun : (finishCommands result).foldlM (fun s command => command.effect s) s = .ok s') :
    s'.Holds (finish capsule result) := by
  have hupdate : (finishCommands result).foldlM (fun s command => command.effect s) s =
      .ok { s with runs := s.runs.map (Store.finishedRow result) } := by
    have hruns := on_of_mem (h.mem_schema (show SchemaObject.runs ∈ capsuleSchema by decide))
      fun s => .ok { s with runs := s.runs.map (Store.finishedRow result) }
    simp only [finishCommands, List.foldlM_cons, Command.effect, Store.updateRuns, hruns]
    rfl
  rw [hupdate] at hrun
  obtain rfl := Except.ok.inj hrun
  exact { h with runs := by rw [h.runs]; rfl }

/-! ### The writer -/

section writer

variable {faults : Faults} {collection : Collection} {result : CollectionResult}
  {left : Option Store}

/-- A collection that ends without an exception fills the capsule, and the
commit puts it into the file. -/
theorem collectAndFinish_ok {c c' : Connection Store} (hcreated : c.current.Holds (create run))
    (h : collectAndFinish faults c collection = .ok (result, c')) :
    collection.outcome = .ok result ∧ ∃ capsule,
      emitAll (create run) collection.events = .ok capsule ∧
        c'.close.Holds (finish capsule result) := by
  unfold collectAndFinish at h
  obtain ⟨middle, hcollect, hrest⟩ := Transducer.bind_ok_iff.mp h
  obtain ⟨capsule, hemit, hholds⟩ :=
    holds_emitAll hcreated (Connection.effects_of_executeAll hcollect)
  cases houtcome : collection.outcome with
  | error e => simp [houtcome] at hrest
  | ok r =>
      simp only [houtcome] at hrest
      obtain ⟨last, hfinish, hlast⟩ := Transducer.bind_ok_iff.mp hrest
      obtain ⟨rfl, rfl⟩ := Prod.mk.inj (Except.ok.inj hlast)
      refine ⟨rfl, capsule, hemit, ?_⟩
      rw [Connection.close_of_commit [.statement (Store.updateRuns r)] hfinish]
      exact holds_finish hholds r (Connection.effects_of_executeAll hfinish)

/-- A writer from which no exception comes leaves the finished capsule. -/
theorem writeCapsule_ok (h : writeCapsule faults run collection = (.ok result, left)) :
    collection.outcome = .ok result ∧ ∃ capsule store,
      emitAll (create run) collection.events = .ok capsule ∧
        left = some store ∧ store.Holds (finish capsule result) := by
  unfold writeCapsule at h
  split at h
  · simp at h
  · dsimp only at h
    split at h
    · simp at h
    · rename_i c hsetup
      split at h
      · simp at h
      · rename_i r c' hcollect
        obtain ⟨hr, rfl⟩ := Prod.mk.inj h
        obtain rfl := Except.ok.inj hr
        have hcreated := holds_setup (Connection.effects_of_executeAll hsetup)
        obtain ⟨houtcome, capsule, hemit, hholds⟩ := collectAndFinish_ok hcreated hcollect
        exact ⟨houtcome, capsule, _, hemit, rfl, hholds⟩

/-! ### What an exception leaves in the database -/

/-- No table has a row. -/
structure Store.NoRows (s : Store) : Prop where
  metadata : s.metadata = ∅
  runs : s.runs = []
  commands : s.commands = ∅
  processes : s.processes = ∅
  events : s.events = []
  fileActivity : s.fileActivity = ∅
  networkActivity : s.networkActivity = ∅

theorem Store.NoRows.schemaStatement (h : s.NoRows) {statement : StoreStatement}
    (hmem : statement ∈ schemaStatements) (hrun : statement s = .ok s') : s'.NoRows := by
  have hkind : statement = Store.pragma ∨ ∃ object, statement = Store.create object := by
    simp only [schemaStatements, List.mem_cons, List.not_mem_nil, or_false] at hmem
    rcases hmem with rfl | rfl | rfl | rfl | rfl | rfl | rfl | rfl | rfl | rfl | rfl | rfl | rfl
    iterate 2 exact .inl rfl
    all_goals exact .inr ⟨_, rfl⟩
  rcases hkind with rfl | ⟨object, rfl⟩
  · obtain rfl := Except.ok.inj hrun
    exact h
  · unfold Store.create at hrun
    split at hrun
    · contradiction
    · obtain rfl := Except.ok.inj hrun
      exact ⟨h.metadata, h.runs, h.commands, h.processes, h.events, h.fileActivity,
        h.networkActivity⟩

theorem ne_commit_of_mem_statements (statements : List StoreStatement)
    {command : Command Store Failure} (h : command ∈ statements.map Command.statement) :
    command ≠ .commit := by
  obtain ⟨_, -, rfl⟩ := List.mem_map.mp h
  exact nofun

/-- The constructor has written no row outside of its transaction, wherever it
throws. -/
theorem setup_noRows (fault : ℕ → Option Failure) (run : RunMetadata) (opened : Connection Store)
    (hclosed : opened.working = none) (hempty : opened.close.NoRows) :
    (Connection.leaves (opened.executeAll fault (setupCommands run))).close.NoRows ∧
      ∀ c, opened.executeAll fault (setupCommands run) = .ok c → c.working.isSome = true := by
  have hschema := Connection.leaves_executeAll
    (P := fun c : Connection Store => c.working = none ∧ c.close.NoRows) fault
    (fun command (hcommand : command ∈ schemaStatements.map Command.statement) c hc => by
      obtain ⟨statement, hmem, rfl⟩ := List.mem_map.mp hcommand
      obtain ⟨hstill, hclose⟩ := Connection.leaves_statement fault statement hc.1
      refine ⟨hstill, ?_⟩
      rcases hclose with hsame | hrun
      · rw [hsame]
        exact hc.2
      · exact hc.2.schemaStatement hmem hrun)
    ⟨hclosed, hempty⟩
  rw [setupCommands, Connection.executeAll_append]
  cases hfirst : opened.executeAll fault (schemaStatements.map .statement) with
  | error r =>
      rw [hfirst] at hschema
      exact ⟨hschema.2, nofun⟩
  | ok c =>
      rw [hfirst] at hschema
      obtain ⟨hbegin, hworking⟩ := Connection.leaves_beginTransaction fault c
      rw [Except.bind, Connection.executeAll_cons]
      cases hstart : c.execute fault .beginTransaction with
      | error r =>
          rw [hstart] at hbegin
          refine ⟨?_, nofun⟩
          show (Connection.leaves (.error r)).close.NoRows
          rw [hbegin]
          exact hschema.2
      | ok c' =>
          rw [hstart] at hbegin
          obtain ⟨hstill, hclose⟩ := Connection.close_executeAll fault (hworking c' hstart)
            fun _ => ne_commit_of_mem_statements (headerStatements run)
          rw [Except.bind]
          refine ⟨?_, fun c'' hc'' => ?_⟩
          · rw [hclose]
            exact hbegin ▸ hschema.2
          · rw [hc''] at hstill
            exact hstill

/-- A collection that throws leaves the file as it was. -/
theorem collectAndFinish_thrown {c c' : Connection Store} {e : Failure}
    (hopen : c.working.isSome = true)
    (h : collectAndFinish faults c collection = .error (e, c')) : c'.close = c.close := by
  have hemits : ∀ command ∈ collection.events.flatMap emitCommands,
      command ≠ (Command.commit : Command Store Failure) := by
    intro command hcommand
    obtain ⟨event, -, hmem⟩ := List.mem_flatMap.mp hcommand
    exact ne_commit_of_mem_statements _ hmem
  obtain ⟨hstill, hclose⟩ := Connection.close_executeAll faults.statement hopen hemits
  unfold collectAndFinish at h
  cases hcollect : c.executeAll faults.statement (collection.events.flatMap emitCommands) with
  | error r =>
      rw [hcollect] at h hclose
      obtain rfl := Except.error.inj h
      exact hclose
  | ok middle =>
      rw [hcollect] at h hclose hstill
      cases houtcome : collection.outcome with
      | error e' =>
          simp only [houtcome, Bind.bind, Except.bind, Except.error.injEq, Prod.mk.injEq] at h
          rw [← h.2]
          exact hclose
      | ok result =>
          cases hfinish : middle.executeAll faults.statement (finishCommands result) with
          | error r =>
              simp only [houtcome, hfinish, Bind.bind, Except.bind, Except.error.injEq] at h
              subst h
              exact (Connection.close_of_thrown hstill
                (fun _ => ne_commit_of_mem_statements [Store.updateRuns result])
                hfinish).trans hclose
          | ok last => simp [houtcome, hfinish, Bind.bind, Except.bind] at h

/-- Nothing of a recording that throws is in the database. -/
theorem thrown_leaves_no_rows {e : Failure} {store : Store}
    (h : writeCapsule faults run collection = (.error e, some store)) : store.NoRows := by
  obtain ⟨hsetup, hopen⟩ := setup_noRows faults.statement run { committed := {} } rfl
    ⟨rfl, rfl, rfl, rfl, rfl, rfl, rfl⟩
  unfold writeCapsule at h
  split at h
  · simp at h
  · dsimp only at h
    split at h
    · -- the constructor throws, before its transaction or inside it
      rename_i e' c hthrown
      obtain ⟨-, hleft⟩ := Prod.mk.inj h
      obtain rfl := Option.some.inj hleft
      rw [hthrown] at hsetup
      exact hsetup
    · rename_i c hcreated
      rw [hcreated] at hsetup
      split at h
      · -- the transaction is left open, whether or not the rollback throws
        rename_i e' c' hthrown
        obtain ⟨-, hleft⟩ := Prod.mk.inj h
        obtain rfl := Option.some.inj hleft
        rw [Connection.close_rollback, collectAndFinish_thrown (hopen c hcreated) hthrown]
        exact hsetup
      · simp at h

end writer

/-! ### The temporary file -/

section paths

variable {files : FileSystem} {directory runId path : Bytes} {pid : Pid}

theorem temporaryCandidate_injective (directory runId : Bytes) (pid : Pid) :
    Function.Injective (temporaryCandidate directory runId pid) := by
  intro suffix suffix' h
  unfold temporaryCandidate at h
  have hnumber := List.append_cancel_left (List.append_cancel_right h)
  have hdash : lit "-" ≠ [] := by decide
  split at hnumber <;> split at hnumber
  · simp_all
  · simp [hdash] at hnumber
  · simp [hdash] at hnumber
  · have hvalue := congrArg digitsValue (List.append_cancel_left hnumber)
    rw [digitsValue_decimalNat, digitsValue_decimalNat] at hvalue
    exact UInt32.toNat_inj.mp hvalue

theorem temporaryCapsulePath_spec
    (h : temporaryCapsulePath files directory runId pid = some path) :
    path ∉ files ∧ ∃ chosen, path = temporaryCandidate directory runId pid chosen := by
  obtain ⟨hfree, hchosen⟩ := NameSearch.firstFree_spec h
  exact ⟨by simpa using hfree, hchosen⟩

theorem temporaryCapsulePath_isSome (hfiles : files.keys.length < 2 ^ 32) :
    (temporaryCapsulePath files directory runId pid).isSome = true := by
  refine NameSearch.firstFree_isSome (temporaryCandidate_injective directory runId pid)
    (fun suffix htaken => ?_) hfiles 0
  exact AList.mem_keys.mp (by simpa using htaken)

/-- No temporary file has the path of a capsule. -/
theorem temporaryCandidate_ne_capsulePath (suffix : UInt32) (run : RunMetadata) :
    temporaryCandidate directory runId pid suffix ≠ capsulePath run := by
  intro h
  have hlast := congrArg List.getLast? h
  have htmp : (lit ".tmp").getLast? = some 112 := by decide
  have hwrun : (lit ".wrun").getLast? = some 110 := by decide
  simp only [temporaryCandidate, capsulePath, List.getLast?_append, htmp, hwrun,
    Option.some_or] at hlast
  contradiction

end paths

/-! ### The recording -/

/-- A capsule that `show` and `diff` accept: of one run that has ended, with a
row for each event and the tables that the events make. -/
structure Store.Complete (s : Store) (es : List Event) (result : CollectionResult) : Prop where
  schema : validateSchema (s.metadata.lookup (lit "schema_version")) = .ok 3
  run : ∃ row, s.runs = [row] ∧ row.endNs = some (asI64 result.endNs)
  events : s.events = eventRows 0 es
  commands : es.foldlM commandsAfter ∅ = .ok s.commands
  processes : es.foldlM processesAfter ∅ = .ok s.processes
  fileActivity : s.fileActivity = es.foldl filesAfter ∅
  networkActivity : s.networkActivity = es.foldl networkAfter ∅
  files : ∀ path, s.fileActivity.lookup path =
    if eventsOf es .fileRead path = [] ∧ eventsOf es .fileWrite path = [] then none
    else some
      { readCalls := (eventsOf es .fileRead path).length
        writeCalls := (eventsOf es .fileWrite path).length
        bytesRead := transferred (eventsOf es .fileRead path)
        bytesWritten := transferred (eventsOf es .fileWrite path) }
  connects : ∀ endpoint, s.networkActivity.lookup endpoint =
    if eventsOf es .networkConnect endpoint = [] then none
    else some
      { connectCount := (eventsOf es .networkConnect endpoint).length
        successCount :=
          ((eventsOf es .networkConnect endpoint).filter fun e => e.errnoValue = 0).length
        failureCount :=
          ((eventsOf es .networkConnect endpoint).filter fun e => ¬ e.errnoValue = 0).length
        lastErrno := ((eventsOf es .networkConnect endpoint).getLast?.map
          fun e => e.errnoValue.toInt).getD 0 }

theorem Store.Holds.complete {result : CollectionResult}
    (hemit : emitAll (CapsuleWriter.create run) es = .ok capsule)
    (h : s.Holds (finish capsule result)) : s.Complete es result := by
  obtain ⟨commands, processes, hcommands, hprocesses, rfl⟩ := emitAll_ok_iff.mp hemit
  refine ⟨?_, ⟨_, h.runs, rfl⟩, ?_, ?_, ?_, h.fileActivity, h.networkActivity, fun path => ?_,
    fun endpoint => ?_⟩
  · rw [h.version]
    rfl
  · rw [h.events]
    rfl
  · rw [h.commands]
    exact hcommands
  · rw [h.processes]
    exact hprocesses
  · rw [h.fileActivity]
    exact lookup_foldl_filesAfter es path
  · rw [h.networkActivity]
    exact lookup_foldl_networkAfter es endpoint

/-- The files after a recording that throws, and after one that does not. -/
def AllOrNothing (files : FileSystem) (run : RunMetadata) (collection : Collection)
    (r : RecordEnd) : Prop :=
  match r.outcome with
  | .error _ => ∀ path, r.files.lookup path = files.lookup path
  | .ok result =>
      collection.outcome = .ok result ∧ capsulePath run ∉ files ∧
        (∀ path, path ≠ capsulePath run → r.files.lookup path = files.lookup path) ∧
        ∃ store, r.files.lookup (capsulePath run) = some (.capsule store) ∧
          store.Complete collection.events result

variable {files : FileSystem} {temporaryPath : Bytes} {collection : Collection}

/-- The files with what a writer has left. -/
def withTemporary (files : FileSystem) (temporaryPath : Bytes) (left : Option Store) :
    FileSystem :=
  match left with
  | none => files
  | some store => files.insert temporaryPath (.capsule store)

theorem lookup_withTemporary {left : Option Store} {path : Bytes} (hpath : path ≠ temporaryPath) :
    (withTemporary files temporaryPath left).lookup path = files.lookup path := by
  cases left with
  | none => rfl
  | some store => exact AList.lookup_insert_ne hpath

/-- The guard takes away what the writer has left. -/
theorem thrown_allOrNothing (hfree : temporaryPath ∉ files) (e : Failure) (left : Option Store) :
    temporaryPath ∉ (RecordEnd.thrown e (withTemporary files temporaryPath left)
      temporaryPath).files ∧
    AllOrNothing files run collection
      (.thrown e (withTemporary files temporaryPath left) temporaryPath) := by
  refine ⟨fun hmem => (AList.mem_erase.mp hmem).1 rfl, fun path => ?_⟩
  by_cases hpath : path = temporaryPath
  · subst hpath
    exact (AList.lookup_erase _ _).trans (AList.lookup_eq_none.mpr hfree).symm
  · exact (AList.lookup_erase_ne hpath).trans (lookup_withTemporary hpath)

/-- `publish_capsule` copies the temporary file under a free path or changes
nothing. -/
theorem publishCapsule_cases (fault : Option Failure) (files : FileSystem)
    (temporaryPath finalPath : Bytes) :
    (∃ e, publishCapsule fault files temporaryPath finalPath = (.error e, files)) ∨
      ∃ content, files.lookup temporaryPath = some content ∧ finalPath ∉ files ∧
        publishCapsule fault files temporaryPath finalPath =
          (.ok (), (files.insert finalPath content).erase temporaryPath) := by
  unfold publishCapsule
  cases fault with
  | some e => exact .inl ⟨e, rfl⟩
  | none =>
      cases files.lookup temporaryPath with
      | none => exact .inl ⟨_, rfl⟩
      | some content =>
          dsimp only
          split
          · exact .inl ⟨_, rfl⟩
          · exact .inr ⟨content, rfl, ‹_›, rfl⟩

theorem recordCommand_eq {faults : Faults} {directory : Bytes} {pid : Pid}
    (h : temporaryCapsulePath files directory run.id pid = some temporaryPath) :
    recordCommand faults files directory pid run collection = some
      (let (outcome, left) := writeCapsule faults run collection
       let written := withTemporary files temporaryPath left
       match outcome with
       | .error e => .thrown e written temporaryPath
       | .ok result =>
           match publishCapsule faults.copyFile written temporaryPath (capsulePath run) with
           | (.error e, files) => .thrown e files temporaryPath
           | (.ok (), files) => ⟨.ok result, files⟩) := by
  rw [recordCommand, h]
  rfl

/-- A capsule is all or nothing: wherever a recording throws, the files are as
they were; otherwise there is one file more, the capsule of all its events. -/
theorem capsule_all_or_nothing (faults : Faults) (files : FileSystem) (directory : Bytes)
    (pid : Pid) (run : RunMetadata) (collection : Collection) :
    (files.keys.length < 2 ^ 32 →
      (temporaryCapsulePath files directory run.id pid).isSome = true) ∧
    ∀ temporaryPath, temporaryCapsulePath files directory run.id pid = some temporaryPath →
      ∃ r, recordCommand faults files directory pid run collection = some r ∧
        temporaryPath ∉ r.files ∧ AllOrNothing files run collection r := by
  refine ⟨temporaryCapsulePath_isSome, fun temporaryPath htemporary => ?_⟩
  obtain ⟨hfree, chosen, hchosen⟩ := temporaryCapsulePath_spec htemporary
  have hdistinct : capsulePath run ≠ temporaryPath :=
    hchosen ▸ (temporaryCandidate_ne_capsulePath chosen run).symm
  refine ⟨_, recordCommand_eq htemporary, ?_⟩
  rcases hwrite : writeCapsule faults run collection with ⟨outcome, left⟩
  cases outcome with
  | error e => exact thrown_allOrNothing hfree e left
  | ok result =>
      obtain ⟨houtcome, capsule, store, hemit, rfl, hholds⟩ := writeCapsule_ok hwrite
      dsimp only
      rcases publishCapsule_cases faults.copyFile (withTemporary files temporaryPath (some store))
        temporaryPath (capsulePath run) with ⟨e, hpublish⟩ | ⟨content, hcontent, hnew, hpublish⟩
      · rw [hpublish]
        exact thrown_allOrNothing hfree e (some store)
      · rw [hpublish]
        obtain rfl : FileContent.capsule store = content :=
          Option.some.inj ((AList.lookup_insert files).symm.trans hcontent)
        refine ⟨fun hmem => (AList.mem_erase.mp hmem).1 rfl, houtcome, ?_, fun path hpath => ?_,
          store, ?_, hholds.complete hemit⟩
        · rw [← AList.lookup_eq_none, lookup_withTemporary hdistinct] at hnew
          exact AList.lookup_eq_none.mp hnew
        · by_cases htemp : path = temporaryPath
          · subst htemp
            exact (AList.lookup_erase _ _).trans (AList.lookup_eq_none.mpr hfree).symm
          · rw [AList.lookup_erase_ne htemp, AList.lookup_insert_ne hpath,
              lookup_withTemporary htemp]
        · rw [AList.lookup_erase_ne hdistinct, AList.lookup_insert]

/-- A recording of one connect. -/
def sampleCollection : Collection where
  events :=
    [{ timestampNs := 1, pid := 7, tid := 7, type := .networkConnect, resource := lit "e",
       result := 0, errnoValue := 0, metadata := [], commandId := none }]
  outcome := .ok { collectorOk := true, exitCode := 0, endNs := 2 }

/-- The second statement of its `emit` throws. -/
def sampleFaults : Faults where
  statement := fun n => if n = 18 then some "disk I/O error" else none

theorem capsule_all_or_nothing_sample :
    (∃ r, recordCommand {} ∅ (lit "/tmp") 7 sampleRun sampleCollection = some r ∧
      ∃ store, r.files.lookup (capsulePath sampleRun) = some (.capsule store) ∧
        store.Complete sampleCollection.events
          { collectorOk := true, exitCode := 0, endNs := 2 }) ∧
    ∃ r, recordCommand sampleFaults ∅ (lit "/tmp") 7 sampleRun sampleCollection = some r ∧
      r.outcome = .error "disk I/O error" ∧ ∀ path, r.files.lookup path = none := by
  have htemporary : temporaryCapsulePath ∅ (lit "/tmp") sampleRun.id 7 =
      some (temporaryCandidate (lit "/tmp") sampleRun.id 7 0) := rfl
  constructor
  · obtain ⟨r, hrecord, -, hfiles⟩ :=
      (capsule_all_or_nothing {} ∅ (lit "/tmp") 7 sampleRun sampleCollection).2 _ htemporary
    have houtcome : r.outcome = .ok { collectorOk := true, exitCode := 0, endNs := 2 } := by
      obtain rfl := Option.some.inj hrecord
      rfl
    rw [AllOrNothing, houtcome] at hfiles
    exact ⟨r, hrecord, hfiles.2.2.2⟩
  · obtain ⟨r, hrecord, -, hfiles⟩ :=
      (capsule_all_or_nothing sampleFaults ∅ (lit "/tmp") 7 sampleRun sampleCollection).2 _
        htemporary
    have houtcome : r.outcome = .error "disk I/O error" := by
      obtain rfl := Option.some.inj hrecord
      rfl
    rw [AllOrNothing, houtcome] at hfiles
    exact ⟨r, hrecord, houtcome, hfiles⟩

end Whyrun
