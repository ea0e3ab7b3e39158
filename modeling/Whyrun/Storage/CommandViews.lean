import Whyrun.Kernel.Turns
import Whyrun.Storage.Aggregation
import Whyrun.Storage.CommandMode

/-!
The two views of a run in command mode: that of the whole run and that of its
only command. Every event belongs to the command, so the sections and the
timeline are the same; the exit codes are the same as long as the pid of the
root is not given to a process that ends in another way.
-/

namespace Whyrun

open ByteText ExecutionState CollectorState Relational CapsuleWriter

variable {root : Pid} {past : List Notification} {n : Notification}
  {σ σ' : ExecutionState} {es : List Event}

/-! ### The two views -/

/-- The exit code under `Exit`; none for a command that is not stored or has
not ended. -/
def shownExit (capsule : Capsule) : CommandFilter → Option ℤ
  | some id => (capsule.commands.lookup id).bind CommandRow.exitCode
  | none => some (columnInteger capsule.run.exitCode)

/-- Every event belongs to command 1, and its view is that of the run. -/
structure ViewsAgree (es : List Event) (capsule : Capsule) : Prop where
  ids : ∀ e ∈ es, e.commandId = some 1
  files : showFiles capsule (some 1) = showFiles capsule none
  network : showNetwork capsule (some 1) = showNetwork capsule none
  localIpc : showLocalIpc capsule (some 1) = showLocalIpc capsule none
  errors : showErrors capsule (some 1) = showErrors capsule none
  timeline : timelineRows capsule (some 1) = timelineRows capsule none
  exit : shownExit capsule (some 1) = shownExit capsule none

theorem syscallErrno_nonneg (result : Int64) : 0 ≤ syscallErrno result := by
  rw [Int32.le_iff_toInt_le, toInt_syscallErrno]
  show (0 : ℤ) ≤ _
  split <;> omega

theorem Effect.errno_nonneg (he : Effect σ n σ' es) : ∀ e ∈ es, 0 ≤ e.errnoValue := by
  cases he with
  | markerIgnored | arm | createdUnknown | createdThread | exitedThread | exitedUnknown
    | syscallUnknown => simp
  | start | stop => simp [commandStartEvent, commandEndEvent]
  | exec | execDiscovered => simp [attributed, execEvent]
  | createdProcess => simp [forkEvent]
  | exited | exitedIdle | exitedRunning => simp [attributed, exitEvent, commandEndEvent]
  | @syscall memory call P found =>
      intro e hmem
      obtain ⟨raw, hraw, rfl⟩ := List.mem_map.mp hmem
      obtain ⟨type, resource, metadata, -, rfl⟩ :=
        (syscallExit_spec memory P call).event raw (Option.mem_toList.mp hraw)
      exact syscallErrno_nonneg call.result

section views

variable {run : RunMetadata} {capsule : Capsule}

theorem inCommand_of_ids (hstore : emitAll (create run) es = .ok capsule)
    (hids : ∀ e ∈ es, e.commandId = some 1) {row : EventRow} (hrow : row ∈ capsule.events) :
    inCommand (some 1) row = true := by
  rw [events_recording hstore] at hrow
  obtain ⟨i, e, he, rfl⟩ := mem_eventRows hrow
  simp only [inCommand, eventRow, hids e (List.mem_of_getElem? he)]
  rfl

/-- The sections and the timeline of a run whose events belong to command 1. -/
theorem rowsOfType_of_ids (hstore : emitAll (create run) es = .ok capsule)
    (hids : ∀ e ∈ es, e.commandId = some 1) (type : EventType) :
    rowsOfType capsule type (some 1) = rowsOfType capsule type none := by
  refine List.filter_congr fun row hrow => ?_
  rw [inCommand_of_ids hstore hids hrow]
  rfl

theorem showFiles_of_ids (hstore : emitAll (create run) es = .ok capsule)
    (hids : ∀ e ∈ es, e.commandId = some 1) :
    showFiles capsule (some 1) = showFiles capsule none := by
  have hlines : ∀ read, fileLines capsule (some 1) read = fileLines capsule none read := by
    intro read
    rw [fileLines_none hstore]
    show groupedFileLines (rowsOfType capsule (transferType read) (some 1)) = _
    rw [rowsOfType_of_ids hstore hids]
  unfold showFiles
  simp only [hlines]

theorem showNetwork_of_ids (hstore : emitAll (create run) es = .ok capsule)
    (hids : ∀ e ∈ es, e.commandId = some 1) (herrno : ∀ e ∈ es, 0 ≤ e.errnoValue)
    (htime : (es.filter fun e => e.type = .networkConnect).Pairwise
      fun a b => asI64 a.timestampNs ≤ asI64 b.timestampNs) :
    showNetwork capsule (some 1) = showNetwork capsule none := by
  have hlines : networkLines capsule (some 1) = networkLines capsule none := by
    rw [networkLines_none hstore herrno htime]
    show groupedNetworkLines (rowsOfType capsule .networkConnect (some 1)) = _
    rw [rowsOfType_of_ids hstore hids]
  unfold showNetwork
  rw [hlines]

theorem showLocalIpc_of_ids (hstore : emitAll (create run) es = .ok capsule)
    (hids : ∀ e ∈ es, e.commandId = some 1) :
    showLocalIpc capsule (some 1) = showLocalIpc capsule none := by
  unfold showLocalIpc
  rw [rowsOfType_of_ids hstore hids]

theorem showErrors_of_ids (hstore : emitAll (create run) es = .ok capsule)
    (hids : ∀ e ∈ es, e.commandId = some 1) :
    showErrors capsule (some 1) = showErrors capsule none := by
  have hrows : (capsule.events.filter fun row => 0 < row.errnoValue && inCommand (some 1) row) =
      capsule.events.filter fun row => 0 < row.errnoValue && inCommand none row := by
    refine List.filter_congr fun row hrow => ?_
    rw [inCommand_of_ids hstore hids hrow]
    rfl
  unfold showErrors
  rw [hrows]

theorem timelineRows_of_ids (hstore : emitAll (create run) es = .ok capsule)
    (hids : ∀ e ∈ es, e.commandId = some 1) :
    timelineRows capsule (some 1) = timelineRows capsule none := by
  have hrows : capsule.events.filter (inCommand (some 1)) =
      capsule.events.filter (inCommand none) := by
    refine List.filter_congr fun row hrow => ?_
    rw [inCommand_of_ids hstore hids hrow]
    rfl
  unfold timelineRows
  rw [hrows]

end views

/-! ### The collector in command mode -/

/-- What the loop keeps of the exits reported under the pid of the root. -/
def noteExit (root : Pid) (result : CollectionResult) : Notification → CollectionResult
  | .exited tid exitCode termSignal _ =>
      if tid = root then
        { result with exitCode := exitResult exitCode termSignal, termSignal }
      else result
  | _ => result

/-- The result of a loop that has run to its end. -/
def collectionResult (root : Pid) (ns : List Notification) (endNs : UInt64) :
    CollectionResult :=
  { ns.foldl (noteExit root) {} with endNs, collectorOk := true }

theorem exitCode_noteExit (root : Pid) (ns : List Notification) (result : CollectionResult) :
    (ns.foldl (noteExit root) result).exitCode =
      (rootExits root ns).getLast?.getD result.exitCode := by
  induction ns using List.reverseRecOn with
  | nil => rfl
  | append_singleton past n ih =>
      rw [List.foldl_append, List.foldl_cons, List.foldl_nil, rootExits_append]
      cases n with
      | exited tid code signal t =>
          by_cases htid : tid = root
          · simp [noteExit, rootExits, htid]
          · simp [noteExit, rootExits, htid, ih]
      | marker | exec | created | syscall => simpa [noteExit, rootExits] using ih

theorem observe_of_no_alias {tracker : CommandChannelTracker} (h : tracker.aliases = ∅)
    (call : RawSyscall) : (tracker.observe call).aliases = ∅ := by
  unfold CommandChannelTracker.observe CommandChannelTracker.assignAlias
  dsimp only
  repeat' split
  all_goals simp_all

/-- A turn without a channel: the execution state is told of no marker, and
the exit code follows the exits that it is told of. -/
structure CommandTurn (σ τ : CollectorState) (ns : List Notification) : Prop where
  rootPid : τ.rootPid = σ.rootPid
  execution : τ.execution = σ.execution
  noAlias : τ.channel.aliases = ∅
  unmarked : ∀ n ∈ ns, n.isMarker = false
  exitCode : τ.result.exitCode = (rootExits σ.rootPid ns).getLast?.getD σ.result.exitCode

theorem commandTurn_collectTurn {σ : CollectorState} {report : Report} {turn : Turn}
    (halias : σ.channel.aliases = ∅) (h : σ.collectTurn report = .ok turn) :
    CommandTurn σ turn.state turn.notifications := by
  refine collectTurn_rule (motive := CommandTurn σ) ?_ ?_ ?_ ?_ ?_ h
  · rintro τ τ' ns ⟨_, _, _, _, rfl⟩ hτ
    exact ⟨hτ.rootPid, hτ.execution, hτ.noAlias, hτ.unmarked, hτ.exitCode⟩
  · intro hend
    refine ⟨?_, ?_, ?_, by simp [exitTurn, Notification.isMarker], ?_⟩
    all_goals
      by_cases hroot : report.tid = σ.rootPid <;>
        simp [exitTurn, CollectorState.setThread, hroot, halias, rootExits]
  · intro hend
    exact ⟨rfl, rfl, halias, by simp, rfl⟩
  · rintro τ turn - - ⟨_, _, _, _, rfl⟩ hturn
    rcases syscallTurn_inv hturn with ⟨-, rfl⟩ | ⟨_, _, -, rfl⟩ | ⟨_, -, -, rfl⟩ | ⟨_, -, -, hexit⟩
    · exact ⟨rfl, rfl, halias, by simp, rfl⟩
    · exact ⟨rfl, rfl, halias, by simp, rfl⟩
    · exact ⟨rfl, rfl, halias, by simp, rfl⟩
    · -- no descriptor is a channel, so the call carries no marker
      obtain ⟨protocol, markers, rfl, hmarkers⟩ := syscallExitTurn_inv rfl hexit
      obtain rfl : markers = [] := by
        rcases hmarkers with rfl | ⟨⟨-, hreceives, -⟩, -⟩
        · rfl
        · simp [CommandChannelTracker.receives, halias] at hreceives
      refine ⟨rfl, rfl, ?_, by simp [Notification.isMarker], rfl⟩
      show (if report.tid = σ.rootPid then σ.channel.observe _ else σ.channel).aliases = ∅
      split
      · exact observe_of_no_alias halias _
      · exact halias
  · rintro τ - ⟨_, _, _, _, rfl⟩
    unfold eventTurn
    split
    · split
      · exact ⟨rfl, rfl, halias, by simp [Notification.isMarker], rfl⟩
      · exact ⟨rfl, rfl, halias, by simp, rfl⟩
    · split
      · exact ⟨rfl, rfl, halias, by simp [Notification.isMarker], rfl⟩
      · exact ⟨rfl, rfl, halias, by simp, rfl⟩

/-- What the loop has told the execution state, and what it keeps of it. -/
structure CommandRun (σ₀ σ : CollectorState) (es : List Event) (ns : List Notification) :
    Prop where
  run : Transducer.run notify σ₀.execution ns = .ok (σ.execution, es)
  unmarked : ∀ n ∈ ns, n.isMarker = false
  exitCode : σ.result.exitCode = (ns.foldl (noteExit σ₀.rootPid) σ₀.result).exitCode

theorem commandRun_collect {σ₀ σ : CollectorState} {reports : List Report}
    (halias : σ₀.channel.aliases = ∅)
    (hrun : Transducer.run collectStep σ₀ reports = .ok (σ, es)) :
    ∃ ns, CommandRun σ₀ σ es ns := by
  have hinv : ∃ ns, CommandRun σ₀ σ es ns ∧ σ.channel.aliases = ∅ ∧ σ.rootPid = σ₀.rootPid := by
    refine Transducer.run_invariant (motive := fun _ σ es =>
      ∃ ns, CommandRun σ₀ σ es ns ∧ σ.channel.aliases = ∅ ∧ σ.rootPid = σ₀.rootPid)
      ⟨[], ⟨rfl, by simp, rfl⟩, halias, rfl⟩ ?_ hrun
    rintro - σ out report σ' es ⟨ns, h, hnone, hroot⟩ hstep
    obtain ⟨turn, execution, hturn, hcalls, rfl⟩ := collectStep_inv hstep
    have hcommand := commandTurn_collectTurn hnone hturn
    rw [hcommand.execution] at hcalls
    refine ⟨ns ++ turn.notifications, ⟨?_, ?_, ?_⟩, hcommand.noAlias,
      hcommand.rootPid.trans hroot⟩
    · exact Transducer.run_append_ok_iff.mpr ⟨_, _, _, h.run, hcalls, rfl⟩
    · intro n hn
      rcases List.mem_append.mp hn with hn | hn
      · exact h.unmarked n hn
      · exact hcommand.unmarked n hn
    · show turn.state.result.exitCode = _
      rw [hcommand.exitCode, h.exitCode, exitCode_noteExit, exitCode_noteExit, hroot,
        rootExits_append, List.getLast?_append]
      cases (rootExits σ₀.rootPid turn.notifications).getLast? <;> rfl
  obtain ⟨ns, h, -, -⟩ := hinv
  exact ⟨ns, h⟩

/-- A loop that is left without a throw has carried out the first reports. -/
theorem collectLoop_run {σ₀ σ : CollectorState} {reports : List Report}
    (h : σ₀.collectLoop reports = (σ, none)) :
    ∃ past es, past <+: reports ∧ Transducer.run collectStep σ₀ past = .ok (σ, es) := by
  induction reports generalizing σ₀ with
  | nil =>
      obtain ⟨rfl, -⟩ := Prod.mk.inj h
      exact ⟨[], [], List.nil_prefix, rfl⟩
  | cons report reports ih =>
      rw [collectLoop] at h
      split at h
      · split at h
        · simp at h
        · rename_i τ o hstep
          obtain ⟨past, es, hprefix, hrun⟩ := ih h
          exact ⟨report :: past, o ++ es, List.cons_prefix_cons.mpr ⟨rfl, hprefix⟩,
            Transducer.run_cons_ok_iff.mpr ⟨τ, o, es, hstep, hrun, rfl⟩⟩
      · obtain ⟨rfl, -⟩ := Prod.mk.inj h
        exact ⟨[], [], List.nil_prefix, rfl⟩

/-- A recording that `collect` completes without a channel has the exit code
of `collectionResult`. -/
theorem exitCode_collect {launch : Launch} {reports : List Report} {endNs : UInt64}
    {result : CollectionResult} {killed : Finset Pid} (hchannel : launch.channelFd = none)
    (hcollect : collect launch reports endNs = (.ok result, killed))
    (hok : result.collectorOk = true) :
    ∃ ns σ es, record launch.root launch.cwd launch.rootCommand launch.startNs ns = .ok (σ, es) ∧
      (∀ n ∈ ns, n.isMarker = false) ∧
      result.exitCode = (collectionResult launch.root ns endNs).exitCode := by
  unfold collect at hcollect
  split at hcollect
  · obtain ⟨hresult, -⟩ := Prod.mk.inj hcollect
    rw [← Except.ok.inj hresult] at hok
    contradiction
  · split at hcollect
    · obtain ⟨hresult, -⟩ := Prod.mk.inj hcollect
      rw [← Except.ok.inj hresult] at hok
      contradiction
    · split at hcollect
      · simp at hcollect
      · rename_i τ hloop
        obtain ⟨past, es, -, hrun⟩ := collectLoop_run hloop
        have halias : launch.start.channel.aliases = ∅ := by
          simp [Launch.start, CollectorState.start, hchannel, CommandChannelTracker.create]
        obtain ⟨ns, h⟩ := commandRun_collect halias hrun
        have hexit : τ.result.exitCode = (collectionResult launch.root ns endNs).exitCode :=
          h.exitCode
        refine ⟨ns, τ.execution, _, (record_ok_iff ..).mpr ⟨es, h.run, rfl⟩, h.unmarked, ?_⟩
        split at hcollect
        · -- the loop has returned before the end
          obtain ⟨hresult, -⟩ := Prod.mk.inj hcollect
          rw [← Except.ok.inj hresult]
          exact hexit
        · rw [← hexit]
          simp only [CollectorState.finish, hchannel, Option.isSome_none, Bool.false_eq_true,
            if_false, Bind.bind, Except.bind] at hcollect
          obtain ⟨hresult, -⟩ := Prod.mk.inj hcollect
          rw [← Except.ok.inj hresult]

/-! ### The stored views -/

section stored

variable {cwd text : Bytes} {startNs : UInt64} {ns : List Notification} {run : RunMetadata}
  {capsule : Capsule}

theorem errno_nonneg_record {rootCommand : Option Bytes}
    (hrun : record root cwd rootCommand startNs ns = .ok (σ, es)) :
    ∀ e ∈ es, 0 ≤ e.errnoValue := by
  obtain ⟨out, hrest, rfl⟩ := (record_ok_iff ..).mp hrun
  intro e he
  rcases List.mem_append.mp he with he | he
  · rw [initialEvents_eq] at he
    obtain ⟨_, -, rfl⟩ := List.mem_map.mp he
    exact Int32.le_refl 0
  · obtain ⟨_, _, _, _, _, _, _, -, -, hstep, hmem⟩ := Transducer.exists_step_of_mem_run hrest he
    exact (notify_effect hstep).errno_nonneg e hmem

/-- The events of a run in command mode: the start of the command and those of
its log. -/
theorem commandLog_record (legal : Transducer.Legal (CommandModeAdmits root) ns)
    (hrun : record root cwd (some text) startNs ns = .ok (σ, es)) :
    ∃ out, CommandLog root ns out ∧
      es = commandStartEvent root root 1 text cwd startNs :: out := by
  obtain ⟨out, hrest, rfl⟩ := (record_ok_iff ..).mp hrun
  exact ⟨out, commandLog_run legal hrest, by rw [initialEvents_eq]; rfl⟩

/-- Every part of the two views but the exit codes. -/
theorem viewsAgree_iff_exit (legal : Transducer.Legal (CommandModeAdmits root) ns)
    (hrun : record root cwd (some text) startNs ns = .ok (σ, es))
    (hstore : emitAll (create run) es = .ok capsule) (result : CollectionResult) :
    ViewsAgree es (finish capsule result) ↔
      shownExit (finish capsule result) (some 1) = shownExit (finish capsule result) none := by
  obtain ⟨out, hlog, hes⟩ := commandLog_record legal hrun
  have hids : ∀ e ∈ es, e.commandId = some 1 := by
    rw [hes]
    intro e he
    rcases List.mem_cons.mp he with rfl | he
    · rfl
    · exact hlog.ids e he
  have htime : (es.filter fun e => e.type = .networkConnect).Pairwise
      fun a b => asI64 a.timestampNs ≤ asI64 b.timestampNs := by
    rw [hes, List.filter_cons_of_neg (by simp [commandStartEvent])]
    exact hlog.ordered.filter _
  constructor
  · exact fun h => h.exit
  · intro hexit
    have hfiles := showFiles_of_ids hstore hids
    have hnetwork := showNetwork_of_ids hstore hids (errno_nonneg_record hrun) htime
    have hipc := showLocalIpc_of_ids hstore hids
    have herrors := showErrors_of_ids hstore hids
    have htimeline := timelineRows_of_ids hstore hids
    -- `finish` writes the row of the run only
    exact ⟨hids, hfiles, hnetwork, hipc, herrors, htimeline, hexit⟩

/-- The command gets the result of the root's own exit. -/
theorem shownExit_command (legal : Transducer.Legal (CommandModeAdmits root) ns)
    (hrun : record root cwd (some text) startNs ns = .ok (σ, es))
    (hstore : emitAll (create run) es = .ok capsule) (result : CollectionResult) :
    shownExit (finish capsule result) (some 1) = (rootExits root ns).head?.map Int32.toInt := by
  obtain ⟨out, hlog, hes⟩ := commandLog_record legal hrun
  have hlookup := lookup_commands (storable_record hrun) (commands_emitAll hstore) 1
  obtain ⟨row, hrow, hexit⟩ :=
    hlog.row (startRow (commandStartEvent root root 1 text cwd startNs) 1) rfl
  have hstart : rowAfter 1 ((create run).commands.lookup 1)
      (commandStartEvent root root 1 text cwd startNs) =
        some (startRow (commandStartEvent root root 1 text cwd startNs) 1) := rfl
  rw [hes, List.foldl_cons, hstart, hrow] at hlookup
  show (capsule.commands.lookup 1).bind CommandRow.exitCode = _
  rw [hlookup, Option.bind_some, hexit]

/-- The run gets the result of the last exit under the root's pid. -/
theorem shownExit_run (capsule : Capsule) (root : Pid) (ns : List Notification)
    (endNs : UInt64) :
    shownExit (finish capsule (collectionResult root ns endNs)) none =
      some ((rootExits root ns).getLast?.getD (-1)).toInt := by
  show some (collectionResult root ns endNs).exitCode.toInt = _
  rw [collectionResult, exitCode_noteExit]

theorem capsule_of_commandMode (legal : Transducer.Legal (CommandModeAdmits root) ns)
    (hrun : record root cwd (some text) startNs ns = .ok (σ, es)) (run : RunMetadata) :
    ∃ capsule, emitAll (create run) es = .ok capsule := by
  obtain ⟨out, hlog, hes⟩ := commandLog_record legal hrun
  have hstarted : startedIds es = [1] := by
    rw [hes, ← List.singleton_append, startedIds_append, hlog.started, List.append_nil]
    rfl
  rw [emitAll_ok_iff_startedIds run (storable_record hrun), hstarted]
  exact ⟨List.nodup_singleton 1, by simp⟩

/-- A run in command mode whose root has exited is stored, and its two views
agree exactly when the last exit under the root's pid has the result of the
root's own. -/
theorem command_views_iff (legal : Transducer.Legal (CommandModeAdmits root) ns)
    (hexited : rootAlive root ns = false)
    (hrun : record root cwd (some text) startNs ns = .ok (σ, es)) (run : RunMetadata)
    (endNs : UInt64) :
    ∃ capsule, emitAll (create run) es = .ok capsule ∧
      (ViewsAgree es (finish capsule (collectionResult root ns endNs)) ↔
        (rootExits root ns).getLast? = (rootExits root ns).head?) := by
  obtain ⟨capsule, hstore⟩ := capsule_of_commandMode legal hrun run
  refine ⟨capsule, hstore, ?_⟩
  rw [viewsAgree_iff_exit legal hrun hstore, shownExit_command legal hrun hstore, shownExit_run]
  have hsome : rootExits root ns ≠ [] := fun hnone => by
    rw [rootAlive_iff_rootExits.mpr hnone] at hexited
    contradiction
  rw [List.head?_eq_some_head hsome, List.getLast?_eq_some_getLast hsome]
  simp only [Option.map_some, Option.getD_some, Option.some.injEq, Int32.toInt_inj]
  exact eq_comm

/-- The root forks a child and exits. -/
def sampleOrphan : List Notification :=
  [.created 7 8 ptraceEventFork 0 1, .exited 7 0 0 2]

theorem sampleOrphan_legal : Transducer.Legal (CommandModeAdmits 7) sampleOrphan := by
  have hfork : Transducer.Legal (CommandModeAdmits 7) [.created 7 8 ptraceEventFork 0 1] :=
    (Transducer.legal_nil _).snoc ⟨⟨7, by decide, by decide⟩, fun _ => rfl, rfl, by simp⟩
  exact hfork.snoc ⟨⟨7, by decide, by decide⟩, fun _ => rfl, rfl, by decide⟩

/-- The child gets a child with the pid of the root. -/
theorem sampleReused_legal :
    Transducer.Legal (CommandModeAdmits 7)
      (sampleOrphan ++ [.created 8 7 ptraceEventFork 0 3] ++ [.exited 7 1 0 4]) := by
  have hfork := sampleOrphan_legal.snoc (i := .created 8 7 ptraceEventFork 0 3)
    ⟨⟨8, by decide, by decide⟩, nofun, rfl, by decide⟩
  exact hfork.snoc ⟨⟨7, by decide, by decide⟩, nofun, rfl, by decide⟩

/-- The run shows the exit code of the process with the reused pid. -/
theorem reused_pid_splits_views :
    ∃ σ es capsule, Transducer.Legal (CommandModeAdmits 7)
        (sampleOrphan ++ [.created 8 7 ptraceEventFork 0 3] ++ [.exited 7 1 0 4]) ∧
      record 7 (lit "/") (some (lit "sh")) 0
        (sampleOrphan ++ [.created 8 7 ptraceEventFork 0 3] ++ [.exited 7 1 0 4]) = .ok (σ, es) ∧
      emitAll (create sampleRun) es = .ok capsule ∧
      ¬ ViewsAgree es (finish capsule (collectionResult 7
        (sampleOrphan ++ [.created 8 7 ptraceEventFork 0 3] ++ [.exited 7 1 0 4]) 5)) := by
  obtain ⟨σ, es, hrun⟩ : ∃ σ es, record 7 (lit "/") (some (lit "sh")) 0
      (sampleOrphan ++ [.created 8 7 ptraceEventFork 0 3] ++ [.exited 7 1 0 4]) = .ok (σ, es) :=
    ⟨_, _, rfl⟩
  obtain ⟨capsule, hstore⟩ := capsule_of_commandMode sampleReused_legal hrun sampleRun
  refine ⟨σ, es, capsule, sampleReused_legal, hrun, hstore, fun h => ?_⟩
  have hexit := h.exit
  rw [shownExit_command sampleReused_legal hrun hstore, shownExit_run] at hexit
  exact absurd hexit (by decide)

/-- The root has made the call; its second argument points at the bytes. -/
def sampleRootCall (number : Int64) (fd : UInt64) (bytes : Bytes) (result : Int64) :
    Notification :=
  .syscall (sampleMemoryOf (lit "x") bytes)
    { pid := 7, tid := 7, number, args := #v[fd, 0x1000, UInt64.ofNat bytes.length, 0, 0, 0]
      result, timestampNs := 0 }

/-- The root reads a file and fails to open it again, connects to `127.0.0.1:80`
and is refused by `/s`. -/
def sampleVisits : List Notification :=
  [sampleRootCall nrOpen 0 [] 3, sampleRootCall nrRead 3 [] 5, sampleRootCall nrOpen 0 [] (-2),
    sampleRootCall nrConnect 4 ([2, 0, 0, 80, 127, 0, 0, 1] ++ List.replicate 8 0) 0,
    sampleRootCall nrConnect 5 ([1, 0] ++ lit "/s" ++ [0]) (-111)]

theorem legal_snoc_rootCall {past : List Notification}
    (legal : Transducer.Legal (CommandModeAdmits 7) past)
    (howner : (taskTree 7 past).owner 7 = some 7)
    (hpast : ∀ m ∈ past, asI64 m.timestampNs ≤ 0) (number : Int64) (fd : UInt64) (bytes : Bytes)
    (result : Int64) :
    Transducer.Legal (CommandModeAdmits 7) (past ++ [sampleRootCall number fd bytes result]) :=
  legal.snoc ⟨⟨7, howner, howner⟩, fun _ => rfl, rfl, hpast⟩

/-- What `show --command 1` prints of them. -/
def sampleVisitText : Bytes :=
  ["Processes", "  0", "", "Files", "  READ", "    /x (1 calls, 5 bytes)", "", "  WRITE",
    "    none", "", "Network", "  127.0.0.1:80 (1 attempts, 1 succeeded, 0 failed)", "",
    "Local IPC", "  unix:/s (1 attempts, 0 succeeded, 1 failed)", "", "Errors", "  /x",
    "    open -> ENOENT", "  unix:/s", "    connect -> ECONNREFUSED", ""].flatMap
      fun line => lit line ++ newline

theorem command_views_sample :
    ∃ σ es capsule, record 7 (lit "/") (some (lit "sh")) 0
        (sampleVisits ++ sampleOrphan ++ [.exited 8 1 0 3]) = .ok (σ, es) ∧
      emitAll (create sampleRun) es = .ok capsule ∧
      showSections capsule (some 1) = sampleVisitText ∧
      ViewsAgree es (finish capsule
        (collectionResult 7 (sampleVisits ++ sampleOrphan ++ [.exited 8 1 0 3]) 4)) := by
  obtain ⟨σ, es, hrun, htext⟩ : ∃ σ es,
      record 7 (lit "/") (some (lit "sh")) 0
        (sampleVisits ++ sampleOrphan ++ [.exited 8 1 0 3]) = .ok (σ, es) ∧
      (emitAll (create sampleRun) es).toOption.map (showSections · (some 1)) =
        some sampleVisitText := ⟨_, _, rfl, by decide +kernel⟩
  have hopen := legal_snoc_rootCall (Transducer.legal_nil _) rfl (by simp) nrOpen 0 [] 3
  have hread := legal_snoc_rootCall hopen rfl (by decide) nrRead 3 [] 5
  have hagain := legal_snoc_rootCall hread rfl (by decide) nrOpen 0 [] (-2)
  have hconnect := legal_snoc_rootCall hagain rfl (by decide) nrConnect 4
    ([2, 0, 0, 80, 127, 0, 0, 1] ++ List.replicate 8 0) 0
  have hrefused := legal_snoc_rootCall hconnect rfl (by decide) nrConnect 5
    ([1, 0] ++ lit "/s" ++ [0]) (-111)
  have hfork := hrefused.snoc (i := .created 7 8 ptraceEventFork 0 1)
    ⟨⟨7, rfl, rfl⟩, fun _ => rfl, rfl, by decide⟩
  have hroot := hfork.snoc (i := .exited 7 0 0 2) ⟨⟨7, rfl, rfl⟩, fun _ => rfl, rfl, by decide⟩
  have hchild := hroot.snoc (i := .exited 8 1 0 3)
    ⟨⟨8, rfl, rfl⟩, fun _ => rfl, rfl, by decide⟩
  obtain ⟨capsule, hstore, hiff⟩ := command_views_iff hchild rfl hrun sampleRun 4
  rw [hstore] at htext
  exact ⟨σ, es, capsule, hrun, hstore, Option.some.inj htext, hiff.mpr rfl⟩

end stored

end Whyrun
