import Whyrun.Storage.RepeatedRuns

/-!
`diff` on two recordings of one execution. Its summaries are maps and sets
under the names in the capsules, as SQLite returns them up to their first NUL;
names without one keep their rows apart, so that the order of the rows does
not matter and the summaries of the two recordings are the same.
-/

namespace Whyrun

open ByteText Relational ExecutionState CapsuleWriter

/-! ### The maps and sets of a summary -/

theorem columnText_of_no_nul {name : Bytes} (h : (0 : UInt8) ∉ name) : columnText name = name :=
  List.takeWhile_eq_self_iff.mpr fun b hb => by
    have hne : b ≠ 0 := fun hzero => h (hzero ▸ hb)
    simpa using hne

/-- Under names that are different and have no NUL, each row has its own
counts. -/
theorem lookup_assignCounts {rows : List (Bytes × Option Counts)}
    (hnames : ∀ row ∈ rows, (0 : UInt8) ∉ row.1) (hnodup : (rows.map Prod.fst).Nodup)
    (name : Bytes) (counts : Counts) :
    (assignCounts rows).lookup name = some counts ↔ (name, some counts) ∈ rows := by
  induction rows using List.reverseRecOn with
  | nil => simp [assignCounts]
  | append_singleton rows row ih =>
      obtain ⟨key, value⟩ := row
      rw [List.map_append, List.map_singleton, List.nodup_append_comm,
        List.singleton_append, List.nodup_cons] at hnodup
      obtain ⟨hfresh, hnodup⟩ := hnodup
      have hold := ih (fun row hrow => hnames row (by simp [hrow])) hnodup
      have hkey : columnText key = key := columnText_of_no_nul (hnames (key, value) (by simp))
      rw [assignCounts, List.foldl_append, ← assignCounts, List.foldl_cons, List.foldl_nil, hkey]
      cases value with
      | none => simp [hold]
      | some assigned =>
          simp only [Table.lookup_insert_iff, List.mem_append, List.mem_singleton,
            Prod.mk.injEq, Option.some.injEq]
          by_cases hname : name = key
          · subst hname
            have hnot : (name, some counts) ∉ rows := fun hmem =>
              hfresh (List.mem_map.mpr ⟨_, hmem, rfl⟩)
            simp [hnot, eq_comm]
          · simp [hname, hold]

/-- The map of a table, whatever the order in which its rows are read. -/
theorem lookup_assignCounts_table {ρ : Type} {t : Table Bytes ρ} {rows : List (Bytes × ρ)}
    (hrows : rows.Perm (orderedRows t)) (hnames : ∀ name ∈ t, (0 : UInt8) ∉ name)
    (f : ρ → Option Counts) (name : Bytes) :
    (assignCounts (rows.map fun row => (row.1, f row.2))).lookup name =
      (t.lookup name).bind f := by
  have hmem : ∀ row ∈ rows, t.lookup row.1 = some row.2 := fun row hrow =>
    mem_orderedRows.mp (hrows.mem_iff.mp hrow)
  have hkeys : ((rows.map fun row => (row.1, f row.2)).map Prod.fst).Nodup := by
    rw [List.map_map]
    refine (hrows.map Prod.fst).nodup_iff.mpr ?_
    exact List.pairwise_map.mpr (pairwise_key_orderedRows t)
  have hno_nul : ∀ row ∈ rows.map fun row => (row.1, f row.2), (0 : UInt8) ∉ row.1 := by
    intro row hrow
    obtain ⟨r, hr, rfl⟩ := List.mem_map.mp hrow
    exact hnames r.1 (AList.lookup_isSome.mp (by rw [hmem r hr]; rfl))
  ext counts
  rw [lookup_assignCounts hno_nul hkeys, Option.bind_eq_some_iff]
  constructor
  · intro hrow
    obtain ⟨⟨k, r⟩, hr, heq⟩ := List.mem_map.mp hrow
    obtain ⟨rfl, hcounts⟩ := Prod.mk.inj heq
    exact ⟨r, hmem _ hr, hcounts⟩
  · rintro ⟨r, hr, hcounts⟩
    exact List.mem_map.mpr ⟨(name, r), hrows.mem_iff.mpr (mem_orderedRows.mpr hr), by rw [hcounts]⟩

/-- The map of a list of names. -/
theorem lookup_assignCounts_names {names : List Bytes} (hnodup : names.Nodup)
    (hnames : ∀ name ∈ names, (0 : UInt8) ∉ name) (f : Bytes → Counts) (name : Bytes) :
    (assignCounts (names.map fun n => (n, some (f n)))).lookup name =
      if name ∈ names then some (f name) else none := by
  have hkeys : ((names.map fun n => (n, some (f n))).map Prod.fst).Nodup := by
    rw [List.map_map]
    exact (List.map_id names).symm ▸ hnodup
  have hno_nul : ∀ row ∈ names.map fun n => (n, some (f n)), (0 : UInt8) ∉ row.1 := by
    intro row hrow
    obtain ⟨n, hn, rfl⟩ := List.mem_map.mp hrow
    exact hnames n hn
  ext counts
  rw [lookup_assignCounts hno_nul hkeys, List.mem_map]
  split
  · rename_i hname
    constructor
    · rintro ⟨n, -, heq⟩
      obtain ⟨rfl, hcounts⟩ := Prod.mk.inj heq
      exact hcounts
    · exact fun hcounts => ⟨name, hname, by rw [hcounts]⟩
  · rename_i hname
    constructor
    · rintro ⟨n, hn, heq⟩
      obtain ⟨rfl, -⟩ := Prod.mk.inj heq
      exact absurd hn hname
    · exact fun h => by contradiction

/-- Sets with the same members have the same lookups. -/
theorem lookup_nameSet_eq {a b : NameSet} (h : ∀ name, name ∈ a ↔ name ∈ b) (name : Bytes) :
    a.lookup name = b.lookup name := by
  have hmem := h name
  rw [← AList.lookup_isSome, ← AList.lookup_isSome] at hmem
  cases ha : a.lookup name <;> cases hb : b.lookup name <;> simp_all

/-! ### Nothing has changed -/

/-- What `diff` prints when nothing differs. -/
def unchangedText (exitCode : ℤ) (session : Bool) : Bytes :=
  lit "Exit" ++ newline ++
    (lit "  unchanged (" ++ decimal exitCode ++ lit ")" ++ newline) ++ newline ++
    (if session then diffSection (lit "Commands") [] ++ newline else []) ++
    diffSection (lit "Files") [] ++ newline ++
    diffSection (lit "Network") [] ++ newline ++
    diffSection (lit "Local IPC") [] ++ newline ++
    diffSection (lit "Processes") []

/-- Two summaries with the same figures under every name. -/
structure SameSummary (a b : Summary) : Prop where
  exitCode : a.exitCode = b.exitCode
  session : a.session = b.session
  commands : ∀ name, a.commands.lookup name = b.commands.lookup name
  reads : ∀ name, a.reads.lookup name = b.reads.lookup name
  writes : ∀ name, a.writes.lookup name = b.writes.lookup name
  network : ∀ name, a.network.lookup name = b.network.lookup name
  localIpc : ∀ name, a.localIpc.lookup name = b.localIpc.lookup name
  executables : ∀ name, a.executables.lookup name = b.executables.lookup name

theorem diffText_of_same {a b : Summary} (h : SameSummary a b) :
    diffText a b = unchangedText a.exitCode a.session := by
  have hactivity : ∀ {before after : Table Bytes Counts} (label : Bytes) (network : Bool),
      (∀ name, before.lookup name = after.lookup name) →
      printActivityDiff label before after network = [] := by
    intro before after label network hsame
    rw [printActivityDiff_eq, changes_eq_nil_iff.mpr hsame, List.map_nil]
  have hnames : ∀ {before after : NameSet},
      (∀ name, before.lookup name = after.lookup name) → printSetDiff before after = [] := by
    intro before after hsame
    rw [printSetDiff_eq, changes_eq_nil_iff.mpr hsame, List.map_nil]
  rw [diffText, diffExit, if_pos h.exitCode, ← h.session, Bool.or_self, hnames h.commands,
    hnames h.executables, hactivity [] true h.network, hactivity [] true h.localIpc, fileDiffLines,
    hactivity _ false h.reads, hactivity _ false h.writes, unchangedText, List.append_nil]

/-! ### The summaries of the two recordings -/

section summaries

variable {run run' : RunMetadata} {es es' : List Event} {capsule capsule' : Capsule}
  {g : Pid → Pid}

theorem mem_distinctCommands {name : Bytes} :
    name ∈ distinctCommands capsule ↔
      ∃ k shown, (capsule.commands.lookup k).map CommandRow.shown = some shown ∧
        shown.1 = name := by
  rw [distinctCommands, mem_groups]
  constructor
  · rintro ⟨row, hrow, rfl⟩
    obtain ⟨⟨k, _⟩, hentry, rfl⟩ := List.mem_map.mp hrow
    exact ⟨k, _, by rw [AList.mem_lookup_iff.mpr hentry]; rfl, rfl⟩
  · rintro ⟨k, shown, hshown, rfl⟩
    obtain ⟨row, hlookup, rfl⟩ := Option.map_eq_some_iff.mp hshown
    exact ⟨row, List.mem_map.mpr ⟨⟨k, row⟩, AList.mem_lookup_iff.mp hlookup, rfl⟩, rfl⟩

theorem ProgramsOf.mem_distinctExecutables (h : ProgramsOf es capsule.processes) {name : Bytes} :
    name ∈ distinctExecutables capsule ↔
      name ≠ [] ∧ ∃ p, es.foldl (executableAfter p) none = some name := by
  rw [distinctExecutables, mem_groups]
  constructor
  · rintro ⟨row, hrow, rfl⟩
    obtain ⟨hmem, hname⟩ := List.mem_filter.mp hrow
    obtain ⟨⟨k, _⟩, hentry, rfl⟩ := List.mem_map.mp hmem
    have hlookup := AList.mem_lookup_iff.mpr hentry
    obtain ⟨p, rfl⟩ := h.keys k (AList.lookup_isSome.mp (Option.isSome_of_mem hlookup))
    refine ⟨by simpa using hname, p, ?_⟩
    rw [← h.programs, Option.mem_def.mp hlookup]
    rfl
  · rintro ⟨hname, p, hprogram⟩
    rw [← h.programs] at hprogram
    obtain ⟨row, hlookup, rfl⟩ := Option.map_eq_some_iff.mp hprogram
    refine ⟨row, List.mem_filter.mpr ⟨?_, by simpa using hname⟩, rfl⟩
    exact List.mem_map.mpr ⟨⟨p.toInt, row⟩, AList.mem_lookup_iff.mp hlookup, rfl⟩

/-- The names of a capsule are those of its outcomes. -/
theorem no_nul_of_rowsOf (hstore : emitAll (create run) es = .ok capsule)
    (hnames : ∀ e ∈ es, (0 : UInt8) ∉ e.resource) {type : EventType} {name : Bytes}
    (hrows : rowsOf capsule type name ≠ []) : (0 : UInt8) ∉ name := by
  obtain ⟨row, hrow⟩ := List.exists_mem_of_ne_nil _ hrows
  obtain ⟨hmem, hkept⟩ := List.mem_filter.mp hrow
  have hname : row.resource = name := by
    rw [Bool.and_eq_true] at hkept
    exact of_decide_eq_true hkept.2
  rw [events_recording hstore] at hmem
  obtain ⟨i, e, he, rfl⟩ := mem_eventRows hmem
  rw [← hname]
  exact hnames e (List.mem_of_getElem? he)

theorem no_nul_fileActivity (hstore : emitAll (create run) es = .ok capsule)
    (hnames : ∀ e ∈ es, (0 : UInt8) ∉ e.resource) {name : Bytes}
    (hmem : name ∈ capsule.fileActivity) : (0 : UInt8) ∉ name := by
  rw [← AList.lookup_isSome, lookup_fileActivity hstore] at hmem
  split at hmem
  · contradiction
  · rename_i hrows
    rcases not_and_or.mp hrows with hrows | hrows <;> exact no_nul_of_rowsOf hstore hnames hrows

theorem no_nul_networkActivity (hstore : emitAll (create run) es = .ok capsule)
    (hnames : ∀ e ∈ es, (0 : UInt8) ∉ e.resource) (herrno : ∀ e ∈ es, 0 ≤ e.errnoValue)
    {name : Bytes} (hmem : name ∈ capsule.networkActivity) : (0 : UInt8) ∉ name := by
  rw [← AList.lookup_isSome, lookup_networkActivity hstore herrno] at hmem
  split at hmem
  · contradiction
  · exact no_nul_of_rowsOf hstore hnames ‹_›

/-- The summary of a finished recording. -/
theorem loadSummary_recorded (hstore : emitAll (create run) es = .ok capsule)
    (result : CollectionResult) (rows : QueryRows (finish capsule result)) :
    ∃ a, loadSummary (finish capsule result) rows = .ok a ∧
      a.exitCode = result.exitCode.toInt ∧ a.session = decide (run.mode = .session) ∧
      a.commands = (if a.session then insertNames (distinctCommands capsule) else ∅) ∧
      a.reads = assignCounts (rows.files.map fun row => (row.1, readCounts row.2)) ∧
      a.writes = assignCounts (rows.files.map fun row => (row.1, writeCounts row.2)) ∧
      a.network = assignCounts (rows.network.map fun row => (row.1, some (networkCounts row.2))) ∧
      a.localIpc =
        assignCounts (rows.localIpc.map fun name => (name, some (localIpcCounts capsule name))) ∧
      a.executables = insertNames (distinctExecutables capsule) := by
  have hschema : validateSchema (some (finish capsule result).schemaVersion) = .ok 3 := by
    obtain ⟨_, _, _, _, rfl⟩ := emitAll_ok_iff.mp hstore
    rfl
  have hmode : (finish capsule result).run.mode = runModeName run.mode := by
    obtain ⟨_, _, _, _, rfl⟩ := emitAll_ok_iff.mp hstore
    rfl
  refine ⟨_, by rw [loadSummary, hschema]; rfl, rfl, ?_, rfl, rfl, rfl, rfl, rfl, rfl⟩
  dsimp only
  rw [hmode]
  cases run.mode <;> decide

/-- The maps and sets of two recordings that give the same account. -/
theorem sameSummary (hg : Function.Bijective g) (h : SameAccount g es es')
    (hes : ∀ e ∈ es, e.Storable) (hes' : ∀ e ∈ es', e.Storable)
    (hshape : ∀ e ∈ es, ForkShaped e) (hshape' : ∀ e ∈ es', ForkShaped e)
    (herrno : ∀ e ∈ es, 0 ≤ e.errnoValue) (herrno' : ∀ e ∈ es', 0 ≤ e.errnoValue)
    (hnames : ∀ e ∈ es, (0 : UInt8) ∉ e.resource)
    (hstore : emitAll (create run) es = .ok capsule)
    (hstore' : emitAll (create run') es' = .ok capsule') (hmode : run'.mode = run.mode)
    {result result' : CollectionResult} (hexit : result'.exitCode = result.exitCode)
    (rows : QueryRows (finish capsule result)) (rows' : QueryRows (finish capsule' result')) :
    ∃ a b, loadSummary (finish capsule result) rows = .ok a ∧
      loadSummary (finish capsule' result') rows' = .ok b ∧ SameSummary a b ∧
      a.exitCode = result.exitCode.toInt ∧ a.session = decide (run.mode = .session) := by
  obtain ⟨a, ha, hexit_a, hsession, hcommands, hreads, hwrites, hnetwork, hipc, hexecutables⟩ :=
    loadSummary_recorded hstore result rows
  obtain ⟨b, hb, hexit_b, hsession', hcommands', hreads', hwrites', hnetwork', hipc',
    hexecutables'⟩ := loadSummary_recorded hstore' result' rows'
  have hlog := sameLog_of_account h hstore hstore'
  have hfiles := hlog.lookup_fileActivity hstore hstore'
  have hconnects := hlog.lookup_networkActivity hstore hstore' herrno herrno'
  have hipcRows := hlog.ofType .localIpcConnect (by decide) none
  have hsame : a.session = b.session := by rw [hsession, hsession', hmode]
  have hno_nul : ∀ name ∈ capsule.fileActivity, (0 : UInt8) ∉ name :=
    fun name hmem => no_nul_fileActivity hstore hnames hmem
  have hno_nul' : ∀ name ∈ capsule'.fileActivity, (0 : UInt8) ∉ name := by
    intro name hmem
    rw [← AList.lookup_isSome, ← hfiles, AList.lookup_isSome] at hmem
    exact hno_nul name hmem
  have hno_nul_network : ∀ name ∈ capsule.networkActivity, (0 : UInt8) ∉ name :=
    fun name hmem => no_nul_networkActivity hstore hnames herrno hmem
  have hno_nul_network' : ∀ name ∈ capsule'.networkActivity, (0 : UInt8) ∉ name := by
    intro name hmem
    rw [← AList.lookup_isSome, ← Option.isSome_map (f := NetworkActivity.counts), ← hconnects,
      Option.isSome_map, AList.lookup_isSome] at hmem
    exact hno_nul_network name hmem
  refine ⟨a, b, ha, hb, ⟨?_, hsame, fun name => ?_, fun name => ?_, fun name => ?_,
    fun name => ?_, fun name => ?_, fun name => ?_⟩, hexit_a, hsession⟩
  · rw [hexit_a, hexit_b, hexit]
  · rw [hcommands, hcommands', ← hsame]
    split
    · refine lookup_nameSet_eq (fun n => ?_) name
      simp only [mem_insertNames, mem_distinctCommands, shown_lookup hes hstore,
        shown_lookup hes' hstore', h.commands]
    · rfl
  · rw [hreads, hreads', lookup_assignCounts_table rows.files_perm hno_nul,
      lookup_assignCounts_table rows'.files_perm hno_nul']
    exact congrArg (·.bind readCounts) (hfiles name)
  · rw [hwrites, hwrites', lookup_assignCounts_table rows.files_perm hno_nul,
      lookup_assignCounts_table rows'.files_perm hno_nul']
    exact congrArg (·.bind writeCounts) (hfiles name)
  · rw [hnetwork, hnetwork', lookup_assignCounts_table rows.network_perm hno_nul_network
      (fun row => some (networkCounts row)), lookup_assignCounts_table rows'.network_perm
      hno_nul_network' (fun row => some (networkCounts row))]
    have hcounts := congrArg (Option.map networkCounts) (hconnects name)
    rw [Option.map_map, Option.map_map] at hcounts
    show (capsule.networkActivity.lookup name).bind (some ∘ networkCounts) =
      (capsule'.networkActivity.lookup name).bind (some ∘ networkCounts)
    rw [← Option.map_eq_bind, ← Option.map_eq_bind]
    exact hcounts
  · have hnames_ipc : ∀ n ∈ groups EventRow.resource (rowsOfType capsule .localIpcConnect none),
        (0 : UInt8) ∉ n := fun n hn =>
      no_nul_of_rowsOf hstore hnames ((exists_rowsOfType_iff _ _ _).mp (mem_groups.mp hn))
    have hgroups := hipcRows.groups_resource
    have hcounts : localIpcCounts capsule name = localIpcCounts capsule' name := by
      have hown := hipcRows.own name
      have hsucceeded := hown.countRows (q := fun row => row.errnoValue = 0) fun _ => rfl
      have hfailed := hown.countRows (q := fun row => 0 < row.errnoValue) fun _ => rfl
      rw [localIpcCounts, localIpcCounts, hown.length, hsucceeded, hfailed]
    have hperm := rows.localIpc_perm
    have hperm' := rows'.localIpc_perm
    rw [hipc, hipc', lookup_assignCounts_names (hperm.nodup_iff.mpr (nodup_groups _ _))
      (fun n hn => hnames_ipc n (hperm.mem_iff.mp hn)), lookup_assignCounts_names
      (hperm'.nodup_iff.mpr (nodup_groups _ _))
      (fun n hn => hnames_ipc n (hgroups ▸ hperm'.mem_iff.mp hn)), hcounts]
    have hmem : name ∈ rows.localIpc ↔ name ∈ rows'.localIpc := by
      rw [hperm.mem_iff, hperm'.mem_iff]
      exact iff_of_eq (congrArg (name ∈ ·) hgroups)
    simp only [hmem]
  · rw [hexecutables, hexecutables']
    refine lookup_nameSet_eq (fun n => ?_) name
    have hprograms : ∀ program, (∃ p, es'.foldl (executableAfter p) none = some program) ↔
        ∃ p, es.foldl (executableAfter p) none = some program := by
      intro program
      rw [hg.surjective.exists]
      simp only [h.executables]
    simp only [mem_insertNames, (programsOf_emitAll hshape hstore).mem_distinctExecutables,
      (programsOf_emitAll hshape' hstore').mem_distinctExecutables, hprograms]

end summaries

/-! ### Runs -/

section runs

variable {root : Pid} {cwd : Bytes} {rootCommand : Option Bytes} {startNs : UInt64}
  {ns : List Notification} {σ : ExecutionState} {run run' : RunMetadata} {es es' : List Event}
  {capsule capsule' : Capsule}

theorem forkShaped_record (hrecord : record root cwd rootCommand startNs ns = .ok (σ, es)) :
    ∀ e ∈ es, ForkShaped e := by
  obtain ⟨out, hout, rfl⟩ := (record_ok_iff ..).mp hrecord
  intro e he htype
  rcases List.mem_append.mp he with he | he
  · rw [initialEvents_eq] at he
    obtain ⟨_, -, rfl⟩ := List.mem_map.mp he
    contradiction
  · obtain ⟨_, _, _, _, _, _, _, -, -, hstep, hmem⟩ := Transducer.exists_step_of_mem_run hout he
    obtain ⟨P, parentTid, child, ev, _, t, -, -, rfl⟩ := ((notify_effect hstep).origin hmem).2 htype
    exact ⟨P, parentTid, child, ev, t, rfl⟩

theorem forksSucceed_of_shape (hshape : ∀ e ∈ es, ForkShaped e)
    (hstore : emitAll (create run) es = .ok capsule) : ForksSucceed capsule := by
  intro row hrow htype
  rw [events_recording hstore] at hrow
  obtain ⟨i, e, he, rfl⟩ := mem_eventRows hrow
  obtain ⟨P, parentTid, child, ev, t, rfl⟩ :=
    hshape e (List.mem_of_getElem? he) (eventTypeName_inj.mp htype)
  rfl

/-- The commands that are started are among the outcomes. -/
theorem startedIds_perm {g : Pid → Pid} (h : SameAccount g es es') :
    (startedIds es).Perm (startedIds es') := by
  have houtcomes : ∀ l : List Event, startedIds (outcomes l) = startedIds l := by
    intro l
    rw [startedIds, outcomes, List.filterMap_map, List.filterMap_filter]
    refine List.filterMap_congr fun e _ => ?_
    by_cases hfork : e.type = .processFork
    · simp [hfork]
    · rw [if_pos (by simpa using hfork)]
      rfl
  have hperm := h.outcomes.filterMap fun e => if e.type = .commandStart then e.commandId else none
  rw [List.filterMap_map] at hperm
  rw [← houtcomes es, ← houtcomes es']
  exact hperm

/-- What `show` prints alike for two capsules; of the network lines the last
error is left out, which depends on who came last. -/
structure SameViews (capsule capsule' : Capsule) : Prop where
  commands : showCommands capsule = showCommands capsule'
  processes : ∀ f, showProcesses capsule f = showProcesses capsule' f
  files : ∀ f, showFiles capsule f = showFiles capsule' f
  network : ∀ f, (networkLines capsule f).map NetworkLine.counts =
    (networkLines capsule' f).map NetworkLine.counts
  localIpc : ∀ f, showLocalIpc capsule f = showLocalIpc capsule' f
  errors : ∀ f, showErrors capsule f = showErrors capsule' f

/-- A second recording of an execution is stored when the first one is, and
nothing has changed: whatever the pids, the times and the order in which
independent notifications come, `show` prints the same for the run and for
every command, and `diff` finds no difference, in whatever order the rows are
read. -/
theorem repeated_run_unchanged {x y : Told} (hsame : SameExecution cwd rootCommand x y)
    (hrecord : record x.root cwd rootCommand x.startNs x.reported = .ok (σ, es))
    (hstore : emitAll (create run) es = .ok capsule) (run' : RunMetadata) :
    ∃ τ es' capsule', record y.root cwd rootCommand y.startNs y.reported = .ok (τ, es') ∧
      emitAll (create run') es' = .ok capsule' ∧
      ∀ result result',
        SameViews (finish capsule result) (finish capsule' result') ∧
        ((∀ e ∈ es, (0 : UInt8) ∉ e.resource) → run'.mode = run.mode →
          result'.exitCode = result.exitCode →
          ∀ (rows : QueryRows (finish capsule result))
            (rows' : QueryRows (finish capsule' result')), diffCapsules rows rows' =
              .ok (unchangedText result.exitCode.toInt (run.mode = .session))) := by
  obtain ⟨g, hg, τ, es', hrecord', haccount⟩ := hsame.account hrecord
  have hes := storable_record hrecord
  have hes' := storable_record hrecord'
  have hshape := forkShaped_record hrecord
  have hshape' := forkShaped_record hrecord'
  have herrno := errno_nonneg_record hrecord
  have herrno' := errno_nonneg_record hrecord'
  obtain ⟨capsule', hstore'⟩ : ∃ capsule', emitAll (create run') es' = .ok capsule' := by
    obtain ⟨hnodup, hbounded⟩ := (emitAll_ok_iff_startedIds run hes).mp ⟨capsule, hstore⟩
    have hids := startedIds_perm haccount
    refine (emitAll_ok_iff_startedIds run' hes').mpr ⟨hids.nodup_iff.mp hnodup, fun id hid => ?_⟩
    exact hbounded id (hids.mem_iff.mpr hid)
  refine ⟨τ, es', capsule', hrecord', hstore', fun result result' => ⟨?_, ?_⟩⟩
  · have hlog := sameLog_of_account haccount hstore hstore'
    have hprocesses : ∀ f, processCount capsule f = processCount capsule' f := by
      intro f
      cases f with
      | none =>
          exact processCount_none_eq hg haccount (programsOf_emitAll hshape hstore)
            (programsOf_emitAll hshape' hstore')
      | some k => exact processCount_some_eq hg haccount hstore hstore' k
    have hcommands := showCommands_eq haccount hes hes' hstore hstore'
    have hfiles := hlog.showFiles hstore hstore'
    have hnetwork := hlog.networkLines hstore hstore' herrno herrno'
    have herrors := hlog.showErrors (forksSucceed_of_shape hshape hstore)
      (forksSucceed_of_shape hshape' hstore')
    -- `finish` writes the row of the run only
    exact
      { commands := hcommands
        processes := fun f => congrArg (fun count : ℕ => lit "Processes" ++ newline ++ lit "  " ++
          decimal count ++ newline ++ newline) (hprocesses f)
        files := hfiles
        network := hnetwork
        localIpc := hlog.showLocalIpc
        errors := herrors }
  · intro hnames hmode hexit rows rows'
    obtain ⟨a, b, ha, hb, hsummary, hexitCode, hsession⟩ := sameSummary hg haccount hes hes' hshape
      hshape' herrno herrno' hnames hstore hstore' hmode hexit rows rows'
    rw [diffCapsules, ha, hb, ← hexitCode, ← hsession, ← diffText_of_same hsummary]
    rfl

end runs

/-- The root forks a child that runs `/bin/ls`, and exits. -/
def sampleTold : Told :=
  ⟨7, 0, [.created 7 8 ptraceEventFork 0 1, .exec 8 ⟨lit "/", lit "/bin/ls"⟩ 2, .exited 7 0 0 3]⟩

/-- The root has another pid and exits first, and the clock stands still. -/
def sampleRetold : Told :=
  ⟨17, 5, [.created 17 8 ptraceEventFork 0 9, .exited 17 0 0 9,
    .exec 8 ⟨lit "/", lit "/bin/ls"⟩ 9]⟩

theorem sampleTold_same : SameExecution (lit "/") none sampleTold sampleRetold := by
  have hswap : SameExecution (lit "/") none
      ⟨7, 0, [.created 7 8 ptraceEventFork 0 1] ++
        .exec 8 ⟨lit "/", lit "/bin/ls"⟩ 2 :: .exited 7 0 0 3 :: []⟩
      ⟨7, 0, [.created 7 8 ptraceEventFork 0 1] ++
        .exited 7 0 0 3 :: .exec 8 ⟨lit "/", lit "/bin/ls"⟩ 2 :: []⟩ :=
    .swap rfl ⟨⟨_, rfl⟩, ⟨_, rfl⟩, by decide, fun _ h => Bool.noConfusion h,
      fun _ h => Bool.noConfusion h, fun _ _ => rfl⟩
  have hrelabel : SameExecution (lit "/") none _ ⟨Equiv.swap (7 : Pid) 17 7, 5, _⟩ :=
    .relabel (Equiv.swap (7 : Pid) 17).bijective (by decide) 0 5
      (.cons ⟨_, 9, .created 7 8 ptraceEventFork 0 1, rfl⟩
        (.cons ⟨_, 9, .exited 7 0 0 3, rfl⟩
          (.cons ⟨_, 9, .exec 8 ⟨lit "/", lit "/bin/ls"⟩ 2, rfl⟩ .nil)))
  exact hswap.trans hrelabel

theorem repeated_run_unchanged_sample :
    ∃ σ es capsule, record 7 (lit "/") none 0 sampleTold.reported = .ok (σ, es) ∧
      emitAll (create sampleRun) es = .ok capsule ∧
      ∃ τ es' capsule', record 17 (lit "/") none 5 sampleRetold.reported = .ok (τ, es') ∧
        emitAll (create sampleRun) es' = .ok capsule' ∧
        diffCapsules (sampleRows (finish capsule {})) (sampleRows (finish capsule' {})) =
          .ok (unchangedText (-1) true) := by
  obtain ⟨σ, es, capsule, hrecord, hstore, hnames⟩ : ∃ σ es capsule,
      record 7 (lit "/") none 0 sampleTold.reported = .ok (σ, es) ∧
        emitAll (create sampleRun) es = .ok capsule ∧ ∀ e ∈ es, (0 : UInt8) ∉ e.resource :=
    ⟨_, _, _, rfl, rfl, by decide⟩
  obtain ⟨τ, es', capsule', hrecord', hstore', hviews⟩ :=
    repeated_run_unchanged sampleTold_same hrecord hstore sampleRun
  exact ⟨σ, es, capsule, hrecord, hstore, τ, es', capsule', hrecord', hstore',
    (hviews {} {}).2 hnames rfl rfl _ _⟩

end Whyrun
