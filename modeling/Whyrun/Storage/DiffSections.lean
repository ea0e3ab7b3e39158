import Whyrun.Model.Diff
import Whyrun.Storage.CommandViews

/-!
The sections of `diff`. The lines of a section are the differences of two
tables, so that each name has at most one line and exchanging the capsules
exchanges the sides. A line for changed counts shows only some of them; that
a pair of those differs rests on what the writer keeps true of its counters.
-/

namespace Whyrun

open ByteText Relational ExecutionState CapsuleWriter

/-! ### The lines are the differences -/

/-- How a difference of counts is printed. -/
def activityLine (label : Bytes) (network : Bool) : Change Bytes Counts → Bytes
  | .removed name => removedLine label name
  | .added name => addedLine label name
  | .changed name counts found => changedLine label network name counts found

/-- How a difference of names is printed. -/
def nameLine : Change Bytes Unit → Bytes
  | .removed name => removedLine [] name
  | .added name => addedLine [] name
  | .changed _ _ _ => []

theorem printActivityDiff_eq (label : Bytes) (before after : Table Bytes Counts)
    (network : Bool) :
    printActivityDiff label before after network =
      (changes before after).map (activityLine label network) := by
  rw [changes, List.map_append, List.map_filterMap, List.map_filterMap, printActivityDiff]
  congr 1
  · apply List.filterMap_congr
    rintro ⟨name, counts⟩ -
    dsimp only [changeOfBefore]
    cases after.lookup name with
    | none => rfl
    | some found =>
        dsimp only
        split <;> rfl
  · apply List.filterMap_congr
    rintro ⟨name, counts⟩ -
    dsimp only [changeOfAfter]
    split <;> rfl

theorem printSetDiff_eq (before after : NameSet) :
    printSetDiff before after = (changes before after).map nameLine := by
  rw [changes, List.map_append, List.map_filterMap, List.map_filterMap, printSetDiff]
  congr 1
  · apply List.filterMap_congr
    rintro ⟨name, counts⟩ -
    dsimp only [changeOfBefore]
    by_cases h : name ∈ after
    · obtain ⟨found, hfound⟩ := Option.isSome_iff_exists.mp (AList.lookup_isSome.mpr h)
      rw [if_pos h, hfound]
      rfl
    · rw [if_neg h, AList.lookup_eq_none.mpr h]
      rfl
  · apply List.filterMap_congr
    rintro ⟨name, counts⟩ -
    dsimp only [changeOfAfter]
    split <;> rfl

/-! ### The counters of a capsule -/

/-- A capsule written from the events of a run of the execution state. -/
def WrittenFromRun (capsule : Capsule) : Prop :=
  ∃ run root cwd rootCommand startNs ns σ es written result,
    record root cwd rootCommand startNs ns = .ok (σ, es) ∧
    emitAll (create run) es = .ok written ∧ capsule = finish written result

/-- What a map holds was assigned by a row that is read under its name. -/
theorem assignCounts_spec {rows : List (Bytes × Option Counts)} {name : Bytes} {counts : Counts}
    (h : (assignCounts rows).lookup name = some counts) :
    ∃ row ∈ rows, columnText row.1 = name ∧ row.2 = some counts := by
  induction rows using List.reverseRecOn with
  | nil => simp [assignCounts] at h
  | append_singleton rows row ih =>
      rw [assignCounts, List.foldl_append, ← assignCounts, List.foldl_cons, List.foldl_nil] at h
      have hbefore (hlookup : (assignCounts rows).lookup name = some counts) :
          ∃ row' ∈ rows ++ [row], columnText row'.1 = name ∧ row'.2 = some counts := by
        obtain ⟨row', hrow', hcounts⟩ := ih hlookup
        exact ⟨row', by simp [hrow'], hcounts⟩
      split at h
      · exact hbefore h
      · rename_i assigned hassigned
        rw [Table.lookup_insert_iff] at h
        split at h
        · rename_i hname
          exact ⟨row, by simp, hname.symm, by rw [hassigned, h]⟩
        · exact hbefore h

/-- Every row with counts has its name in the map. -/
theorem columnText_mem_assignCounts {rows : List (Bytes × Option Counts)}
    {row : Bytes × Option Counts} (hrow : row ∈ rows) (hcounts : row.2.isSome = true) :
    columnText row.1 ∈ assignCounts rows := by
  induction rows using List.reverseRecOn with
  | nil => contradiction
  | append_singleton rows last ih =>
      rw [assignCounts, List.foldl_append, ← assignCounts, List.foldl_cons, List.foldl_nil]
      rcases List.mem_append.mp hrow with hrow | hrow
      · split
        · exact ih hrow
        · exact AList.mem_insert _ |>.mpr (.inr (ih hrow))
      · obtain rfl := List.mem_singleton.mp hrow
        obtain ⟨counts, hsome⟩ := Option.isSome_iff_exists.mp hcounts
        rw [hsome]
        exact AList.mem_insert _ |>.mpr (.inl rfl)

/-- A property of all assigned counts is one of the counts of the map. -/
theorem assignCounts_forall {ι : Type*} {rows : List ι} {f : ι → Bytes × Option Counts}
    {P : Counts → Prop} (h : ∀ i ∈ rows, ∀ counts, (f i).2 = some counts → P counts)
    (name : Bytes) (counts : Counts)
    (hlookup : (assignCounts (rows.map f)).lookup name = some counts) : P counts := by
  obtain ⟨row, hrow, -, hcounts⟩ := assignCounts_spec hlookup
  obtain ⟨i, hi, rfl⟩ := List.mem_map.mp hrow
  exact h i hi counts hcounts

theorem mem_insertNames {names : List Bytes} {name : Bytes} :
    name ∈ insertNames names ↔ ∃ n ∈ names, columnText n = name := by
  induction names using List.reverseRecOn with
  | nil => simp [insertNames]
  | append_singleton names n ih =>
      rw [insertNames, List.foldl_append, ← insertNames, List.foldl_cons, List.foldl_nil,
        AList.mem_insert, ih]
      constructor
      · rintro (rfl | ⟨m, hm, rfl⟩)
        · exact ⟨n, by simp, rfl⟩
        · exact ⟨m, by simp [hm], rfl⟩
      · rintro ⟨m, hm, rfl⟩
        rcases List.mem_append.mp hm with hm | hm
        · exact .inr ⟨m, hm, rfl⟩
        · exact .inl (by rw [List.mem_singleton.mp hm])

/-- The map has the counts that are given under the keys, each under the key as
it is read. -/
structure TakenFrom (given : Bytes → Counts → Prop) (map : Table Bytes Counts) : Prop where
  found : ∀ name counts, map.lookup name = some counts →
    ∃ key, columnText key = name ∧ given key counts
  every : ∀ key counts, given key counts → columnText key ∈ map

theorem takenFrom_assignCounts {ι : Type*} {rows : List ι} {f : ι → Bytes × Option Counts}
    {given : Bytes → Counts → Prop}
    (h : ∀ key counts, (∃ i ∈ rows, f i = (key, some counts)) ↔ given key counts) :
    TakenFrom given (assignCounts (rows.map f)) where
  found name counts hlookup := by
    obtain ⟨row, hrow, hname, hcounts⟩ := assignCounts_spec hlookup
    obtain ⟨i, hi, rfl⟩ := List.mem_map.mp hrow
    exact ⟨(f i).1, hname, (h _ _).mp ⟨i, hi, by rw [← hcounts]⟩⟩
  every key counts hgiven := by
    obtain ⟨i, hi, hrow⟩ := (h key counts).mpr hgiven
    have hmem := columnText_mem_assignCounts (List.mem_map.mpr ⟨i, hi, hrow⟩) rfl
    exact hmem

/-- What `load_summary` takes from the tables of a capsule. -/
structure Summarizes (capsule : Capsule) (a : Summary) : Prop where
  exitCode : a.exitCode = columnInteger capsule.run.exitCode
  session : a.session = true ↔ columnText capsule.run.mode = lit "session"
  reads : TakenFrom (fun path counts => ∃ row, capsule.fileActivity.lookup path = some row ∧
    0 < row.readCalls ∧ counts = { calls := row.readCalls, bytes := row.bytesRead }) a.reads
  writes : TakenFrom (fun path counts => ∃ row, capsule.fileActivity.lookup path = some row ∧
    0 < row.writeCalls ∧ counts = { calls := row.writeCalls, bytes := row.bytesWritten }) a.writes
  network : TakenFrom (fun endpoint counts => ∃ row,
    capsule.networkActivity.lookup endpoint = some row ∧
    counts = { calls := row.connectCount, successes := row.successCount
               failures := row.failureCount }) a.network
  localIpc : TakenFrom (fun resource counts =>
    (∃ row ∈ rowsOfType capsule .localIpcConnect none, row.resource = resource) ∧
    counts = localIpcCounts capsule resource) a.localIpc
  executables : ∀ name, name ∈ a.executables ↔ ∃ pid row,
    capsule.processes.lookup pid = some row ∧ row.executable ≠ [] ∧
      columnText row.executable = name
  commands : ∀ name, name ∈ a.commands ↔ a.session = true ∧ ∃ id row,
    capsule.commands.lookup id = some row ∧ columnText row.command = name

theorem fileCounts_eq_some_iff {calls bytes : ℤ} {counts : Counts} :
    fileCounts calls bytes = some counts ↔ 0 < calls ∧ counts = { calls, bytes } := by
  unfold fileCounts
  split
  · rename_i hcalls
    rw [Option.some.injEq]
    exact ⟨fun h => ⟨hcalls, h.symm⟩, fun h => h.2.symm⟩
  · rename_i hcalls
    exact ⟨fun h => by contradiction, fun h => absurd h.1 hcalls⟩

theorem mem_entries_iff {ρ : Type} {t : Table ℤ ρ} {row : ρ} :
    row ∈ t.entries.map (fun entry => entry.2) ↔ ∃ key, t.lookup key = some row := by
  rw [List.mem_map]
  constructor
  · rintro ⟨⟨key, _⟩, hentry, rfl⟩
    exact ⟨key, AList.mem_lookup_iff.mpr hentry⟩
  · rintro ⟨key, hlookup⟩
    exact ⟨⟨key, row⟩, AList.mem_lookup_iff.mp hlookup, rfl⟩

theorem mem_insertNames_executables {capsule : Capsule} {name : Bytes} :
    name ∈ insertNames (distinctExecutables capsule) ↔ ∃ pid row,
      capsule.processes.lookup pid = some row ∧ row.executable ≠ [] ∧
        columnText row.executable = name := by
  rw [mem_insertNames, distinctExecutables]
  constructor
  · rintro ⟨n, hn, rfl⟩
    obtain ⟨row, hrow, rfl⟩ := mem_groups.mp hn
    obtain ⟨hmem, hne⟩ := List.mem_filter.mp hrow
    obtain ⟨pid, hlookup⟩ := mem_entries_iff.mp hmem
    exact ⟨pid, row, hlookup, by simpa using hne, rfl⟩
  · rintro ⟨pid, row, hlookup, hne, rfl⟩
    refine ⟨row.executable, mem_groups.mpr ⟨row, List.mem_filter.mpr ⟨?_, ?_⟩, rfl⟩, rfl⟩
    · exact mem_entries_iff.mpr ⟨pid, hlookup⟩
    · simpa using hne

theorem mem_insertNames_commands {capsule : Capsule} {name : Bytes} :
    name ∈ insertNames (distinctCommands capsule) ↔ ∃ id row,
      capsule.commands.lookup id = some row ∧ columnText row.command = name := by
  rw [mem_insertNames, distinctCommands]
  constructor
  · rintro ⟨n, hn, rfl⟩
    obtain ⟨row, hrow, rfl⟩ := mem_groups.mp hn
    obtain ⟨id, hlookup⟩ := mem_entries_iff.mp hrow
    exact ⟨id, row, hlookup, rfl⟩
  · rintro ⟨id, row, hlookup, rfl⟩
    exact ⟨row.command, mem_groups.mpr ⟨row, mem_entries_iff.mpr ⟨id, hlookup⟩, rfl⟩, rfl⟩

/-- The rows of a table in the order in which a query returns them. -/
theorem exists_row_iff {ρ : Type} {t : Table Bytes ρ} {rows : List (Bytes × ρ)}
    (hrows : rows.Perm (orderedRows t)) {f : ρ → Option Counts} {key : Bytes} {counts : Counts} :
    (∃ row ∈ rows, (row.1, f row.2) = (key, some counts)) ↔
      ∃ row, t.lookup key = some row ∧ f row = some counts := by
  constructor
  · rintro ⟨⟨k, row⟩, hrow, heq⟩
    obtain ⟨rfl, hcounts⟩ := Prod.mk.inj heq
    exact ⟨row, mem_orderedRows.mp (hrows.mem_iff.mp hrow), hcounts⟩
  · rintro ⟨row, hlookup, hcounts⟩
    exact ⟨(key, row), hrows.mem_iff.mpr (mem_orderedRows.mpr hlookup), by rw [hcounts]⟩

/-- The counts of files are shown in full. -/
def FileCounted (counts : Counts) : Prop := counts.successes = 0 ∧ counts.failures = 0

/-- The successes are what the attempts and the failures leave. -/
def ConnectsCounted (counts : Counts) : Prop :=
  counts.bytes = 0 ∧ counts.calls = counts.successes + counts.failures

theorem fileCounted_of_fileCounts {calls bytes : ℤ} {counts : Counts}
    (h : fileCounts calls bytes = some counts) : FileCounted counts := by
  unfold fileCounts at h
  split at h
  · obtain rfl := Option.some.inj h
    exact ⟨rfl, rfl⟩
  · contradiction

/-- What the writer and the queries keep true of a summary. -/
structure Summary.Counted (a : Summary) : Prop where
  reads : ∀ name counts, a.reads.lookup name = some counts → FileCounted counts
  writes : ∀ name counts, a.writes.lookup name = some counts → FileCounted counts
  network : ∀ name counts, a.network.lookup name = some counts → ConnectsCounted counts
  localIpc : ∀ name counts, a.localIpc.lookup name = some counts → ConnectsCounted counts
  commands : a.session = false → a.commands = ∅

/-- The summary of a capsule of this version. -/
theorem loadSummary_spec {capsule : Capsule} (h : WrittenFromRun capsule)
    (rows : QueryRows capsule) :
    ∃ a, loadSummary capsule rows = .ok a ∧ Summarizes capsule a ∧ a.Counted := by
  obtain ⟨run, root, cwd, rootCommand, startNs, ns, σ, es, written, result, hrun, hstore, rfl⟩ := h
  have herrno := errno_nonneg_record hrun
  have hschema : validateSchema (some (finish written result).schemaVersion) = .ok 3 := by
    obtain ⟨_, _, _, _, rfl⟩ := emitAll_ok_iff.mp hstore
    rfl
  refine ⟨_, by rw [loadSummary, hschema]; rfl, ?_, ?_, ?_, ?_, ?_, ?_⟩
  · refine ⟨rfl, ?_, ?_, ?_, ?_, ?_, fun name => ?_, fun name => ?_⟩
    · simp
    · refine takenFrom_assignCounts fun path counts => ?_
      rw [exists_row_iff rows.files_perm]
      exact exists_congr fun row => and_congr_right fun _ => fileCounts_eq_some_iff
    · refine takenFrom_assignCounts fun path counts => ?_
      rw [exists_row_iff rows.files_perm]
      exact exists_congr fun row => and_congr_right fun _ => fileCounts_eq_some_iff
    · refine takenFrom_assignCounts fun endpoint counts => ?_
      rw [exists_row_iff rows.network_perm (f := fun row => some (networkCounts row))]
      refine exists_congr fun row => and_congr_right fun _ => ?_
      rw [Option.some.injEq]
      exact eq_comm
    · refine takenFrom_assignCounts fun resource counts => ?_
      constructor
      · rintro ⟨name, hname, heq⟩
        obtain ⟨rfl, hcounts⟩ := Prod.mk.inj heq
        exact ⟨mem_groups.mp (rows.localIpc_perm.mem_iff.mp hname), (Option.some.inj hcounts).symm⟩
      · rintro ⟨hname, rfl⟩
        exact ⟨resource, rows.localIpc_perm.mem_iff.mpr (mem_groups.mpr hname), rfl⟩
    · exact mem_insertNames_executables
    · dsimp only
      split
      · rename_i hsession
        rw [mem_insertNames_commands, hsession]
        exact (and_iff_right rfl).symm
      · rename_i hsession
        exact ⟨fun h => absurd h (AList.notMem_empty name), fun h => absurd h.1 hsession⟩
  · exact assignCounts_forall fun _ _ _ => fileCounted_of_fileCounts
  · exact assignCounts_forall fun _ _ _ => fileCounted_of_fileCounts
  · -- the counters of `network_activity`
    refine assignCounts_forall fun row hrow counts hcounts => ?_
    obtain rfl := Option.some.inj hcounts
    have hlookup := mem_orderedRows.mp (rows.network_perm.mem_iff.mp hrow)
    exact ⟨rfl, connectCount_eq hstore herrno hlookup⟩
  · -- the sums over the log: an error number is zero or positive
    refine assignCounts_forall fun resource _ counts hcounts => ?_
    obtain rfl := Option.some.inj hcounts
    refine ⟨rfl, length_eq_countRows fun r hr => ?_⟩
    exact errnoValue_nonneg hstore herrno
      (List.mem_of_mem_filter (List.mem_of_mem_filter hr))
  · intro hsession
    dsimp only at hsession ⊢
    rw [hsession]
    rfl

/-! ### The sections -/

/-- What a section prints for two tables and for the exchanged tables: the
differences as lines, one for each name at which the tables differ, and
`none` when there are none. -/
structure Reports {ρ : Type} [DecidableEq ρ] (line : Change Bytes ρ → Bytes)
    (before after : Table Bytes ρ) (lines exchanged : List Bytes) : Prop where
  printed : lines = (changes before after).map line
  once : ∀ name,
    ((changes before after).filter fun c => c.key = name) = (changeAt before after name).toList
  quiet : orNone (lit "  none" ++ newline) lines = lit "  none" ++ newline ↔
    ∀ name, before.lookup name = after.lookup name
  mirrored : ∃ back : List (Change Bytes ρ),
    back.Perm ((changes before after).map Change.mirror) ∧ exchanged = back.map line

/-- A line for changed counts shows a pair of figures that differ. -/
def ShowsDifference (network : Bool) (before after : Table Bytes Counts) : Prop :=
  ∀ name counts found, changeAt before after name = some (.changed name counts found) →
    (shownCounts network counts).1 ≠ (shownCounts network found).1 ∨
      (shownCounts network counts).2 ≠ (shownCounts network found).2

/-- A line of a section starts with its sign. -/
def Signed (line : Bytes) : Prop := ∃ sign rest, line = sign :: rest ∧ sign ≠ 32

/-- No line looks like the one for an empty section. -/
theorem orNone_eq_none_iff {lines : List Bytes} (h : ∀ line ∈ lines, Signed line) :
    orNone (lit "  none" ++ newline) lines = lit "  none" ++ newline ↔ lines = [] := by
  cases lines with
  | nil => simp [orNone]
  | cons line lines =>
      obtain ⟨sign, rest, rfl, hsign⟩ := h line (by simp)
      have hnone : lit "  none" ++ newline = 32 :: lit " none" ++ newline := by decide
      rw [orNone, if_neg (by simp), hnone]
      simp [hsign]

theorem signed_activityLine (label : Bytes) (network : Bool) (c : Change Bytes Counts) :
    Signed (activityLine label network c) := by
  cases c with
  | removed name => exact ⟨45, _, rfl, by decide⟩
  | added name => exact ⟨43, _, rfl, by decide⟩
  | changed name counts found => exact ⟨126, _, rfl, by decide⟩

theorem signed_nameLine {before after : NameSet} {c : Change Bytes Unit}
    (h : c ∈ changes before after) : Signed (nameLine c) := by
  cases c with
  | removed name => exact ⟨45, _, rfl, by decide⟩
  | added name => exact ⟨43, _, rfl, by decide⟩
  | changed name u v =>
      -- the members of a set have no counts that could differ
      exact absurd (Subsingleton.elim u v) (changeAt_eq_changed_iff.mp (mem_changes.mp h)).2.2

theorem reports {ρ : Type} [DecidableEq ρ] {line : Change Bytes ρ → Bytes}
    {before after : Table Bytes ρ} (hsigned : ∀ c ∈ changes before after, Signed (line c)) :
    Reports line before after ((changes before after).map line)
      ((changes after before).map line) where
  printed := rfl
  once := filter_key_changes before after
  quiet := by
    rw [orNone_eq_none_iff, List.map_eq_nil_iff, changes_eq_nil_iff]
    intro l hl
    obtain ⟨c, hc, rfl⟩ := List.mem_map.mp hl
    exact hsigned c hc
  mirrored := ⟨_, changes_comm before after, rfl⟩

theorem reports_activity (label : Bytes) (network : Bool) (before after : Table Bytes Counts) :
    Reports (activityLine label network) before after
      (printActivityDiff label before after network)
      (printActivityDiff label after before network) := by
  rw [printActivityDiff_eq, printActivityDiff_eq]
  exact reports fun c _ => signed_activityLine label network c

theorem reports_names (before after : NameSet) :
    Reports nameLine before after (printSetDiff before after) (printSetDiff after before) := by
  rw [printSetDiff_eq, printSetDiff_eq]
  exact reports fun c hc => signed_nameLine hc

/-- Reads and writes share the line of an empty section. -/
theorem fileDiffLines_quiet (a b : Summary) :
    orNone (lit "  none" ++ newline) (fileDiffLines a b) = lit "  none" ++ newline ↔
      (∀ name, a.reads.lookup name = b.reads.lookup name) ∧
        ∀ name, a.writes.lookup name = b.writes.lookup name := by
  rw [fileDiffLines, printActivityDiff_eq, printActivityDiff_eq, orNone_eq_none_iff,
    List.append_eq_nil_iff, List.map_eq_nil_iff, List.map_eq_nil_iff, changes_eq_nil_iff,
    changes_eq_nil_iff]
  intro l hl
  rcases List.mem_append.mp hl with hl | hl <;>
    obtain ⟨c, -, rfl⟩ := List.mem_map.mp hl <;> exact signed_activityLine _ _ c

/-- Where the shown figures determine the counts, different counts show a
difference. -/
theorem showsDifference {network : Bool} {P : Counts → Prop}
    (hshown : ∀ counts found, P counts → P found →
      shownCounts network counts = shownCounts network found → counts = found)
    {before after : Table Bytes Counts}
    (h : ∀ name counts, before.lookup name = some counts → P counts)
    (h' : ∀ name counts, after.lookup name = some counts → P counts) :
    ShowsDifference network before after := by
  intro name counts found hchange
  obtain ⟨hbefore, hafter, hne⟩ := changeAt_eq_changed_iff.mp hchange
  by_contra hsame
  push Not at hsame
  exact hne (hshown counts found (h name counts hbefore) (h' name found hafter)
    (Prod.ext hsame.1 hsame.2))

theorem FileCounted.eq_of_shown {counts found : Counts} (h : FileCounted counts)
    (h' : FileCounted found) (hshown : shownCounts false counts = shownCounts false found) :
    counts = found := by
  obtain ⟨calls, successes, failures, bytes⟩ := counts
  obtain ⟨calls', successes', failures', bytes'⟩ := found
  obtain ⟨rfl, rfl⟩ := h
  obtain ⟨rfl, rfl⟩ := h'
  obtain ⟨rfl, rfl⟩ := Prod.mk.inj hshown
  rfl

/-- Where attempts and failures agree, so do the successes. -/
theorem ConnectsCounted.eq_of_shown {counts found : Counts} (h : ConnectsCounted counts)
    (h' : ConnectsCounted found) (hshown : shownCounts true counts = shownCounts true found) :
    counts = found := by
  obtain ⟨calls, successes, failures, bytes⟩ := counts
  obtain ⟨calls', successes', failures', bytes'⟩ := found
  obtain ⟨rfl, hcalls⟩ := h
  obtain ⟨rfl, hcalls'⟩ := h'
  obtain ⟨rfl, rfl⟩ := Prod.mk.inj hshown
  dsimp only at hcalls hcalls'
  obtain rfl : successes = successes' := by omega
  rfl

/-- What `diff` says about two summaries. -/
structure DiffReport (a b : Summary) : Prop where
  commands : Reports nameLine a.commands b.commands (printSetDiff a.commands b.commands)
    (printSetDiff b.commands a.commands)
  /-- The section is left out only where there are no names. -/
  commandsLeftOut : (a.session || b.session) = false → a.commands = ∅ ∧ b.commands = ∅
  reads : Reports (activityLine (lit "READ ") false) a.reads b.reads
    (printActivityDiff (lit "READ ") a.reads b.reads)
    (printActivityDiff (lit "READ ") b.reads a.reads)
  writes : Reports (activityLine (lit "WRITE ") false) a.writes b.writes
    (printActivityDiff (lit "WRITE ") a.writes b.writes)
    (printActivityDiff (lit "WRITE ") b.writes a.writes)
  filesQuiet : orNone (lit "  none" ++ newline) (fileDiffLines a b) = lit "  none" ++ newline ↔
    (∀ name, a.reads.lookup name = b.reads.lookup name) ∧
      ∀ name, a.writes.lookup name = b.writes.lookup name
  network : Reports (activityLine [] true) a.network b.network
    (printActivityDiff [] a.network b.network true)
    (printActivityDiff [] b.network a.network true)
  localIpc : Reports (activityLine [] true) a.localIpc b.localIpc
    (printActivityDiff [] a.localIpc b.localIpc true)
    (printActivityDiff [] b.localIpc a.localIpc true)
  executables : Reports nameLine a.executables b.executables
    (printSetDiff a.executables b.executables) (printSetDiff b.executables a.executables)
  shown : ShowsDifference false a.reads b.reads ∧ ShowsDifference false a.writes b.writes ∧
    ShowsDifference true a.network b.network ∧ ShowsDifference true a.localIpc b.localIpc

theorem diffReport {a b : Summary} (ha : a.Counted) (hb : b.Counted) : DiffReport a b where
  commands := reports_names _ _
  commandsLeftOut h := by
    rw [Bool.or_eq_false_iff] at h
    exact ⟨ha.commands h.1, hb.commands h.2⟩
  reads := reports_activity _ _ _ _
  writes := reports_activity _ _ _ _
  filesQuiet := fileDiffLines_quiet a b
  network := reports_activity _ _ _ _
  localIpc := reports_activity _ _ _ _
  executables := reports_names _ _
  shown :=
    ⟨showsDifference (fun _ _ => FileCounted.eq_of_shown) ha.reads hb.reads,
      showsDifference (fun _ _ => FileCounted.eq_of_shown) ha.writes hb.writes,
      showsDifference (fun _ _ => ConnectsCounted.eq_of_shown) ha.network hb.network,
      showsDifference (fun _ _ => ConnectsCounted.eq_of_shown) ha.localIpc hb.localIpc⟩

/-! ### The printed text -/

/-- The text of a section: its heading, and its lines or `none`. -/
def sectionText (heading : Bytes) (lines : List Bytes) : Bytes :=
  heading ++ newline ++ if lines = [] then lit "  none" ++ newline else lines.flatten

/-- The text that reports the differences of two summaries. -/
def reportText (a b : Summary) : Bytes :=
  lit "Exit" ++ newline ++
    (if a.exitCode = b.exitCode then
      lit "  unchanged (" ++ decimal a.exitCode ++ lit ")" ++ newline
    else
      lit "- " ++ decimal a.exitCode ++ newline ++ lit "+ " ++ decimal b.exitCode ++ newline) ++
    newline ++
  (if a.session || b.session then
    sectionText (lit "Commands") ((changes a.commands b.commands).map nameLine) ++ newline
  else []) ++
  sectionText (lit "Files")
    ((changes a.reads b.reads).map (activityLine (lit "READ ") false) ++
      (changes a.writes b.writes).map (activityLine (lit "WRITE ") false)) ++ newline ++
  sectionText (lit "Network") ((changes a.network b.network).map (activityLine [] true)) ++
    newline ++
  sectionText (lit "Local IPC") ((changes a.localIpc b.localIpc).map (activityLine [] true)) ++
    newline ++
  sectionText (lit "Processes") ((changes a.executables b.executables).map nameLine)

theorem diffText_eq_reportText (a b : Summary) : diffText a b = reportText a b := by
  rw [diffText, fileDiffLines, printSetDiff_eq, printSetDiff_eq, printActivityDiff_eq,
    printActivityDiff_eq, printActivityDiff_eq, printActivityDiff_eq]
  rfl

theorem diffCapsules_of_loaded {before after : Capsule} {rows : QueryRows before}
    {rows' : QueryRows after} {a b : Summary} (ha : loadSummary before rows = .ok a)
    (hb : loadSummary after rows' = .ok b) : diffCapsules rows rows' = .ok (reportText a b) := by
  rw [diffCapsules, ha, hb, ← diffText_eq_reportText]
  rfl

/-- Diff is complete, quiet and mirrored, in whatever order the rows of the
two capsules are read: what is printed is the report of the differences of
their summaries. -/
theorem diff_complete {before after : Capsule} (hbefore : WrittenFromRun before)
    (hafter : WrittenFromRun after) (rows : QueryRows before) (rows' : QueryRows after) :
    ∃ a b, loadSummary before rows = .ok a ∧ loadSummary after rows' = .ok b ∧
      Summarizes before a ∧ Summarizes after b ∧
      diffCapsules rows rows' = .ok (reportText a b) ∧
      diffCapsules rows' rows = .ok (reportText b a) ∧ DiffReport a b := by
  obtain ⟨a, ha, hsummary, hcounted⟩ := loadSummary_spec hbefore rows
  obtain ⟨b, hb, hsummary', hcounted'⟩ := loadSummary_spec hafter rows'
  exact ⟨a, b, ha, hb, hsummary, hsummary', diffCapsules_of_loaded ha hb,
    diffCapsules_of_loaded hb ha, diffReport hcounted hcounted'⟩

/-- The rows of a capsule in the order of their keys. -/
def sampleRows (capsule : Capsule) : QueryRows capsule where
  files := orderedRows capsule.fileActivity
  network := orderedRows capsule.networkActivity
  localIpc := groups EventRow.resource (rowsOfType capsule .localIpcConnect none)
  files_perm := .refl _
  network_perm := .refl _
  localIpc_perm := .refl _

/-- A finished call of task 7. -/
def sampleReturn (number result : Int64) (fd : UInt64) : Notification :=
  .syscall sampleMemory
    { pid := 7, tid := 7, number, args := #v[fd, 0x1000, 64, 0, 0, 0], result, timestampNs := 2 }

/-- The shell becomes `/bin/cat`, opens `/x` and reads five bytes. -/
def sampleReader : List Notification :=
  [.exec 7 ⟨lit "/", lit "/bin/cat"⟩ 1, sampleReturn nrOpen 3 0, sampleReturn nrRead 5 3]

/-- It reads four bytes more and starts `/bin/ls`. -/
def sampleReaderAgain : List Notification :=
  sampleReader ++ [sampleReturn nrRead 4 3, .created 7 8 ptraceEventFork 0 3,
    .exec 8 ⟨lit "/", lit "/bin/ls"⟩ 4]

/-- What `diff` prints for the two runs. -/
def sampleDiff : Bytes :=
  ["Exit", "  unchanged (0)", "", "Commands", "  none", "", "Files",
    "~ READ /x (calls 1 -> 2, bytes 5 -> 9)", "", "Network", "  none", "", "Local IPC", "  none",
    "", "Processes", "+ /bin/ls"].flatMap fun line => lit line ++ newline

theorem diff_complete_sample :
    ∃ (before after : Capsule) (a b : Summary),
      loadSummary before (sampleRows before) = .ok a ∧
      loadSummary after (sampleRows after) = .ok b ∧ Summarizes before a ∧ Summarizes after b ∧
      diffCapsules (sampleRows before) (sampleRows after) = .ok sampleDiff ∧
      reportText a b = sampleDiff ∧ DiffReport a b := by
  obtain ⟨σ, es, capsule, hrun, hstore, σ', es', capsule', hrun', hstore', hprinted⟩ :
      ∃ σ es capsule, record 7 (lit "/") none 0 sampleReader = .ok (σ, es) ∧
        emitAll (create sampleRun) es = .ok capsule ∧
        ∃ σ' es' capsule', record 7 (lit "/") none 0 sampleReaderAgain = .ok (σ', es') ∧
          emitAll (create sampleRun) es' = .ok capsule' ∧
          diffCapsules (sampleRows (finish capsule { exitCode := 0 }))
            (sampleRows (finish capsule' { exitCode := 0 })) = .ok sampleDiff :=
    ⟨_, _, _, rfl, rfl, _, _, _, rfl, rfl, rfl⟩
  obtain ⟨a, b, ha, hb, hsummary, hsummary', htext, -, hreport⟩ := diff_complete
    ⟨_, _, _, _, _, _, _, _, _, _, hrun, hstore, rfl⟩
    ⟨_, _, _, _, _, _, _, _, _, _, hrun', hstore', rfl⟩ (sampleRows _) (sampleRows _)
  exact ⟨_, _, a, b, ha, hb, hsummary, hsummary', hprinted,
    Except.ok.inj (htext.symm.trans hprinted), hreport⟩

end Whyrun
