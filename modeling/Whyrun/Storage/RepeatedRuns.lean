import Whyrun.Execution.SameExecution
import Whyrun.Storage.CommandViews
import Whyrun.Storage.DiffSections
import Whyrun.Storage.ProcessTable

/-!
Two recordings of one execution, as `show` and `diff` present them. The
figures are sums over the rows of the log, so that the order in which the rows
were written, their times and their pids do not matter; the programs of a
process and the rows of a command follow the events of their own process.
-/

namespace Whyrun

open ByteText Relational ExecutionState CapsuleWriter

/-! ### Rows with the same outcomes -/

/-- The row without its number, its time, its task and its details. -/
def EventRow.outcome (row : EventRow) : EventRow :=
  { row with id := 0, timestampNs := 0, pid := 0, tid := 0, metadataJson := [] }

/-- Two lists of rows hold the same outcomes. -/
def SameRows (rows rows' : List EventRow) : Prop :=
  (rows.map EventRow.outcome).Perm (rows'.map EventRow.outcome)

namespace SameRows

variable {rows rows' : List EventRow}

theorem filter (h : SameRows rows rows') {q : EventRow → Bool} (hq : ∀ row, q row.outcome = q row) :
    SameRows (rows.filter q) (rows'.filter q) := by
  have hfilter : ∀ rs : List EventRow,
      (rs.filter q).map EventRow.outcome = (rs.map EventRow.outcome).filter q := by
    intro rs
    rw [List.filter_map]
    exact congrArg _ (List.filter_congr fun row _ => (hq row).symm)
  rw [SameRows, hfilter, hfilter]
  exact List.Perm.filter q h

theorem map {α : Type*} (h : SameRows rows rows') {g : EventRow → α}
    (hg : ∀ row, g row.outcome = g row) : (rows.map g).Perm (rows'.map g) := by
  have hmap : ∀ rs : List EventRow, (rs.map EventRow.outcome).map g = rs.map g := by
    intro rs
    rw [List.map_map]
    exact List.map_congr_left fun row _ => hg row
  rw [← hmap rows, ← hmap rows']
  exact List.Perm.map g h

theorem length (h : SameRows rows rows') : rows.length = rows'.length := by
  simpa using List.Perm.length_eq h

theorem own (h : SameRows rows rows') (resource : Bytes) :
    SameRows (rows.filter fun row => row.resource = resource)
      (rows'.filter fun row => row.resource = resource) :=
  h.filter fun _ => rfl

theorem countRows (h : SameRows rows rows') {q : EventRow → Bool}
    (hq : ∀ row, q row.outcome = q row) : countRows rows q = countRows rows' q := by
  rw [Whyrun.countRows, Whyrun.countRows, (h.filter hq).length]

theorem positiveBytes (h : SameRows rows rows') : positiveBytes rows = positiveBytes rows' :=
  (h.map fun _ => rfl).sum_eq

theorem nil_iff (h : SameRows rows rows') : rows = [] ↔ rows' = [] := by
  rw [← List.length_eq_zero_iff, h.length, List.length_eq_zero_iff]

theorem groups_resource (h : SameRows rows rows') :
    groups EventRow.resource rows = groups EventRow.resource rows' :=
  groups_perm (h.map fun _ => rfl)

theorem groupedFileLines (h : SameRows rows rows') :
    groupedFileLines rows = groupedFileLines rows' := by
  rw [Whyrun.groupedFileLines, Whyrun.groupedFileLines, h.groups_resource]
  refine List.map_congr_left fun path _ => ?_
  rw [groupedFileLine, groupedFileLine, (h.own path).length, (h.own path).positiveBytes]

theorem printLocalIpcLine (h : SameRows rows rows') (resource : Bytes) :
    printLocalIpcLine rows resource = printLocalIpcLine rows' resource := by
  have hown := h.own resource
  have hsucceeded := hown.countRows (q := fun row => row.errnoValue = 0) fun _ => rfl
  have hfailed := hown.countRows (q := fun row => 0 < row.errnoValue) fun _ => rfl
  rw [Whyrun.printLocalIpcLine, Whyrun.printLocalIpcLine, hown.length, hsucceeded, hfailed]

theorem printErrorLine (h : SameRows rows rows') (key : ErrorKey) :
    printErrorLine rows key = printErrorLine rows' key := by
  have hown := h.filter (q := fun row => errorKey row = key) fun _ => rfl
  rw [Whyrun.printErrorLine, Whyrun.printErrorLine, hown.length]

end SameRows

/-- The line of an endpoint without its last error. -/
def NetworkLine.counts (line : NetworkLine) : NetworkLine := { line with lastErrno := 0 }

theorem SameRows.groupedNetworkLines {rows rows' : List EventRow} (h : SameRows rows rows') :
    (groupedNetworkLines rows).map NetworkLine.counts =
      (groupedNetworkLines rows').map NetworkLine.counts := by
  rw [Whyrun.groupedNetworkLines, Whyrun.groupedNetworkLines, h.groups_resource, List.map_map,
    List.map_map]
  refine List.map_congr_left fun endpoint _ => ?_
  have hown := h.own endpoint
  have hsucceeded := hown.countRows (q := fun row => row.errnoValue = 0) fun _ => rfl
  have hfailed := hown.countRows (q := fun row => 0 < row.errnoValue) fun _ => rfl
  simp only [Function.comp_apply, groupedNetworkLine, NetworkLine.counts, hown.length, hsucceeded,
    hfailed]

/-! ### The order of the errors -/

instance : Std.Total fun a b : ErrorKey => a ≤ b where
  total a b := by
    obtain hlt | heq | hgt := Std.lt_trichotomy a.resource b.resource
    · exact .inl (.inl hlt)
    · obtain hlt' | heq' | hgt' := Std.lt_trichotomy a.type b.type
      · exact .inl (.inr ⟨heq, .inl hlt'⟩)
      · obtain hle | hge := le_total a.errnoValue b.errnoValue
        · exact .inl (.inr ⟨heq, .inr ⟨heq', hle⟩⟩)
        · exact .inr (.inr ⟨heq.symm, .inr ⟨heq'.symm, hge⟩⟩)
      · exact .inr (.inr ⟨heq.symm, .inl hgt'⟩)
    · exact .inr (.inl hgt)

instance : IsTrans ErrorKey fun a b => a ≤ b where
  trans a b c := by
    rintro (hab | ⟨hab, hab'⟩) (hbc | ⟨hbc, hbc'⟩)
    · exact .inl (List.lt_trans hab hbc)
    · exact .inl (hbc ▸ hab)
    · exact .inl (hab ▸ hbc)
    · refine .inr ⟨hab.trans hbc, ?_⟩
      rcases hab', hbc' with ⟨htype | ⟨htype, herrno⟩, htype' | ⟨htype', herrno'⟩⟩
      · exact .inl (List.lt_trans htype htype')
      · exact .inl (htype' ▸ htype)
      · exact .inl (htype ▸ htype')
      · exact .inr ⟨htype.trans htype', herrno.trans herrno'⟩

instance : Std.Antisymm fun a b : ErrorKey => a ≤ b where
  antisymm a b := by
    rintro (hab | ⟨hab, hab'⟩) (hba | ⟨hba, hba'⟩)
    · exact absurd (List.lt_trans hab hba) (List.lt_irrefl a.resource)
    · rw [hba] at hab
      exact absurd hab (List.lt_irrefl a.resource)
    · rw [hab] at hba
      exact absurd hba (List.lt_irrefl b.resource)
    · obtain ⟨resource, type, errnoValue⟩ := a
      obtain ⟨resource', type', errnoValue'⟩ := b
      obtain rfl : resource = resource' := hab
      rcases hab' with htype | ⟨htype, herrno⟩ <;> rcases hba' with htype' | ⟨htype', herrno'⟩
      · exact absurd (List.lt_trans htype htype') (List.lt_irrefl type)
      · obtain rfl : type' = type := htype'
        exact absurd htype (List.lt_irrefl _)
      · obtain rfl : type = type' := htype
        exact absurd htype' (List.lt_irrefl _)
      · obtain rfl : type = type' := htype
        rw [show errnoValue = errnoValue' from le_antisymm herrno herrno']

/-! ### The logs -/

/-- The rows of the log that do not name another process. -/
def outcomeRows (capsule : Capsule) : List EventRow :=
  capsule.events.filter fun row => row.type ≠ eventTypeName .processFork

/-- The logs hold the same outcomes. -/
def SameLog (capsule capsule' : Capsule) : Prop :=
  SameRows (outcomeRows capsule) (outcomeRows capsule')

section logs

variable {run run' : RunMetadata} {es es' : List Event} {capsule capsule' : Capsule}

theorem sameLog_of_account {g : Pid → Pid} (h : SameAccount g es es')
    (hstore : emitAll (create run) es = .ok capsule)
    (hstore' : emitAll (create run') es' = .ok capsule') : SameLog capsule capsule' := by
  have hkept : ∀ (i : ℕ) (e : Event), decide ((eventRow i e).type ≠ eventTypeName .processFork) =
      decide (e.type ≠ .processFork) := fun i e => decide_eq_decide.mpr (not_congr eventTypeName_inj)
  have hrows : (outcomeRows capsule).map EventRow.outcome =
      ((outcomes es).map (Event.under g)).map fun e => (eventRow 0 e).outcome := by
    rw [outcomeRows, events_recording hstore, outcomes, List.map_map, List.map_map]
    exact map_filter_eventRows hkept (fun _ _ => rfl) 0 es
  have hrows' : (outcomeRows capsule').map EventRow.outcome =
      (outcomes es').map fun e => (eventRow 0 e).outcome := by
    rw [outcomeRows, events_recording hstore', outcomes, List.map_map]
    exact map_filter_eventRows hkept (fun _ _ => rfl) 0 es'
  rw [SameLog, SameRows, hrows, hrows']
  exact h.outcomes.map _

theorem rowsOfType_eq_filter {type : EventType} (htype : type ≠ .processFork) (f : CommandFilter) :
    rowsOfType capsule type f = (outcomeRows capsule).filter fun row =>
      row.type = eventTypeName type && inCommand f row := by
  rw [outcomeRows, List.filter_filter, rowsOfType]
  refine List.filter_congr fun row _ => ?_
  by_cases hrow : row.type = eventTypeName type
  · simp [hrow, htype]
  · simp [hrow]

theorem SameLog.ofType (h : SameLog capsule capsule') (type : EventType)
    (htype : type ≠ .processFork) (f : CommandFilter) :
    SameRows (rowsOfType capsule type f) (rowsOfType capsule' type f) := by
  rw [rowsOfType_eq_filter htype, rowsOfType_eq_filter htype]
  exact h.filter fun _ => rfl

theorem SameLog.rowsOf (h : SameLog capsule capsule') (type : EventType)
    (htype : type ≠ .processFork) (resource : Bytes) :
    SameRows (rowsOf capsule type resource) (rowsOf capsule' type resource) := by
  rw [← filter_rowsOfType, ← filter_rowsOfType]
  exact (h.ofType type htype none).own resource

/-! ### The sections of `show` -/

theorem SameLog.showFiles (h : SameLog capsule capsule')
    (hstore : emitAll (create run) es = .ok capsule)
    (hstore' : emitAll (create run') es' = .ok capsule') (f : CommandFilter) :
    showFiles capsule f = showFiles capsule' f := by
  have hgroups : ∀ read, groupedFileLines (rowsOfType capsule (transferType read) f) =
      groupedFileLines (rowsOfType capsule' (transferType read) f) := by
    intro read
    refine (h.ofType _ ?_ f).groupedFileLines
    cases read <;> simp [transferType]
  have hlines : ∀ read, fileLines capsule f read = fileLines capsule' f read := by
    intro read
    cases f with
    | none => rw [fileLines_none hstore, fileLines_none hstore', hgroups]
    | some k => exact hgroups read
  simp only [Whyrun.showFiles, hlines]

theorem SameLog.showLocalIpc (h : SameLog capsule capsule') (f : CommandFilter) :
    showLocalIpc capsule f = showLocalIpc capsule' f := by
  have hrows := h.ofType .localIpcConnect (by decide) f
  have hline : printLocalIpcLine (rowsOfType capsule .localIpcConnect f) =
      printLocalIpcLine (rowsOfType capsule' .localIpcConnect f) :=
    funext hrows.printLocalIpcLine
  simp only [Whyrun.showLocalIpc, hrows.groups_resource, hline]

theorem SameLog.lookup_fileActivity (h : SameLog capsule capsule')
    (hstore : emitAll (create run) es = .ok capsule)
    (hstore' : emitAll (create run') es' = .ok capsule') (path : Bytes) :
    capsule.fileActivity.lookup path = capsule'.fileActivity.lookup path := by
  have hreads := h.rowsOf .fileRead (by decide) path
  have hwrites := h.rowsOf .fileWrite (by decide) path
  rw [Whyrun.lookup_fileActivity hstore, Whyrun.lookup_fileActivity hstore', hreads.length,
    hwrites.length, hreads.positiveBytes, hwrites.positiveBytes]
  simp only [hreads.nil_iff, hwrites.nil_iff]

/-- The row of an endpoint without its last error. -/
def NetworkActivity.counts (row : NetworkActivity) : NetworkActivity := { row with lastErrno := 0 }

theorem SameLog.lookup_networkActivity (h : SameLog capsule capsule')
    (hstore : emitAll (create run) es = .ok capsule)
    (hstore' : emitAll (create run') es' = .ok capsule') (herrno : ∀ e ∈ es, 0 ≤ e.errnoValue)
    (herrno' : ∀ e ∈ es', 0 ≤ e.errnoValue) (endpoint : Bytes) :
    (capsule.networkActivity.lookup endpoint).map NetworkActivity.counts =
      (capsule'.networkActivity.lookup endpoint).map NetworkActivity.counts := by
  have hrows := h.rowsOf .networkConnect (by decide) endpoint
  have hsucceeded := hrows.countRows (q := fun row => row.errnoValue = 0) fun _ => rfl
  have hfailed := hrows.countRows (q := fun row => 0 < row.errnoValue) fun _ => rfl
  rw [Whyrun.lookup_networkActivity hstore herrno, Whyrun.lookup_networkActivity hstore' herrno']
  simp only [hrows.nil_iff]
  split
  · rfl
  · simp only [Option.map_some, NetworkActivity.counts, hrows.length, hsucceeded, hfailed]

theorem SameLog.networkLines (h : SameLog capsule capsule')
    (hstore : emitAll (create run) es = .ok capsule)
    (hstore' : emitAll (create run') es' = .ok capsule') (herrno : ∀ e ∈ es, 0 ≤ e.errnoValue)
    (herrno' : ∀ e ∈ es', 0 ≤ e.errnoValue) (f : CommandFilter) :
    (networkLines capsule f).map NetworkLine.counts =
      (networkLines capsule' f).map NetworkLine.counts := by
  cases f with
  | none =>
      have hrows := orderedRows_map_eq
        (h.lookup_networkActivity hstore hstore' herrno herrno')
      show ((orderedRows _).map _).map _ = ((orderedRows _).map _).map _
      have hlines := congrArg (List.map activityNetworkLine) hrows
      rw [List.map_map, List.map_map] at hlines ⊢
      exact hlines
  | some k => exact (h.ofType .networkConnect (by decide) (some k)).groupedNetworkLines

/-- A log whose fork rows show no error. -/
def ForksSucceed (capsule : Capsule) : Prop :=
  ∀ row ∈ capsule.events, row.type = eventTypeName .processFork → row.errnoValue = 0

theorem SameLog.showErrors (h : SameLog capsule capsule') (hforks : ForksSucceed capsule)
    (hforks' : ForksSucceed capsule') (f : CommandFilter) :
    showErrors capsule f = showErrors capsule' f := by
  have hrows : ∀ {capsule : Capsule}, ForksSucceed capsule →
      (capsule.events.filter fun row => 0 < row.errnoValue && inCommand f row) =
        (outcomeRows capsule).filter fun row => 0 < row.errnoValue && inCommand f row := by
    intro capsule hforks
    rw [outcomeRows, List.filter_filter]
    refine List.filter_congr fun row hrow => ?_
    by_cases hfork : row.type = eventTypeName .processFork
    · simp [hforks row hrow hfork]
    · simp [hfork]
  have hsame := h.filter (q := fun row => 0 < row.errnoValue && inCommand f row) fun _ => rfl
  rw [← hrows hforks, ← hrows hforks'] at hsame
  have hgroups := groups_perm (hsame.map (g := errorKey) fun _ => rfl)
  have hline := funext hsame.printErrorLine
  simp only [Whyrun.showErrors, hgroups, hline]

end logs

/-! ### Processes -/

section processes

variable {run run' : RunMetadata} {es es' : List Event} {capsule capsule' : Capsule}

/-- The rows of the table are those of pids, with the programs that the events
tell. -/
structure ProgramsOf (es : List Event) (processes : Table ℤ ProcessRow) : Prop where
  keys : ∀ k ∈ processes, ∃ p : Pid, p.toInt = k
  programs : ∀ p : Pid, (processes.lookup p.toInt).map ProcessRow.executable =
    es.foldl (executableAfter p) none

/-- A fork event as the recorder emits it. -/
def ForkShaped (e : Event) : Prop :=
  e.type = .processFork → ∃ P parentTid child ev t, e = forkEvent P parentTid child ev t

/-- A statement that writes the row of one pid. -/
theorem ProgramsOf.update {processes processes' : Table ℤ ProcessRow} {e : Event} {q : Pid}
    (h : ProgramsOf es processes)
    (hkeys : ∀ k ∈ processes', k = q.toInt ∨ k ∈ processes)
    (hother : ∀ k, k ≠ q.toInt → processes'.lookup k = processes.lookup k)
    (hat : (processes'.lookup q.toInt).map ProcessRow.executable =
      executableAfter q ((processes.lookup q.toInt).map ProcessRow.executable) e)
    (hidle : ∀ p, p ≠ q → Traces.Idle (executableAfter p) e) : ProgramsOf (es ++ [e]) processes' where
  keys k hk := by
    rcases hkeys k hk with rfl | hk
    · exact ⟨q, rfl⟩
    · exact h.keys k hk
  programs p := by
    rw [List.foldl_append, ← h.programs, List.foldl_cons, List.foldl_nil]
    by_cases hp : p = q
    · rw [hp, hat]
    · rw [hother p.toInt fun hint => hp (Int32.toInt_inj.mp hint), hidle p hp]

theorem ProgramsOf.snoc {processes processes' : Table ℤ ProcessRow} {e : Event}
    (h : ProgramsOf es processes) (hshape : ForkShaped e)
    (hstep : processesAfter processes e = .ok processes') : ProgramsOf (es ++ [e]) processes' := by
  have hquiet (hfork : e.type ≠ .processFork) (hexec : e.type ≠ .processExec)
      (hsame : ∀ k, (processes'.lookup k).map ProcessRow.executable =
        (processes.lookup k).map ProcessRow.executable) : ProgramsOf (es ++ [e]) processes' := by
    have hidle : ∀ p, Traces.Idle (executableAfter p) e := fun p x => by
      rw [executableAfter, if_neg fun hboth => hfork hboth.1, if_neg fun hboth => hexec hboth.1]
    refine ⟨fun k hk => h.keys k ?_, fun p => ?_⟩
    · rwa [← AList.lookup_isSome, ← Option.isSome_map, ← hsame, Option.isSome_map,
        AList.lookup_isSome]
    · rw [List.foldl_append, hsame, h.programs]
      exact (hidle p _).symm
  cases htype : e.type with
  | processFork =>
      obtain ⟨P, parentTid, child, ev, t, rfl⟩ := hshape htype
      rw [processesAfter_fork, Except.ok.injEq] at hstep
      subst hstep
      refine h.update (q := child) (fun k hk => ?_) (fun k hk => ?_) ?_ fun p hp x => ?_
      · rw [← AList.lookup_isSome, Table.lookup_insertOrIgnore] at hk
        split at hk
        · exact .inl ‹_›
        · exact .inr (AList.lookup_isSome.mp hk)
      · rw [Table.lookup_insertOrIgnore, if_neg hk]
      · rw [Table.lookup_insertOrIgnore, if_pos rfl]
        have hexecutable : metadataValue (forkEvent P parentTid child ev t) (lit "executable")
            (lit "<unknown>") = P.executable := rfl
        rw [executableAfter, hexecutable, if_pos ⟨htype, Int32.toInt32_toInt64 child⟩]
        cases processes.lookup child.toInt <;> rfl
      · simp [executableAfter, forkEvent, Ne.symm hp]
  | processExec =>
      obtain ⟨ppid, -, hrow⟩ := Transducer.bind_ok_iff.mp
        (show processExec processes e = .ok processes' by rwa [processesAfter, htype] at hstep)
      obtain rfl := Except.ok.inj hrow
      refine h.update (q := e.pid) (fun k hk => ?_) (fun k hk => ?_) ?_ fun p hp x => ?_
      · rw [← AList.lookup_isSome, Table.lookup_upsert] at hk
        split at hk
        · exact .inl ‹_›
        · exact .inr (AList.lookup_isSome.mp hk)
      · rw [Table.lookup_upsert, if_neg hk]
      · rw [Table.lookup_upsert, if_pos rfl]
        cases processes.lookup e.pid.toInt <;> simp [executableAfter, htype]
      · simp [executableAfter, htype, Ne.symm hp]
  | processExit =>
      refine hquiet (by simp [htype]) (by simp [htype]) fun k => ?_
      obtain ⟨code, -, hrest⟩ := Transducer.bind_ok_iff.mp
        (show processExit processes e = .ok processes' by rwa [processesAfter, htype] at hstep)
      obtain ⟨signal, -, hrow⟩ := Transducer.bind_ok_iff.mp hrest
      obtain rfl := Except.ok.inj hrow
      rw [Table.lookup_modify]
      split
      · rename_i hk
        rw [hk, Option.map_map]
        rfl
      · rfl
  | commandStart | commandEnd | fileOpen | fileRead | fileWrite | networkConnect
    | localIpcConnect =>
      rw [processesAfter, htype, Except.ok.injEq] at hstep
      subst hstep
      exact hquiet (by simp [htype]) (by simp [htype]) fun _ => rfl

theorem programsOf_emitAll (hshape : ∀ e ∈ es, ForkShaped e)
    (hstore : emitAll (create run) es = .ok capsule) : ProgramsOf es capsule.processes := by
  refine Transducer.foldlM_induction
    (motive := fun past processes => (∀ e ∈ past, ForkShaped e) → ProgramsOf past processes)
    ?_ ?_ (processes_emitAll hstore) hshape
  · exact fun _ => ⟨fun k hk => absurd hk (AList.notMem_empty k), fun _ => rfl⟩
  · intro past processes e processes' ih hstep hpast
    exact (ih fun e' he' => hpast e' (by simp [he'])).snoc (hpast e (by simp)) hstep

/-- The pids of the table. -/
theorem ProgramsOf.pids {processes : Table ℤ ProcessRow} (h : ProgramsOf es processes) :
    ∃ pids : List Pid, processes.keys = pids.map Int32.toInt ∧ pids.Nodup ∧
      ∀ p, p ∈ pids ↔ es.foldl (executableAfter p) none ≠ none := by
  have hkeys : (processes.keys.map Int32.ofInt).map Int32.toInt = processes.keys := by
    rw [List.map_map]
    refine (List.map_congr_left fun k hk => ?_).trans (List.map_id _)
    obtain ⟨p, rfl⟩ := h.keys k (AList.mem_keys.mpr hk)
    rw [Function.comp_apply, Int32.ofInt_toInt]
    rfl
  have hinj : Function.Injective Int32.toInt := fun p q => Int32.toInt_inj.mp
  refine ⟨processes.keys.map Int32.ofInt, hkeys.symm, ?_, fun p => ?_⟩
  · apply List.Nodup.of_map Int32.toInt
    rw [hkeys]
    exact processes.nodupKeys
  · rw [← List.mem_map_of_injective hinj, hkeys, ← AList.mem_keys, ← AList.lookup_isSome,
      ← h.programs, Ne, Option.map_eq_none_iff]
    exact Option.isSome_iff_ne_none

variable {g : Pid → Pid}

theorem processCount_none_eq (hg : Function.Bijective g) (h : SameAccount g es es')
    (hprograms : ProgramsOf es capsule.processes)
    (hprograms' : ProgramsOf es' capsule'.processes) :
    processCount capsule none = processCount capsule' none := by
  obtain ⟨pids, hkeys, hnodup, hmem⟩ := hprograms.pids
  obtain ⟨pids', hkeys', hnodup', hmem'⟩ := hprograms'.pids
  have hperm : pids'.Perm (pids.map g) := by
    refine (List.perm_ext_iff_of_nodup hnodup' (hnodup.map hg.injective)).mpr fun q => ?_
    obtain ⟨p, rfl⟩ := hg.surjective q
    rw [hmem', h.executables, List.mem_map_of_injective hg.injective, hmem]
  show capsule.processes.keys.length = capsule'.processes.keys.length
  rw [hkeys, hkeys', List.length_map, List.length_map, hperm.length_eq, List.length_map]

/-- The pids of the processes that a command's exec events are about. -/
theorem processCount_some_eq (hg : Function.Bijective g) (h : SameAccount g es es')
    (hstore : emitAll (create run) es = .ok capsule)
    (hstore' : emitAll (create run') es' = .ok capsule') (k : ℤ) :
    processCount capsule (some k) = processCount capsule' (some k) := by
  let kept := fun e : Event => e.type = .processExec && keptBy (some k) e.commandId
  have hpids : ∀ l : List Event, ((outcomes l).filter kept).map Event.pid =
      (l.filter kept).map Event.pid := by
    intro l
    rw [outcomes, List.filter_map, List.filter_filter, List.map_map]
    refine congrArg (List.map _) (List.filter_congr fun e _ => ?_)
    show (kept e && decide (e.type ≠ .processFork)) = kept e
    by_cases hexec : e.type = .processExec <;> simp [kept, hexec]
  have hperm : (((es.filter kept).map Event.pid).map g).Perm ((es'.filter kept).map Event.pid) := by
    have hkept := (h.outcomes.filter kept).map Event.pid
    rw [hpids, List.filter_map, List.map_map] at hkept
    rw [← hpids, List.map_map]
    exact hkept
  have hcount : ∀ {run : RunMetadata} {es : List Event} {capsule : Capsule},
      emitAll (create run) es = .ok capsule →
      processCount capsule (some k) = ((es.filter kept).map Event.pid).dedup.length := by
    intro run es capsule hstore
    have hinj : Function.Injective Int32.toInt := fun p q => Int32.toInt_inj.mp
    have hrows := map_rowsOfType hstore .processExec (some k) (g := EventRow.pid)
      (h := Int32.toInt ∘ Event.pid) fun _ _ => rfl
    show ((rowsOfType capsule .processExec (some k)).map EventRow.pid).dedup.length = _
    rw [hrows, ← List.map_map, List.dedup_map_of_injective hinj, List.length_map]
  rw [hcount hstore, hcount hstore', ← hperm.dedup.length_eq,
    List.dedup_map_of_injective hg.injective, List.length_map]

end processes

/-! ### Commands -/

section commands

variable {run run' : RunMetadata} {es es' : List Event} {capsule capsule' : Capsule}

/-- What the list of commands shows of a row. -/
def CommandRow.shown (row : CommandRow) : Bytes × Option ℤ := (row.command, row.exitCode)

theorem shown_rowAfter (k : ℤ) (row : Option CommandRow) (e : Event) :
    (rowAfter k row e).map CommandRow.shown = commandAfter k (row.map CommandRow.shown) e := by
  rw [rowAfter, commandAfter]
  split
  · split
    · rfl
    · split
      · rw [Option.map_map, Option.map_map]
        rfl
      · rfl
  · rfl

theorem shown_lookup (hes : ∀ e ∈ es, e.Storable) (hstore : emitAll (create run) es = .ok capsule)
    (k : ℤ) :
    (capsule.commands.lookup k).map CommandRow.shown = es.foldl (commandAfter k) none := by
  have hfold : ∀ (l : List Event) (row : Option CommandRow),
      (l.foldl (rowAfter k) row).map CommandRow.shown =
        l.foldl (commandAfter k) (row.map CommandRow.shown) := by
    intro l
    induction l with
    | nil => exact fun _ => rfl
    | cons e l ih => exact fun row => by rw [List.foldl_cons, List.foldl_cons, ih, shown_rowAfter]
  rw [lookup_commands hes (commands_emitAll hstore), hfold]
  rfl

/-- The list of commands is in the order of their ids. -/
theorem commandsBySequence_eq_orderedRows
    (hsequence : ∀ k row, capsule.commands.lookup k = some row → row.sequence = k) :
    commandsBySequence capsule = (orderedRows capsule.commands).map Prod.snd := by
  let stored := capsule.commands.entries.map fun entry => (entry.1, entry.2)
  have hnodup : (orderedRows capsule.commands).Nodup :=
    (pairwise_key_orderedRows _).imp fun hne heq => hne (congrArg Prod.fst heq)
  have hstored : stored.Nodup := by
    apply List.Nodup.of_map Prod.fst
    rw [List.map_map]
    exact capsule.commands.nodupKeys
  have hperm : stored.Perm (orderedRows capsule.commands) := by
    refine (List.perm_ext_iff_of_nodup hstored hnodup).mpr fun row => ?_
    obtain ⟨k, row⟩ := row
    rw [mem_orderedRows, ← Option.mem_def, AList.mem_lookup_iff, List.mem_map]
    constructor
    · rintro ⟨entry, hentry, hrow⟩
      obtain ⟨rfl, rfl⟩ := Prod.mk.inj hrow
      exact hentry
    · exact fun hentry => ⟨_, hentry, rfl⟩
  have hrows : (capsule.commands.entries.map fun entry => entry.2).Perm
      ((orderedRows capsule.commands).map Prod.snd) := by
    have hsnd := hperm.map Prod.snd
    rwa [List.map_map] at hsnd
  have hkey : ∀ row ∈ orderedRows capsule.commands, row.2.sequence = row.1 :=
    fun row hrow => hsequence row.1 row.2 (mem_orderedRows.mp hrow)
  have hordered : ((orderedRows capsule.commands).map Prod.snd).Pairwise
      fun a b => a.sequence ≤ b.sequence := by
    have hkeys : (orderedRows capsule.commands).Pairwise fun a b => a.1 ≤ b.1 := by
      refine List.Pairwise.filterMap _ (fun k k' hle row hrow row' hrow' => ?_)
        (pairwise_ordered capsule.commands.keys)
      obtain ⟨r, -, rfl⟩ := Option.map_eq_some_iff.mp hrow
      obtain ⟨r', -, rfl⟩ := Option.map_eq_some_iff.mp hrow'
      exact hle
    refine List.pairwise_map.mpr (hkeys.imp_of_mem fun ha hb hle => ?_)
    rwa [hkey _ ha, hkey _ hb]
  have hsorted : (commandsBySequence capsule).Pairwise fun a b => a.sequence ≤ b.sequence := by
    have htotal : Std.Total fun a b : CommandRow => a.sequence ≤ b.sequence :=
      ⟨fun a b => le_total a.sequence b.sequence⟩
    have htrans : IsTrans CommandRow fun a b => a.sequence ≤ b.sequence :=
      ⟨fun a b c hab hbc => le_trans hab hbc⟩
    exact List.pairwise_insertionSort _ _
  refine List.Perm.eq_of_pairwise (fun a b ha hb hab hba => ?_) hsorted hordered
    ((List.perm_insertionSort _ _).trans hrows)
  -- two rows with one number are the row of one key
  have hmem : a ∈ (orderedRows capsule.commands).map Prod.snd :=
    (((List.perm_insertionSort _ _).trans hrows).mem_iff).mp ha
  obtain ⟨⟨k, _⟩, hrow, rfl⟩ := List.mem_map.mp hmem
  obtain ⟨⟨k', _⟩, hrow', rfl⟩ := List.mem_map.mp hb
  obtain rfl : k = k' :=
    (hkey _ hrow).symm.trans ((le_antisymm hab hba).trans (hkey _ hrow'))
  exact Option.some.inj ((mem_orderedRows.mp hrow).symm.trans (mem_orderedRows.mp hrow'))

theorem showCommands_eq {g : Pid → Pid} (h : SameAccount g es es')
    (hes : ∀ e ∈ es, e.Storable) (hes' : ∀ e ∈ es', e.Storable)
    (hstore : emitAll (create run) es = .ok capsule)
    (hstore' : emitAll (create run') es' = .ok capsule') :
    showCommands capsule = showCommands capsule' := by
  have hsequence := (commandTable_fold hes (commands_emitAll hstore)).sequence
  have hsequence' := (commandTable_fold hes' (commands_emitAll hstore')).sequence
  have hshown : (orderedRows capsule.commands).map (fun row => (row.1, row.2.shown)) =
      (orderedRows capsule'.commands).map fun row => (row.1, row.2.shown) :=
    orderedRows_map_eq fun k => by
      rw [shown_lookup hes hstore, shown_lookup hes' hstore', h.commands]
  let line := fun row : ℤ × Bytes × Option ℤ => printCommandLine
    { sequence := row.1, shellPid := 0, command := row.2.1, cwd := [], startNs := 0
      exitCode := row.2.2 }
  have hlines : ∀ {capsule : Capsule},
      (∀ k row, capsule.commands.lookup k = some row → row.sequence = k) →
      (commandsBySequence capsule).map printCommandLine =
        ((orderedRows capsule.commands).map fun row => (row.1, row.2.shown)).map line := by
    intro capsule hsequence
    rw [commandsBySequence_eq_orderedRows hsequence, List.map_map, List.map_map]
    refine List.map_congr_left fun row hrow => ?_
    show printCommandLine row.2 = line (row.1, row.2.shown)
    rw [← hsequence row.1 row.2 (mem_orderedRows.mp hrow)]
    rfl
  rw [showCommands, showCommands, hlines hsequence, hlines hsequence', hshown]

end commands

end Whyrun
