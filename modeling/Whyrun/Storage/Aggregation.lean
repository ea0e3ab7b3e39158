import Whyrun.Model.Show
import Whyrun.Storage.Writer

/-!
The activity tables against the event log. The tables are kept up to date
row by row while recording; `show` re-computes the same figures from the
log for one command. Both are sums over the same rows, and the rows of the
commands, with the rows of no command, are a partition of the log.
-/

namespace Whyrun

open ByteText Relational CapsuleWriter

/-! ### Rows and events -/

/-- A query on the log selects the rows of the events that it selects. -/
theorem map_filter_eventRows {α : Type*} {p : EventRow → Bool} {q : Event → Bool}
    {g : EventRow → α} {h : Event → α} (hp : ∀ i e, p (eventRow i e) = q e)
    (hg : ∀ i e, g (eventRow i e) = h e) (count : ℕ) (es : List Event) :
    ((eventRows count es).filter p).map g = (es.filter q).map h := by
  induction es generalizing count with
  | nil => rfl
  | cons e es ih =>
      rw [eventRows_cons, List.filter_cons, List.filter_cons, hp]
      split <;> simp [hg, ih]

/-- The rows of the log with a type and a resource. -/
def rowsOf (capsule : Capsule) (type : EventType) (resource : Bytes) : List EventRow :=
  capsule.events.filter fun row => row.type = eventTypeName type && row.resource = resource

/-- The events with a type and a resource. -/
def eventsOf (es : List Event) (type : EventType) (resource : Bytes) : List Event :=
  es.filter fun e => e.type = type && e.resource = resource

theorem map_rowsOf {α : Type*} {run : RunMetadata} {capsule : Capsule} {es : List Event}
    (hrun : emitAll (create run) es = .ok capsule) (type : EventType) (resource : Bytes)
    {g : EventRow → α} {h : Event → α} (hg : ∀ i e, g (eventRow i e) = h e) :
    (rowsOf capsule type resource).map g = (eventsOf es type resource).map h := by
  rw [rowsOf, events_recording hrun, eventsOf]
  exact map_filter_eventRows
    (fun i e => congrArg₂ and (decide_eq_decide.mpr eventTypeName_inj) rfl) hg 0 es

theorem length_rowsOf {run : RunMetadata} {capsule : Capsule} {es : List Event}
    (hrun : emitAll (create run) es = .ok capsule) (type : EventType) (resource : Bytes) :
    (rowsOf capsule type resource).length = (eventsOf es type resource).length := by
  simpa using congrArg List.length
    (map_rowsOf (g := fun _ => ()) (h := fun _ => ()) hrun type resource fun _ _ => rfl)

/-- The filter of a view, on the command of an event. -/
def keptBy (f : CommandFilter) (id : Option UInt64) : Bool :=
  match f with
  | none => true
  | some c => id.map asI64 = some c

theorem inCommand_eventRow (f : CommandFilter) (i : ℕ) (e : Event) :
    inCommand f (eventRow i e) = keptBy f e.commandId := by
  cases f <;> rfl

/-- The rows of a query are those of the events that it is about. -/
theorem map_rowsOfType {α : Type*} {run : RunMetadata} {capsule : Capsule} {es : List Event}
    (hrun : emitAll (create run) es = .ok capsule) (type : EventType) (f : CommandFilter)
    {g : EventRow → α} {h : Event → α} (hg : ∀ i e, g (eventRow i e) = h e) :
    (rowsOfType capsule type f).map g =
      (es.filter fun e => e.type = type && keptBy f e.commandId).map h := by
  rw [rowsOfType, events_recording hrun]
  refine map_filter_eventRows (fun i e => ?_) hg 0 es
  exact congrArg₂ and (decide_eq_decide.mpr eventTypeName_inj) (inCommand_eventRow f i e)

/-! ### The file table -/

/-- The positive results of a list of transfers. -/
def transferred (es : List Event) : ℤ := (es.map fun e => max 0 e.result.toInt).sum

theorem positiveBytes_eq_of_map {rows : List EventRow} {es : List Event}
    (h : rows.map EventRow.result = es.map fun e => e.result.toInt) :
    positiveBytes rows = transferred es := by
  have hrows : positiveBytes rows = ((rows.map EventRow.result).map (max 0)).sum := by
    rw [positiveBytes, List.map_map]
    congr 1
    refine List.map_congr_left fun row _ => ?_
    simp only [Function.comp_apply]
    split <;> omega
  rw [hrows, h, List.map_map, transferred]
  rfl

/-- The columns of a path after its transfers. -/
theorem foldl_addFile (es : List Event) :
    es.foldl (fun row e => addFile (fileIncrement e) row) {} =
      { readCalls := (es.filter fun e => e.type = .fileRead).length
        writeCalls := (es.filter fun e => ¬ e.type = .fileRead).length
        bytesRead := transferred (es.filter fun e => e.type = .fileRead)
        bytesWritten := transferred (es.filter fun e => ¬ e.type = .fileRead) } := by
  induction es using List.reverseRecOn with
  | nil => rfl
  | append_singleton es e ih =>
      rw [List.foldl_append, ih]
      by_cases h : e.type = .fileRead <;>
        simp [addFile, fileIncrement, transferred, h]

theorem foldl_filesAfter (es : List Event) :
    es.foldl filesAfter ∅ = Table.upserts Event.resource fileIncrement
      (fun e => addFile (fileIncrement e))
      (es.filter fun e => e.type = .fileRead || e.type = .fileWrite) ∅ := by
  rw [Table.upserts, List.foldl_filter]
  congr 1
  funext files e
  simp only [filesAfter, Bool.or_eq_true, decide_eq_true_eq]
  rfl

theorem fileIncrement_eq (e : Event) : fileIncrement e = addFile (fileIncrement e) {} := by
  simp [addFile]

/-- The row of a path holds the figures of its transfers. -/
theorem lookup_foldl_filesAfter (es : List Event) (path : Bytes) :
    (es.foldl filesAfter ∅).lookup path =
      if eventsOf es .fileRead path = [] ∧ eventsOf es .fileWrite path = [] then none
      else some
        { readCalls := (eventsOf es .fileRead path).length
          writeCalls := (eventsOf es .fileWrite path).length
          bytesRead := transferred (eventsOf es .fileRead path)
          bytesWritten := transferred (eventsOf es .fileWrite path) } := by
  -- the transfers of the path, and which of them are reads
  have hown : ((es.filter fun e => e.type = .fileRead || e.type = .fileWrite).filter
      fun e => e.resource = path) = [] ↔
        eventsOf es .fileRead path = [] ∧ eventsOf es .fileWrite path = [] := by
    simp only [eventsOf, List.filter_eq_nil_iff, List.mem_filter, Bool.or_eq_true,
      decide_eq_true_eq, Bool.and_eq_true, not_and]
    exact ⟨fun h => ⟨fun e he ht => h e ⟨he, .inl ht⟩, fun e he ht => h e ⟨he, .inr ht⟩⟩,
      fun h e he => he.2.elim (h.1 e he.1) (h.2 e he.1)⟩
  have hreads : (((es.filter fun e => e.type = .fileRead || e.type = .fileWrite).filter
      fun e => e.resource = path).filter fun e => e.type = .fileRead) =
        eventsOf es .fileRead path := by
    simp only [eventsOf, List.filter_filter]
    refine List.filter_congr fun e _ => ?_
    by_cases h : e.type = .fileRead <;> simp [h]
  have hwrites : (((es.filter fun e => e.type = .fileRead || e.type = .fileWrite).filter
      fun e => e.resource = path).filter fun e => ¬ e.type = .fileRead) =
        eventsOf es .fileWrite path := by
    simp only [eventsOf, List.filter_filter]
    refine List.filter_congr fun e _ => ?_
    by_cases h : e.type = .fileWrite
    · simp [h]
    · by_cases h' : e.type = .fileRead <;> simp [h, h']
  rw [foldl_filesAfter, Table.lookup_upserts_empty _ _ _ fileIncrement_eq, foldl_addFile, hreads,
    hwrites]
  simp only [hown]

/-- `file_activity` holds the figures of the log. -/
theorem lookup_fileActivity {run : RunMetadata} {capsule : Capsule} {es : List Event}
    (hrun : emitAll (create run) es = .ok capsule) (path : Bytes) :
    capsule.fileActivity.lookup path =
      if rowsOf capsule .fileRead path = [] ∧ rowsOf capsule .fileWrite path = [] then none
      else some
        { readCalls := (rowsOf capsule .fileRead path).length
          writeCalls := (rowsOf capsule .fileWrite path).length
          bytesRead := positiveBytes (rowsOf capsule .fileRead path)
          bytesWritten := positiveBytes (rowsOf capsule .fileWrite path) } := by
  have htable : capsule.fileActivity = es.foldl filesAfter ∅ := fileActivity_emitAll hrun
  have hbytes : ∀ type, positiveBytes (rowsOf capsule type path) =
      transferred (eventsOf es type path) := fun type =>
    positiveBytes_eq_of_map (map_rowsOf hrun type path fun _ _ => rfl)
  have hempty : ∀ type, rowsOf capsule type path = [] ↔ eventsOf es type path = [] := by
    intro type
    rw [← List.length_eq_zero_iff, length_rowsOf hrun, List.length_eq_zero_iff]
  rw [htable, lookup_foldl_filesAfter]
  simp only [hempty, hbytes, length_rowsOf hrun]

/-! ### The network table -/

theorem foldl_addConnect (es : List Event) :
    es.foldl (fun row e => addConnect (connectIncrement e) row) {} =
      { connectCount := es.length
        successCount := (es.filter fun e => e.errnoValue = 0).length
        failureCount := (es.filter fun e => ¬ e.errnoValue = 0).length
        lastErrno := (es.getLast?.map fun e => e.errnoValue.toInt).getD 0 } := by
  induction es using List.reverseRecOn with
  | nil => rfl
  | append_singleton es e ih =>
      rw [List.foldl_append, ih]
      by_cases h : e.errnoValue = 0 <;> simp [addConnect, connectIncrement, h]

theorem foldl_networkAfter (es : List Event) :
    es.foldl networkAfter ∅ =
      Table.upserts Event.resource connectIncrement (fun e => addConnect (connectIncrement e))
        (es.filter fun e => e.type = .networkConnect) ∅ := by
  rw [Table.upserts, List.foldl_filter]
  congr 1
  funext network e
  simp only [networkAfter, decide_eq_true_eq]
  rfl

theorem connectIncrement_eq (e : Event) :
    connectIncrement e = addConnect (connectIncrement e) {} := by
  simp [addConnect, connectIncrement]

theorem countRows_eq_of_map {rows : List EventRow} {es : List Event} {p : ℤ → Bool}
    {q : Event → Bool} (h : rows.map EventRow.errnoValue = es.map fun e => e.errnoValue.toInt)
    (hpq : ∀ e ∈ es, p e.errnoValue.toInt = q e) :
    countRows rows (fun row => p row.errnoValue) = (es.filter q).length := by
  have hrows : (rows.filter fun row => p row.errnoValue).length =
      ((rows.map EventRow.errnoValue).filter p).length := by
    rw [List.filter_map, List.length_map]
    rfl
  rw [countRows, hrows, h, List.filter_map, List.length_map]
  congr 2
  exact List.filter_congr fun e he => hpq e he

/-- The row of an endpoint holds the figures of its connects. -/
theorem lookup_foldl_networkAfter (es : List Event) (endpoint : Bytes) :
    (es.foldl networkAfter ∅).lookup endpoint =
      if eventsOf es .networkConnect endpoint = [] then none
      else some
        { connectCount := (eventsOf es .networkConnect endpoint).length
          successCount :=
            ((eventsOf es .networkConnect endpoint).filter fun e => e.errnoValue = 0).length
          failureCount :=
            ((eventsOf es .networkConnect endpoint).filter fun e => ¬ e.errnoValue = 0).length
          lastErrno := ((eventsOf es .networkConnect endpoint).getLast?.map
            fun e => e.errnoValue.toInt).getD 0 } := by
  have hown : ((es.filter fun e => e.type = .networkConnect).filter
      fun e => e.resource = endpoint) = eventsOf es .networkConnect endpoint := by
    rw [List.filter_filter, eventsOf]
    exact List.filter_congr fun e _ => by rw [Bool.and_comm]
  rw [foldl_networkAfter, Table.lookup_upserts_empty _ _ _ connectIncrement_eq, hown,
    foldl_addConnect]

/-- `network_activity` holds the figures of the log. -/
theorem lookup_networkActivity {run : RunMetadata} {capsule : Capsule} {es : List Event}
    (hrun : emitAll (create run) es = .ok capsule) (herrno : ∀ e ∈ es, 0 ≤ e.errnoValue)
    (endpoint : Bytes) :
    capsule.networkActivity.lookup endpoint =
      if rowsOf capsule .networkConnect endpoint = [] then none
      else some
        { connectCount := (rowsOf capsule .networkConnect endpoint).length
          successCount := countRows (rowsOf capsule .networkConnect endpoint)
            fun row => row.errnoValue = 0
          failureCount := countRows (rowsOf capsule .networkConnect endpoint)
            fun row => 0 < row.errnoValue
          lastErrno := ((rowsOf capsule .networkConnect endpoint).getLast?.map
            EventRow.errnoValue).getD 0 } := by
  have htable : capsule.networkActivity = es.foldl networkAfter ∅ := networkActivity_emitAll hrun
  have herrnos : (rowsOf capsule .networkConnect endpoint).map EventRow.errnoValue =
      (eventsOf es .networkConnect endpoint).map fun e => e.errnoValue.toInt :=
    map_rowsOf hrun _ _ fun _ _ => rfl
  have hempty : rowsOf capsule .networkConnect endpoint = [] ↔
      eventsOf es .networkConnect endpoint = [] := by
    rw [← List.length_eq_zero_iff, length_rowsOf hrun, List.length_eq_zero_iff]
  have hsucceeded := countRows_eq_of_map (p := fun v => v = 0)
    (q := fun e => e.errnoValue = 0) herrnos fun e _ => by
      rw [decide_eq_decide, ← Int32.toInt_inj]
      rfl
  have hfailed := countRows_eq_of_map (p := fun v => 0 < v)
    (q := fun e => ¬ e.errnoValue = 0) herrnos fun e he => by
      have hle : (0 : Int32).toInt ≤ e.errnoValue.toInt :=
        Int32.le_iff_toInt_le.mp (herrno e (List.mem_of_mem_filter he))
      rw [decide_eq_decide, ← Int32.toInt_inj]
      simp only [Int32.toInt_zero] at hle ⊢
      omega
  have hlast : ((rowsOf capsule .networkConnect endpoint).getLast?.map EventRow.errnoValue).getD 0 =
      ((eventsOf es .networkConnect endpoint).getLast?.map fun e => e.errnoValue.toInt).getD 0 := by
    rw [← List.getLast?_map, herrnos, List.getLast?_map]
  rw [htable, lookup_foldl_networkAfter, hsucceeded, hfailed, hlast, length_rowsOf hrun]
  simp only [hempty]

/-! ### The whole-run listings re-compute the log -/

theorem filter_rowsOfType (capsule : Capsule) (type : EventType) (resource : Bytes) :
    ((rowsOfType capsule type none).filter fun row => row.resource = resource) =
      rowsOf capsule type resource := by
  rw [rowsOfType, List.filter_filter, rowsOf]
  exact List.filter_congr fun row _ => by rw [inCommand, Bool.and_true, Bool.and_comm]

theorem exists_rowsOfType_iff (capsule : Capsule) (type : EventType) (resource : Bytes) :
    (∃ row ∈ rowsOfType capsule type none, row.resource = resource) ↔
      rowsOf capsule type resource ≠ [] := by
  rw [← filter_rowsOfType, Ne, List.filter_eq_nil_iff]
  simp

theorem groupedFileLine_none (capsule : Capsule) (type : EventType) (path : Bytes) :
    groupedFileLine (rowsOfType capsule type none) path =
      ⟨path, (rowsOf capsule type path).length, positiveBytes (rowsOf capsule type path)⟩ := by
  rw [groupedFileLine, filter_rowsOfType]

/-- The listing of the file table is the grouping of all transfers. -/
theorem fileLines_none {run : RunMetadata} {capsule : Capsule} {es : List Event}
    (hrun : emitAll (create run) es = .ok capsule) (read : Bool) :
    fileLines capsule none read =
      groupedFileLines (rowsOfType capsule (transferType read) none) := by
  have hexists : ∀ path, (∃ row ∈ rowsOfType capsule .fileRead none ++
      rowsOfType capsule .fileWrite none, row.resource = path) ↔
        ¬ (rowsOf capsule .fileRead path = [] ∧ rowsOf capsule .fileWrite path = []) := by
    intro path
    rw [not_and_or, ← Ne, ← Ne, ← exists_rowsOfType_iff, ← exists_rowsOfType_iff]
    simp only [List.mem_append]
    exact ⟨fun ⟨row, hrow, h⟩ => hrow.imp (fun hr => ⟨row, hr, h⟩) fun hr => ⟨row, hr, h⟩,
      fun h => h.elim (fun ⟨row, hr, hp⟩ => ⟨row, .inl hr, hp⟩)
        fun ⟨row, hr, hp⟩ => ⟨row, .inr hr, hp⟩⟩
  have horder := orderedRows_eq (t := capsule.fileActivity) EventRow.resource
    (rowsOfType capsule .fileRead none ++ rowsOfType capsule .fileWrite none)
    (fun path h => by rw [lookup_fileActivity hrun, if_neg ((hexists path).mp h)])
    (fun path h => by rw [lookup_fileActivity hrun, if_pos (not_not.mp (mt (hexists path).mpr h))])
  have hline : ∀ path, activityFileLine read (path,
      { readCalls := (rowsOf capsule .fileRead path).length
        writeCalls := (rowsOf capsule .fileWrite path).length
        bytesRead := positiveBytes (rowsOf capsule .fileRead path)
        bytesWritten := positiveBytes (rowsOf capsule .fileWrite path) }) =
      groupedFileLine (rowsOfType capsule (transferType read) none) path := by
    intro path
    rw [groupedFileLine_none]
    cases read <;> rfl
  unfold fileLines groupedFileLines
  dsimp only
  rw [horder, List.map_map, List.filter_map]
  simp only [Function.comp_def, hline]
  refine congrArg (List.map _) ?_
  refine filter_groups_eq fun path => ?_
  rw [hexists, exists_rowsOfType_iff]
  simp only [groupedFileLine_none, decide_eq_true_eq, Int.natCast_pos, List.length_pos_iff]
  cases read <;> simp only [transferType] <;> tauto

theorem pairwise_id_eventRows (count : ℕ) (es : List Event) :
    (eventRows count es).Pairwise fun a b => a.id < b.id := by
  induction es generalizing count with
  | nil => simp [eventRows]
  | cons e es ih =>
      rw [eventRows_cons, List.pairwise_cons]
      refine ⟨fun row hrow => ?_, ih (count + 1)⟩
      obtain ⟨i, e', -, rfl⟩ := mem_eventRows hrow
      simp only [eventRow]
      omega

/-- Of rows in the order of their time and id, the latest is the last. -/
theorem latestRow_eq_getLast? {rows : List EventRow}
    (h : rows.Pairwise fun a b => a.timestampNs ≤ b.timestampNs ∧ a.id < b.id) :
    latestRow rows = rows.getLast? := by
  induction rows using List.reverseRecOn with
  | nil => rfl
  | append_singleton rows row ih =>
      have hinit := ih (h.sublist (List.sublist_append_left _ _))
      rw [latestRow, List.foldl_append, ← latestRow, hinit, List.getLast?_concat,
        List.foldl_cons, List.foldl_nil]
      cases hlast : rows.getLast? with
      | none => rfl
      | some last =>
          obtain ⟨htime, hid⟩ := (List.pairwise_append.mp h).2.2 last
            (List.mem_of_getLast? hlast) row (by simp)
          dsimp only
          rw [if_pos (by omega)]

/-- Connects of a resource are logged in the order of their time. -/
theorem pairwise_rowsOf {run : RunMetadata} {capsule : Capsule} {es : List Event}
    (hrun : emitAll (create run) es = .ok capsule) {type : EventType}
    (htime : (es.filter fun e => e.type = type).Pairwise
      fun a b => asI64 a.timestampNs ≤ asI64 b.timestampNs) (resource : Bytes) :
    (rowsOf capsule type resource).Pairwise
      fun a b => a.timestampNs ≤ b.timestampNs ∧ a.id < b.id := by
  refine List.Pairwise.and ?_ ?_
  · have hmap : (rowsOf capsule type resource).map EventRow.timestampNs =
        (eventsOf es type resource).map fun e => asI64 e.timestampNs :=
      map_rowsOf hrun _ _ fun _ _ => rfl
    have hown : eventsOf es type resource =
        (es.filter fun e => e.type = type).filter fun e => e.resource = resource := by
      rw [List.filter_filter, eventsOf]
      exact List.filter_congr fun e _ => by rw [Bool.and_comm]
    rw [← List.pairwise_map (f := EventRow.timestampNs) (R := (· ≤ ·)), hmap,
      List.pairwise_map, hown]
    exact htime.filter _
  · rw [rowsOf, events_recording hrun]
    exact (pairwise_id_eventRows 0 es).filter _

/-- The listing of the network table is the grouping of all connects. -/
theorem networkLines_none {run : RunMetadata} {capsule : Capsule} {es : List Event}
    (hrun : emitAll (create run) es = .ok capsule) (herrno : ∀ e ∈ es, 0 ≤ e.errnoValue)
    (htime : (es.filter fun e => e.type = .networkConnect).Pairwise
      fun a b => asI64 a.timestampNs ≤ asI64 b.timestampNs) :
    networkLines capsule none =
      groupedNetworkLines (rowsOfType capsule .networkConnect none) := by
  have hlookup := lookup_networkActivity hrun herrno
  have horder := orderedRows_eq (t := capsule.networkActivity) EventRow.resource
    (rowsOfType capsule .networkConnect none)
    (fun endpoint h => by
      rw [hlookup, if_neg ((exists_rowsOfType_iff capsule .networkConnect endpoint).mp h)])
    (fun endpoint h => by
      rw [hlookup, if_pos (not_not.mp (mt (exists_rowsOfType_iff _ _ _).mpr h))])
  unfold networkLines groupedNetworkLines
  dsimp only
  rw [horder, List.map_map]
  refine List.map_congr_left fun endpoint _ => ?_
  rw [groupedNetworkLine, filter_rowsOfType,
    latestRow_eq_getLast? (pairwise_rowsOf hrun htime endpoint)]
  rfl

/-! ### The commands partition the figures -/

/-- The figure that the lines of a listing show under one name. -/
def printed {L : Type*} (name : L → Bytes) (value : L → ℤ) (lines : List L) (k : Bytes) : ℤ :=
  ((lines.filter fun line => name line = k).map value).sum

theorem printed_groups {L : Type*} {name : L → Bytes} {value : L → ℤ} {line : Bytes → L}
    {rows : List EventRow} {f : EventRow → ℤ} (hname : ∀ k, name (line k) = k)
    (hvalue : ∀ k, value (line k) = ((rows.filter fun row => row.resource = k).map f).sum)
    (k : Bytes) :
    printed name value ((groups EventRow.resource rows).map line) k =
      ((rows.filter fun row => row.resource = k).map f).sum := by
  rw [printed, filter_map_groups hname]
  split
  · simp [hvalue]
  · rename_i hnone
    have hrows : (rows.filter fun row => row.resource = k) = [] := by
      rw [List.filter_eq_nil_iff]
      intro row hrow
      simpa using fun h => hnone ⟨row, hrow, h⟩
    rw [hrows]
    rfl

/-- The commands that occur in the log; `none` stands for the rows of no
command. -/
def commandClasses (capsule : Capsule) : List (Option ℤ) :=
  (capsule.events.map EventRow.commandId).dedup

/-- The rows of a type that belong to a command, or to no command. -/
def classRows (capsule : Capsule) (type : EventType) (c : Option ℤ) : List EventRow :=
  capsule.events.filter fun row => row.type = eventTypeName type && row.commandId = c

/-- What `show` lists for a command; for `none`, the same listing of the rows
of no command. -/
def classFileLines (capsule : Capsule) (read : Bool) : Option ℤ → List FileLine
  | some id => fileLines capsule (some id) read
  | none => groupedFileLines (classRows capsule (transferType read) none)

def classNetworkLines (capsule : Capsule) : Option ℤ → List NetworkLine
  | some id => networkLines capsule (some id)
  | none => groupedNetworkLines (classRows capsule .networkConnect none)

theorem classFileLines_eq (capsule : Capsule) (read : Bool) (c : Option ℤ) :
    classFileLines capsule read c =
      groupedFileLines (classRows capsule (transferType read) c) := by
  cases c <;> rfl

theorem classNetworkLines_eq (capsule : Capsule) (c : Option ℤ) :
    classNetworkLines capsule c = groupedNetworkLines (classRows capsule .networkConnect c) := by
  cases c <;> rfl

/-- A figure of a resource over all rows of a type is the sum of the figure
over the commands. -/
theorem sum_commandClasses (capsule : Capsule) (type : EventType) (k : Bytes)
    (f : EventRow → ℤ) :
    ((commandClasses capsule).map fun c =>
        (((classRows capsule type c).filter fun row => row.resource = k).map f).sum).sum =
      (((rowsOfType capsule type none).filter fun row => row.resource = k).map f).sum := by
  have hclass : ∀ c, ((classRows capsule type c).filter fun row => row.resource = k) =
      (rowsOf capsule type k).filter fun row => row.commandId = c := by
    intro c
    simp only [classRows, rowsOf, List.filter_filter]
    exact List.filter_congr fun row _ => by
      cases decide (row.type = eventTypeName type) <;> simp [Bool.and_comm]
  simp only [hclass, filter_rowsOfType]
  refine sum_classes f EventRow.commandId _ _ (List.nodup_dedup _) fun row hrow => ?_
  rw [commandClasses, List.mem_dedup]
  exact List.mem_map_of_mem (List.mem_of_mem_filter hrow)

theorem sum_printed_classes {L : Type*} {name : L → Bytes} {value : L → ℤ}
    (line : List EventRow → Bytes → L) {f : EventRow → ℤ} (capsule : Capsule)
    (type : EventType) (hname : ∀ rows k, name (line rows k) = k)
    (hvalue : ∀ rows k, value (line rows k) =
      ((rows.filter fun row => row.resource = k).map f).sum) (k : Bytes) :
    ((commandClasses capsule).map fun c => printed name value
        ((groups EventRow.resource (classRows capsule type c)).map
          (line (classRows capsule type c))) k).sum =
      printed name value
        ((groups EventRow.resource (rowsOfType capsule type none)).map
          (line (rowsOfType capsule type none))) k := by
  rw [printed_groups (hname _) (hvalue _), ← sum_commandClasses]
  congr 1
  exact List.map_congr_left fun c _ => printed_groups (hname _) (hvalue _) k

/-- The activity tables of a capsule against its event log, and the figures
of the commands against those of the run. -/
structure ActivityMatchesLog (capsule : Capsule) : Prop where
  files : ∀ path, capsule.fileActivity.lookup path =
    if rowsOf capsule .fileRead path = [] ∧ rowsOf capsule .fileWrite path = [] then none
    else some
      { readCalls := (rowsOf capsule .fileRead path).length
        writeCalls := (rowsOf capsule .fileWrite path).length
        bytesRead := positiveBytes (rowsOf capsule .fileRead path)
        bytesWritten := positiveBytes (rowsOf capsule .fileWrite path) }
  network : ∀ endpoint, capsule.networkActivity.lookup endpoint =
    if rowsOf capsule .networkConnect endpoint = [] then none
    else some
      { connectCount := (rowsOf capsule .networkConnect endpoint).length
        successCount := countRows (rowsOf capsule .networkConnect endpoint)
          fun row => row.errnoValue = 0
        failureCount := countRows (rowsOf capsule .networkConnect endpoint)
          fun row => 0 < row.errnoValue
        lastErrno := ((rowsOf capsule .networkConnect endpoint).getLast?.map
          EventRow.errnoValue).getD 0 }
  /-- The last connect of the log is the latest one. -/
  last : ∀ endpoint, latestRow (rowsOf capsule .networkConnect endpoint) =
    (rowsOf capsule .networkConnect endpoint).getLast?
  attempts : ∀ endpoint row, capsule.networkActivity.lookup endpoint = some row →
    row.connectCount = row.successCount + row.failureCount
  partitionFiles : ∀ read path,
    ((commandClasses capsule).map fun c =>
        printed FileLine.path FileLine.calls (classFileLines capsule read c) path).sum =
      printed FileLine.path FileLine.calls (fileLines capsule none read) path ∧
    ((commandClasses capsule).map fun c =>
        printed FileLine.path FileLine.bytes (classFileLines capsule read c) path).sum =
      printed FileLine.path FileLine.bytes (fileLines capsule none read) path
  partitionNetwork : ∀ endpoint, ∀ figure ∈
      [NetworkLine.attempts, NetworkLine.succeeded, NetworkLine.failed],
    ((commandClasses capsule).map fun c =>
        printed NetworkLine.endpoint figure (classNetworkLines capsule c) endpoint).sum =
      printed NetworkLine.endpoint figure (networkLines capsule none) endpoint

theorem sum_map_one (rows : List EventRow) : (rows.map fun _ => (1 : ℤ)).sum = rows.length := by
  simp

theorem countRows_eq_sum (rows : List EventRow) (p : EventRow → Bool) :
    countRows rows p = (rows.map fun row => if p row then (1 : ℤ) else 0).sum := by
  induction rows with
  | nil => rfl
  | cons row rows ih =>
      rw [List.map_cons, List.sum_cons, ← ih]
      unfold countRows
      cases h : p row
      · simp [h]
      · simp [h, add_comm]

/-- Every attempt of a log without negative errors succeeded or failed. -/
theorem length_eq_countRows {rows : List EventRow} (h : ∀ row ∈ rows, 0 ≤ row.errnoValue) :
    (rows.length : ℤ) = (countRows rows fun row => row.errnoValue = 0) +
      countRows rows fun row => 0 < row.errnoValue := by
  induction rows with
  | nil => rfl
  | cons row rows ih =>
      have hrest := ih fun r hr => h r (by simp [hr])
      have hrow := h row (by simp)
      simp only [countRows_eq_sum, List.map_cons, List.sum_cons, List.length_cons,
        decide_eq_true_eq] at hrest ⊢
      push_cast
      split <;> split <;> omega

theorem errnoValue_nonneg {run : RunMetadata} {capsule : Capsule} {es : List Event}
    (hrun : emitAll (create run) es = .ok capsule) (herrno : ∀ e ∈ es, 0 ≤ e.errnoValue)
    {row : EventRow} (hrow : row ∈ capsule.events) : 0 ≤ row.errnoValue := by
  rw [events_recording hrun] at hrow
  obtain ⟨i, e, he, rfl⟩ := mem_eventRows hrow
  exact Int32.le_iff_toInt_le.mp (herrno e (List.mem_of_getElem? he))

/-- The counters of an endpoint add up. -/
theorem connectCount_eq {run : RunMetadata} {capsule : Capsule} {es : List Event}
    (hrun : emitAll (create run) es = .ok capsule) (herrno : ∀ e ∈ es, 0 ≤ e.errnoValue)
    {endpoint : Bytes} {row : NetworkActivity}
    (hrow : capsule.networkActivity.lookup endpoint = some row) :
    row.connectCount = row.successCount + row.failureCount := by
  rw [lookup_networkActivity hrun herrno] at hrow
  split at hrow
  · contradiction
  · obtain rfl := Option.some.inj hrow
    exact length_eq_countRows fun r hr =>
      errnoValue_nonneg hrun herrno (List.mem_of_mem_filter hr)

theorem activityMatchesLog {run : RunMetadata} {es : List Event} {capsule : Capsule}
    (hrun : emitAll (create run) es = .ok capsule) (herrno : ∀ e ∈ es, 0 ≤ e.errnoValue)
    (htime : (es.filter fun e => e.type = .networkConnect).Pairwise
      fun a b => asI64 a.timestampNs ≤ asI64 b.timestampNs) :
    ActivityMatchesLog capsule where
  files := lookup_fileActivity hrun
  network := lookup_networkActivity hrun herrno
  last endpoint := latestRow_eq_getLast? (pairwise_rowsOf hrun htime endpoint)
  attempts _ _ := connectCount_eq hrun herrno
  partitionFiles read path := by
    simp only [classFileLines_eq, fileLines_none hrun]
    exact ⟨sum_printed_classes groupedFileLine (f := fun _ => 1) capsule _
        (fun _ _ => rfl) (fun rows k => (sum_map_one _).symm) path,
      sum_printed_classes groupedFileLine
        (f := fun row => if 0 < row.result then row.result else 0) capsule _
        (fun _ _ => rfl) (fun _ _ => rfl) path⟩
  partitionNetwork endpoint figure hfigure := by
    simp only [classNetworkLines_eq, networkLines_none hrun herrno htime]
    simp only [List.mem_cons, List.not_mem_nil, or_false] at hfigure
    rcases hfigure with rfl | rfl | rfl
    · exact sum_printed_classes groupedNetworkLine (f := fun _ => 1) capsule _
        (fun _ _ => rfl) (fun rows k => (sum_map_one _).symm) endpoint
    · exact sum_printed_classes groupedNetworkLine capsule _ (fun _ _ => rfl)
        (fun rows k => countRows_eq_sum _ _) endpoint
    · exact sum_printed_classes groupedNetworkLine capsule _ (fun _ _ => rfl)
        (fun rows k => countRows_eq_sum _ _) endpoint

/-- The log has a row for each event, the incremental tables equal its figures,
and the figures of all commands and of no command add up to those of the run.
Times are compared as they are stored. -/
theorem activity_matches_log {run : RunMetadata} {es : List Event} {capsule : Capsule}
    (hrun : emitAll (create run) es = .ok capsule) (herrno : ∀ e ∈ es, 0 ≤ e.errnoValue)
    (htime : (es.filter fun e => e.type = .networkConnect).Pairwise
      fun a b => asI64 a.timestampNs ≤ asI64 b.timestampNs) :
    capsule.events = eventRows 0 es ∧ ActivityMatchesLog capsule :=
  ⟨events_recording hrun, activityMatchesLog hrun herrno htime⟩

/-- A read, a successful connect and a refused one. -/
def sampleTransfers : List Event :=
  [ { timestampNs := 1, pid := 7, tid := 7, type := .fileRead, resource := lit "f",
      result := 5, errnoValue := 0, metadata := [], commandId := some 1 },
    { timestampNs := 2, pid := 7, tid := 7, type := .networkConnect, resource := lit "e",
      result := 0, errnoValue := 0, metadata := [], commandId := none },
    { timestampNs := 3, pid := 7, tid := 7, type := .networkConnect, resource := lit "e",
      result := -111, errnoValue := 111, metadata := [], commandId := some 1 } ]

theorem activity_matches_log_transfers :
    ∃ capsule, emitAll (create sampleRun) sampleTransfers = .ok capsule ∧
      capsule.events = eventRows 0 sampleTransfers ∧ ActivityMatchesLog capsule := by
  obtain ⟨capsule, hrun⟩ : ∃ capsule, emitAll (create sampleRun) sampleTransfers = .ok capsule :=
    ⟨_, emitAll_ok_iff.mpr ⟨_, _, rfl, rfl, rfl⟩⟩
  exact ⟨capsule, hrun, activity_matches_log hrun (by decide) (by decide)⟩

end Whyrun
