import Whyrun.Execution.Runs
import Whyrun.Storage.Commands

/-!
The execution state feeding the capsule writer: every event it emits can be
stored, so that only the ids of the started commands decide whether a
recording is kept, and a table of commands that alternate leaves no command
without its end.
-/

namespace Whyrun

open ByteText Relational ExecutionState CapsuleWriter

/-! ### Emitted events can be stored -/

theorem integerEntry_decimal {e : Event} (key fallback : Bytes) {v : Int32}
    (h : metadataValue e key fallback = decimal v.toInt) :
    integerEntry e key fallback = .ok v.toInt := by
  have hlow := v.le_toInt
  have hhigh := v.toInt_lt
  have hbounds : -(2 ^ 63) ≤ v.toInt ∧ v.toInt < 2 ^ 63 := by
    constructor <;> omega
  rw [integerEntry, h, stoll_decimal, if_pos hbounds]

theorem storable_of_isIo {e : Event} (h : e.type.isIo = true) : e.Storable := by
  refine ⟨fun htype => ?_, fun htype => ?_, fun processes => ⟨processes, ?_⟩⟩
  · rw [htype] at h
    contradiction
  · rw [htype] at h
    contradiction
  · unfold processesAfter
    cases htype : e.type <;> first | rfl | (rw [htype] at h; contradiction)

theorem storable_commandStart (pid tid : Pid) (id : UInt64) (text cwd : Bytes) (t : UInt64) :
    (commandStartEvent pid tid id text cwd t).Storable :=
  ⟨fun _ => ⟨id, rfl, rfl⟩, fun h => by contradiction, fun processes => ⟨processes, rfl⟩⟩

theorem storable_commandEnd (pid tid : Pid) (id : UInt64) (result : Int32) (cwd : Bytes)
    (t : UInt64) : (commandEndEvent pid tid (some id) result cwd t).Storable :=
  ⟨fun h => by contradiction, fun _ => rfl, fun processes => ⟨processes, rfl⟩⟩

/-- The row that an exec writes. -/
theorem processesAfter_exec (processes : Table ℤ ProcessRow) (P : ProcessState) (tid : Pid)
    (exe : Bytes) (t : UInt64) (c : Option UInt64) :
    processesAfter processes { execEvent P tid exe t with commandId := c } =
      .ok (processes.upsert P.pid.toInt
        { ppid := P.parentPid.toInt, executable := exe, startNs := asI64 t }
        fun row => { row with executable := exe }) := by
  have hppid := integerEntry_decimal (e := { execEvent P tid exe t with commandId := c })
    (lit "ppid") (lit "0") (v := P.parentPid) rfl
  simp only [processesAfter, execEvent, processExec] at hppid ⊢
  rw [hppid]
  rfl

/-- The row that a fork writes. -/
theorem processesAfter_fork (processes : Table ℤ ProcessRow) (P : ProcessState)
    (parentTid childTid : Pid) (ev : UInt32) (t : UInt64) :
    processesAfter processes (forkEvent P parentTid childTid ev t) =
      .ok (processes.insertOrIgnore childTid.toInt
        { ppid := P.pid.toInt, executable := P.executable, startNs := asI64 t }) := by
  have hchild := integerEntry_decimal (e := forkEvent P parentTid childTid ev t)
    (lit "child_pid") (lit "0") (v := childTid) rfl
  simp only [processesAfter, forkEvent, processFork] at hchild ⊢
  rw [hchild]
  rfl

/-- The columns that an exit writes. -/
theorem processesAfter_exit (processes : Table ℤ ProcessRow) (P : ProcessState) (tid : Pid)
    (code signal : Int32) (t : UInt64) (c : Option UInt64) :
    processesAfter processes { exitEvent P tid code signal t with commandId := c } =
      .ok (processes.modify P.pid.toInt fun row =>
        { row with
          endNs := some (asI64 t), exitCode := some code.toInt
          termSignal := some signal.toInt }) := by
  have hcode := integerEntry_decimal (e := { exitEvent P tid code signal t with commandId := c })
    (lit "exit_code") (lit "-1") (v := code) rfl
  have hsignal :=
    integerEntry_decimal (e := { exitEvent P tid code signal t with commandId := c })
      (lit "term_signal") (lit "0") (v := signal) rfl
  simp only [processesAfter, exitEvent, processExit] at hcode hsignal ⊢
  rw [hcode]
  simp only [Bind.bind, Except.bind]
  rw [hsignal]

theorem storable_exec (P : ProcessState) (tid : Pid) (exe : Bytes) (t : UInt64)
    (c : Option UInt64) : Event.Storable { execEvent P tid exe t with commandId := c } :=
  ⟨fun h => by contradiction, fun h => by contradiction,
    fun processes => ⟨_, processesAfter_exec processes P tid exe t c⟩⟩

theorem storable_fork (P : ProcessState) (parentTid childTid : Pid) (ev : UInt32)
    (t : UInt64) : (forkEvent P parentTid childTid ev t).Storable :=
  ⟨fun h => by contradiction, fun h => by contradiction,
    fun processes => ⟨_, processesAfter_fork processes P parentTid childTid ev t⟩⟩

theorem storable_exit (P : ProcessState) (tid : Pid) (code signal : Int32) (t : UInt64)
    (c : Option UInt64) :
    Event.Storable { exitEvent P tid code signal t with commandId := c } :=
  ⟨fun h => by contradiction, fun h => by contradiction,
    fun processes => ⟨_, processesAfter_exit processes P tid code signal t c⟩⟩

variable {σ σ' : ExecutionState} {n : Notification} {es : List Event}

theorem Effect.storable (he : Effect σ n σ' es) : ∀ e ∈ es, e.Storable := by
  cases he with
  | markerIgnored | arm | createdUnknown | createdThread | exitedThread | exitedUnknown
    | syscallUnknown => simp
  | start =>
      intro e he
      rw [List.mem_singleton.mp he]
      exact storable_commandStart _ _ _ _ _ _
  | stop =>
      intro e he
      rw [List.mem_singleton.mp he]
      exact storable_commandEnd _ _ _ _ _ _
  | exec =>
      intro e he
      rw [List.mem_singleton.mp he]
      exact storable_exec _ _ _ _ _
  | @execDiscovered tid links t unknown =>
      intro e he
      rw [List.mem_singleton.mp he]
      exact storable_exec { pid := tid } tid links.executable t none
  | createdProcess =>
      intro e he
      rw [List.mem_singleton.mp he]
      exact storable_fork _ _ _ _ _
  | exited | exitedIdle =>
      intro e he
      rw [List.mem_singleton.mp he]
      exact storable_exit _ _ _ _ _ _
  | exitedRunning =>
      intro e he
      simp only [List.mem_cons, List.not_mem_nil, or_false] at he
      rcases he with rfl | rfl
      · exact storable_exit _ _ _ _ _ _
      · exact storable_commandEnd _ _ _ _ _ _
  | @syscall memory call P found =>
      intro e he
      obtain ⟨raw, hraw, rfl⟩ := List.mem_map.mp he
      obtain ⟨type, resource, metadata, hio, rfl⟩ :=
        (syscallExit_spec memory P call).event raw (Option.mem_toList.mp hraw)
      exact storable_of_isIo hio

theorem storable_run {ns : List Notification}
    (hrun : Transducer.run notify σ ns = .ok (σ', es)) : ∀ e ∈ es, e.Storable := by
  intro e he
  obtain ⟨_, _, _, _, _, _, _, -, -, hstep, hmem⟩ := Transducer.exists_step_of_mem_run hrun he
  exact (notify_effect hstep).storable e hmem

/-- Every event of a recording can be stored. -/
theorem storable_record {root : Pid} {cwd : Bytes} {rootCommand : Option Bytes}
    {startNs : UInt64} {ns : List Notification}
    (hrun : record root cwd rootCommand startNs ns = .ok (σ, es)) : ∀ e ∈ es, e.Storable := by
  obtain ⟨es', hrest, rfl⟩ := (record_ok_iff ..).mp hrun
  intro e he
  rcases List.mem_append.mp he with he | he
  · rw [initialEvents_eq] at he
    obtain ⟨text, -, rfl⟩ := List.mem_map.mp he
    exact storable_commandStart _ _ _ _ _ _
  · exact storable_run hrest e he

/-! ### Rows of finished commands -/

/-- The end of the command has been recorded. -/
def CommandRow.Ended (row : CommandRow) : Prop := row.endNs ≠ none ∧ row.exitCode ≠ none

theorem rowAfter_of_not_mark {e : Event} (h : e.isCommandMark = false) (k : ℤ)
    (row : Option CommandRow) : rowAfter k row e = row := by
  simp only [Event.isCommandMark, Bool.or_eq_false_iff, decide_eq_false_iff_not] at h
  simp [rowAfter, h]

theorem foldl_rowAfter_filter (k : ℤ) (row : Option CommandRow) (es : List Event) :
    es.foldl (rowAfter k) row = (es.filter Event.isCommandMark).foldl (rowAfter k) row := by
  induction es generalizing row with
  | nil => rfl
  | cons e es ih =>
      rw [List.foldl_cons, ih, List.filter_cons]
      cases h : e.isCommandMark with
      | true => rfl
      | false => rw [rowAfter_of_not_mark h]; rfl

/-- A start and its end leave an ended row, and no other row open. -/
theorem ended_foldl_rowAfter {k : ℤ} {ids : List UInt64} {es : List Event}
    (h : marks es = ids.flatMap commandPair) {row : Option CommandRow}
    (hrow : ∀ r ∈ row, r.Ended) : ∀ r ∈ es.foldl (rowAfter k) row, r.Ended := by
  rw [foldl_rowAfter_filter]
  rw [marks] at h
  generalize es.filter Event.isCommandMark = cs at h
  induction ids generalizing cs row with
  | nil =>
      obtain rfl := List.map_eq_nil_iff.mp h
      exact hrow
  | cons id ids ih =>
      obtain ⟨s, cs, rfl⟩ := List.exists_cons_of_ne_nil (l := cs)
        (by rintro rfl; simp [commandPair] at h)
      obtain ⟨e, cs, rfl⟩ := List.exists_cons_of_ne_nil (l := cs)
        (by rintro rfl; simp [commandPair] at h)
      simp only [List.map_cons, List.flatMap_cons, commandPair, List.cons_append,
        List.nil_append, List.cons.injEq, Prod.mk.injEq] at h
      obtain ⟨⟨hstype, hsid⟩, ⟨hetype, heid⟩, hrest⟩ := h
      rw [List.foldl_cons, List.foldl_cons]
      refine ih ?_ cs hrest
      intro r hr
      unfold rowAfter at hr
      rw [hsid, heid, hstype, hetype] at hr
      by_cases hk : asI64 id = k
      · simp only [Option.map_some, hk, if_true, reduceCtorEq, if_false, Option.mem_def,
          Option.some.injEq] at hr
        subst hr
        simp [CommandRow.Ended, endRow]
      · simp only [Option.map_some, Option.some.injEq, hk, if_false] at hr
        exact hrow r hr

/-- When the commands of a recording alternate and all have ended, no row of
the table is left open. -/
theorem ended_commands {commands : Table ℤ CommandRow} {es : List Event} {ids : List UInt64}
    (hes : ∀ e ∈ es, e.Storable) (hmarks : marks es = ids.flatMap commandPair)
    (h : es.foldlM commandsAfter ∅ = .ok commands) {k : ℤ} {row : CommandRow}
    (hrow : commands.lookup k = some row) : row.Ended := by
  rw [lookup_commands hes h] at hrow
  exact ended_foldl_rowAfter hmarks (by simp) row hrow

end Whyrun
