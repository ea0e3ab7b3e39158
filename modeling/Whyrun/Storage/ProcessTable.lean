import Whyrun.Execution.Census
import Whyrun.Storage.Recording

/-!
The processes table against the census of the run. A fork ignores a row that
its pid already has, an exec updates one column, an exit updates the row that
is there: the rows are those of the most recent owners exactly when every
process starts under a pid of its own.
-/

namespace Whyrun

open ByteText Relational ExecutionState CapsuleWriter

/-! ### Rows -/

/-- The row of a process; none before it has started. -/
def ProcessLife.row (life : ProcessLife) : Option ProcessRow :=
  life.startNs.map fun startNs =>
    { ppid := life.parent.toInt, executable := life.executable, startNs := asI64 startNs
      endNs := life.ended.map fun e => asI64 e.1
      exitCode := life.ended.map fun e => e.2.1.toInt
      termSignal := life.ended.map fun e => e.2.2.toInt }

theorem ProcessLife.row_eq_none {life : ProcessLife} : life.row = none ↔ life.startNs = none := by
  simp [ProcessLife.row]

/-- The table holds the row of the most recent owner of each pid. -/
def RowsOf (census : Census) (processes : Table ℤ ProcessRow) : Prop :=
  ∀ p, processes.lookup p.toInt = (census p).bind ProcessLife.row

theorem processesAfter_silent {e : Event} (h : e.type.isLife = false)
    (processes : Table ℤ ProcessRow) : processesAfter processes e = .ok processes := by
  unfold processesAfter
  cases htype : e.type <;> first | rfl | (rw [htype] at h; contradiction)

theorem foldlM_processesAfter_silent {es : List Event} (h : ∀ e ∈ es, e.type.isLife = false)
    {processes processes' : Table ℤ ProcessRow}
    (hfold : es.foldlM processesAfter processes = .ok processes') : processes' = processes := by
  induction es with
  | nil => exact Transducer.foldlM_nil_ok_iff.mp hfold
  | cons e es ih =>
      obtain ⟨middle, hfirst, hrest⟩ := Transducer.foldlM_cons_ok_iff.mp hfold
      rw [processesAfter_silent (h e (by simp)), Except.ok.injEq] at hfirst
      subst hfirst
      exact ih (fun e' he' => h e' (by simp [he'])) hrest

/-- A statement that writes the row of one pid. -/
theorem RowsOf.update {census : Census} {processes processes' : Table ℤ ProcessRow} {q : Pid}
    {life : ProcessLife} (hrows : RowsOf census processes)
    (hat : processes'.lookup q.toInt = life.row)
    (hother : ∀ k, k ≠ q.toInt → processes'.lookup k = processes.lookup k) :
    RowsOf (Function.update census q (some life)) processes' := by
  intro p
  by_cases hp : p = q
  · subst hp
    rw [hat, Function.update_self, Option.bind_some]
  · rw [hother p.toInt fun h => hp (Int32.toInt_inj.mp h), hrows, Function.update_of_ne hp]

/-- The row of a pid whose owner is in the census. -/
theorem RowsOf.lookup {census : Census} {processes : Table ℤ ProcessRow} {p : Pid}
    {life : ProcessLife} (hrows : RowsOf census processes) (found : census p = some life) :
    processes.lookup p.toInt = life.row := by
  rw [hrows, found, Option.bind_some]

section turns

variable {root : Pid} {past : List Notification} {n : Notification} {es : List Event}
  {next : Census} {processes processes' : Table ℤ ProcessRow}

theorem processes_fork {parentTid child : Pid} {ev : UInt32} {t : UInt64} {P : ProcessState}
    (hstore : [forkEvent P parentTid child ev t].foldlM processesAfter processes =
      .ok processes') :
    processes' = processes.insertOrIgnore child.toInt
      { ppid := P.pid.toInt, executable := P.executable, startNs := asI64 t } := by
  obtain ⟨middle, hfirst, hnil⟩ := Transducer.foldlM_cons_ok_iff.mp hstore
  obtain rfl := Transducer.foldlM_nil_ok_iff.mp hnil
  rw [processesAfter_fork, Except.ok.injEq] at hfirst
  exact hfirst.symm

theorem processes_exec {tid : Pid} {exe : Bytes} {t : UInt64} {P : ProcessState}
    {id : Option UInt64}
    (hstore : [{ execEvent P tid exe t with commandId := id }].foldlM processesAfter processes =
      .ok processes') :
    processes' = processes.upsert P.pid.toInt
      { ppid := P.parentPid.toInt, executable := exe, startNs := asI64 t }
      fun row => { row with executable := exe } := by
  obtain ⟨middle, hfirst, hnil⟩ := Transducer.foldlM_cons_ok_iff.mp hstore
  obtain rfl := Transducer.foldlM_nil_ok_iff.mp hnil
  rw [processesAfter_exec, Except.ok.injEq] at hfirst
  exact hfirst.symm

/-- Every turn of the census in which processes start once writes the rows
that it changes. -/
theorem CensusTurn.rows (hturn : CensusTurn root past n es next)
    (hstore : es.foldlM processesAfter processes = .ok processes')
    (hrows : RowsOf (census root past) processes) (honce : StartsOnce root past n) :
    RowsOf next processes' := by
  cases hturn with
  | quiet silent =>
      rw [foldlM_processesAfter_silent silent hstore]
      exact hrows
  | @fork parentTid child parent ev flags t life P owner process found pid executable =>
      rw [processes_fork hstore]
      refine hrows.update ?_ fun k hk => by rw [Table.lookup_insertOrIgnore, if_neg hk]
      have hfree : processes.lookup child.toInt = none := by
        rw [hrows]
        cases hold : census root past child with
        | none => rfl
        | some old => exact ProcessLife.row_eq_none.mpr (honce process old hold)
      rw [Table.lookup_insertOrIgnore, if_pos rfl, hfree, pid, executable]
      rfl
  | @exec tid p links t life P id owner found pid parent =>
      rw [processes_exec hstore, pid, parent]
      refine hrows.update ?_ fun k hk => by rw [Table.lookup_upsert, if_neg hk]
      rw [Table.lookup_upsert, if_pos rfl, hrows.lookup found]
      cases hstart : life.startNs with
      | none =>
          -- the first exec makes the row
          simp [ProcessLife.row, hstart, honce p life owner found hstart]
      | some startNs => simp [ProcessLife.row, hstart]
  | @exit tid code signal t life P id es owner found pid silent =>
      obtain ⟨middle, hfirst, hrest⟩ := Transducer.foldlM_cons_ok_iff.mp hstore
      rw [processesAfter_exit, Except.ok.injEq, pid] at hfirst
      rw [foldlM_processesAfter_silent silent hrest, ← hfirst]
      refine hrows.update ?_ fun k hk => by rw [Table.lookup_modify, if_neg hk]
      rw [Table.lookup_modify, if_pos rfl, hrows.lookup found]
      simp [ProcessLife.row, Function.comp_def]

/-- A process that starts under the pid of an earlier one, or after its own
exit, has the wrong row at once. -/
theorem CensusTurn.wrong_row (hturn : CensusTurn root past n es next)
    (hstore : es.foldlM processesAfter processes = .ok processes')
    (hrows : RowsOf (census root past) processes) (h : CensusInv root past)
    (admits : TreeAdmits root past n) (honce : ¬ StartsOnce root past n) :
    ∃ p life row, next p = some life ∧ life.row = some row ∧
      processes'.lookup p.toInt ≠ some row := by
  cases hturn with
  | quiet silent once => exact absurd once honce
  | @fork parentTid child parent ev flags t life P owner process found pid executable =>
      simp only [StartsOnce, not_forall] at honce
      obtain ⟨-, old, hold, hstarted⟩ := honce
      -- the former owner has exited, which its row says
      obtain ⟨e, hended⟩ : ∃ e, old.ended = some e := by
        rw [← Option.ne_none_iff_exists']
        intro halive
        have howner := h.alive child old hold halive
        simpa [Notification.creates] using admits.fresh child ⟨child, howner⟩
      obtain ⟨startNs, hstart⟩ := Option.ne_none_iff_exists'.mp hstarted
      refine ⟨child, _, _, Function.update_self .., rfl, ?_⟩
      rw [processes_fork hstore, Table.lookup_insertOrIgnore, if_pos rfl, hrows.lookup hold]
      simp [ProcessLife.row, hstart, hended]
  | @exec tid p links t life P id owner found pid parent =>
      simp only [StartsOnce, not_forall] at honce
      obtain ⟨q, old, howner, hold, hstart, hended⟩ := honce
      obtain rfl : p = q := Option.some.inj (owner.symm.trans howner)
      obtain rfl : life = old := Option.some.inj (found.symm.trans hold)
      obtain ⟨e, hended⟩ := Option.ne_none_iff_exists'.mp hended
      refine ⟨p, _, _, Function.update_self .., rfl, ?_⟩
      rw [processes_exec hstore, pid, Table.lookup_upsert, if_pos rfl, hrows.lookup found]
      simp [ProcessLife.row, hstart, hended]
  | exit => exact absurd trivial honce

end turns

/-! ### Runs -/

section runs

variable (run : RunMetadata) (root : Pid) (cwd : Bytes) (rootCommand : Option Bytes)
  (startNs : UInt64)

/-- What the writer has stored after the notifications. -/
def Writes (ns : List Notification) (capsule : Capsule) : Prop :=
  ∃ σ es, record root cwd rootCommand startNs ns = .ok (σ, es) ∧
    emitAll (create run) es = .ok capsule

/-- The processes table describes the run: in every state of it the row of a
pid whose owner has started is that of the most recent owner, and at its end
every owner has such a row. -/
structure Described (ns : List Notification) : Prop where
  rows : ∀ past rest, ns = past ++ rest →
    ∀ capsule, Writes run root cwd rootCommand startNs past capsule →
      ∀ p life row, census root past p = some life → life.row = some row →
        capsule.processes.lookup p.toInt = some row
  complete : ∀ capsule, Writes run root cwd rootCommand startNs ns capsule →
    ∀ p life, census root ns p = some life →
      ∃ row, life.row = some row ∧ capsule.processes.lookup p.toInt = some row

variable {run root cwd rootCommand startNs} {ns past : List Notification} {n : Notification}
  {capsule : Capsule}

theorem processes_emitAll {capsule capsule' : Capsule} {es : List Event}
    (h : emitAll capsule es = .ok capsule') :
    es.foldlM processesAfter capsule.processes = .ok capsule'.processes := by
  obtain ⟨_, _, _, hprocesses, rfl⟩ := emitAll_ok_iff.mp h
  exact hprocesses

theorem rows_initial (hwrites : Writes run root cwd rootCommand startNs [] capsule) :
    RowsOf (census root []) capsule.processes := by
  obtain ⟨σ, es, hrun, hstore⟩ := hwrites
  obtain ⟨es', hempty, rfl⟩ := (record_ok_iff ..).mp hrun
  simp only [Transducer.run_nil, Except.ok.injEq, Prod.mk.injEq] at hempty
  rw [← hempty.2, List.append_nil, initialEvents_eq] at hstore
  have hsilent : ∀ e ∈ rootCommand.toList.map fun text =>
      commandStartEvent root root 1 text cwd startNs, e.type.isLife = false := by
    intro e he
    obtain ⟨text, -, rfl⟩ := List.mem_map.mp he
    rfl
  rw [foldlM_processesAfter_silent hsilent (processes_emitAll hstore)]
  intro p
  by_cases hp : p = root
  · subst hp
    simp [census, Census.initial, ProcessLife.row, create]
  · simp [census, Census.initial, Function.update_of_ne hp, create]

/-- The last notification of a run, with what it adds to the capsule. -/
theorem writes_snoc (legal : Transducer.Legal (TreeAdmits root) (past ++ [n]))
    (hwrites : Writes run root cwd rootCommand startNs (past ++ [n]) capsule) :
    ∃ before es, Writes run root cwd rootCommand startNs past before ∧
      es.foldlM processesAfter before.processes = .ok capsule.processes ∧
      CensusInv root past ∧ CensusTurn root past n es (census root (past ++ [n])) := by
  obtain ⟨σ', _, hrun, hstore⟩ := hwrites
  obtain ⟨σ, out, es, hpast, hlast, rfl⟩ := (record_append_ok_iff ..).mp hrun
  obtain ⟨before, hbefore, hafter⟩ := emitAll_append.mp hstore
  rw [Transducer.run_singleton] at hlast
  obtain ⟨out', hout, -⟩ := (record_ok_iff ..).mp hpast
  obtain ⟨hinv, hmatches⟩ := census_run legal.init hout
  have hkeyed := (lifecycle_run (legal_lifecycle legal.init) hout).keyed
  exact ⟨before, es, ⟨σ, out, hpast, hbefore⟩, processes_emitAll hafter, hinv,
    (notify_effect hlast).censusTurn hkeyed (tracks_run legal.init hout) hinv hmatches
      legal.last⟩

/-- When every process starts once, the table is that of the census. -/
theorem rows_run (legal : Transducer.Legal (TreeAdmits root) ns)
    (honce : Transducer.Legal (StartsOnce root) ns)
    (hwrites : Writes run root cwd rootCommand startNs ns capsule) :
    RowsOf (census root ns) capsule.processes := by
  induction ns using List.reverseRecOn generalizing capsule with
  | nil => exact rows_initial hwrites
  | append_singleton past n ih =>
      obtain ⟨before, es, hbefore, hstore, -, hturn⟩ := writes_snoc legal hwrites
      exact hturn.rows hstore (ih legal.init honce.init hbefore) honce.last

/-- When every state of a run has the right rows, every process starts once. -/
theorem startsOnce_of_rows (legal : Transducer.Legal (TreeAdmits root) ns)
    (hwrites : Writes run root cwd rootCommand startNs ns capsule)
    (hrows : ∀ past rest, ns = past ++ rest →
      ∀ capsule, Writes run root cwd rootCommand startNs past capsule →
        ∀ p life row, census root past p = some life → life.row = some row →
          capsule.processes.lookup p.toInt = some row) :
    Transducer.Legal (StartsOnce root) ns := by
  induction ns using List.reverseRecOn generalizing capsule with
  | nil => exact Transducer.legal_nil _
  | append_singleton past n ih =>
      obtain ⟨before, es, hbefore, hstore, hinv, hturn⟩ := writes_snoc legal hwrites
      have honce : Transducer.Legal (StartsOnce root) past :=
        ih legal.init hbefore fun past' rest hsplit =>
          hrows past' (rest ++ [n]) (by rw [hsplit, List.append_assoc])
      refine honce.snoc ?_
      by_contra hagain
      obtain ⟨p, life, row, hlife, hrow, hwrong⟩ :=
        hturn.wrong_row hstore (rows_run legal.init honce hbefore) hinv legal.last hagain
      exact hwrong (hrows (past ++ [n]) [] (by simp) capsule hwrites p life row hlife hrow)

/-- The processes table describes a run exactly when every process of the run
starts under a pid under which none has started before, and the root starts. -/
theorem described_iff (legal : Transducer.Legal (TreeAdmits root) ns)
    (hwrites : Writes run root cwd rootCommand startNs ns capsule) :
    Described run root cwd rootCommand startNs ns ↔
      Transducer.Legal (StartsOnce root) ns ∧
        ∀ life, census root ns root = some life → life.startNs ≠ none := by
  constructor
  · rintro ⟨hrows, hcomplete⟩
    refine ⟨startsOnce_of_rows legal hwrites hrows, fun life hlife hstart => ?_⟩
    obtain ⟨row, hrow, -⟩ := hcomplete capsule hwrites root life hlife
    rw [ProcessLife.row_eq_none.mpr hstart] at hrow
    contradiction
  · rintro ⟨honce, hroot⟩
    refine ⟨?_, fun capsule hwrites p life hlife => ?_⟩
    · rintro past rest rfl capsule hwrites p life row hlife hrow
      rw [(rows_run legal.of_append honce.of_append hwrites).lookup hlife, hrow]
    · obtain ⟨σ, es, hrun, -⟩ := id hwrites
      obtain ⟨out, hout, -⟩ := (record_ok_iff ..).mp hrun
      have hstarted : life.startNs ≠ none := by
        intro hstart
        obtain rfl := (census_run legal hout).1.unstarted p life hlife hstart
        exact hroot life hlife hstart
      obtain ⟨row, hrow⟩ :=
        Option.ne_none_iff_exists'.mp fun h => hstarted (ProcessLife.row_eq_none.mp h)
      exact ⟨row, hrow, by rw [(rows_run legal honce hwrites).lookup hlife, hrow]⟩

end runs

/-! ### A pid that is given away again -/

/-- The root forks a child that exits. -/
def sampleChild : List Notification :=
  [.exec 7 ⟨lit "/", lit "/bin/sh"⟩ 1, .created 7 8 ptraceEventFork 0 2, .exited 8 0 0 3]

theorem sampleChild_legal : Transducer.Legal (TreeAdmits 7) sampleChild := by
  have hexec : Transducer.Legal (TreeAdmits 7) [.exec 7 ⟨lit "/", lit "/bin/sh"⟩ 1] :=
    (Transducer.legal_nil _).snoc ⟨⟨7, by decide⟩, fun _ _ => rfl, nofun⟩
  have hfork : TreeAdmits 7 [.exec 7 ⟨lit "/", lit "/bin/sh"⟩ 1]
      (.created 7 8 ptraceEventFork 0 2) :=
    .of_sole (by decide) (fun _ _ h => (TaskTree.owner_initial h).2) (by decide)
  exact (hexec.snoc hfork).snoc (i := .exited 8 0 0 3) ⟨⟨8, by decide⟩, fun _ _ => rfl, nofun⟩

theorem described_iff_sample :
    ∃ capsule, Writes sampleRun 7 (lit "/") none 0 sampleChild capsule ∧
      Described sampleRun 7 (lit "/") none 0 sampleChild ∧
      Transducer.Legal (StartsOnce 7) sampleChild ∧
      capsule.processes.lookup 8 = some
        { ppid := 7, executable := lit "/bin/sh", startNs := 2, endNs := some 3
          exitCode := some 0, termSignal := some 0 } := by
  obtain ⟨capsule, hwrites, hrow⟩ : ∃ capsule,
      Writes sampleRun 7 (lit "/") none 0 sampleChild capsule ∧
        capsule.processes.lookup 8 = some
          { ppid := 7, executable := lit "/bin/sh", startNs := 2, endNs := some 3
            exitCode := some 0, termSignal := some 0 } := ⟨_, ⟨_, _, rfl, rfl⟩, rfl⟩
  have honce : Transducer.Legal (StartsOnce 7) sampleChild := by
    have hexec : StartsOnce 7 [] (.exec 7 ⟨lit "/", lit "/bin/sh"⟩ 1) := by
      intro p life howner hlife _
      obtain rfl : 7 = p := Option.some.inj howner
      rw [← Option.some.inj hlife]
    have hfork : StartsOnce 7 [.exec 7 ⟨lit "/", lit "/bin/sh"⟩ 1]
        (.created 7 8 ptraceEventFork 0 2) := fun _ life hlife => by contradiction
    exact (((Transducer.legal_nil _).snoc hexec).snoc hfork).snoc
      (i := .exited 8 0 0 3) (show StartsOnce 7 _ (.exited 8 0 0 3) from trivial)
  have hroot : ∀ life, census 7 sampleChild 7 = some life → life.startNs ≠ none := by
    intro life hlife
    rw [← Option.some.inj hlife]
    decide
  exact ⟨capsule, hwrites, (described_iff sampleChild_legal hwrites).mpr ⟨honce, hroot⟩, honce,
    hrow⟩

/-- The kernel gives the pid of the child to a second one. -/
def sampleReuse : List Notification := sampleChild ++ [.created 7 8 ptraceEventFork 0 4]

theorem sampleReuse_legal : Transducer.Legal (TreeAdmits 7) sampleReuse := by
  have hprocess : isThreadCreation ptraceEventFork 0 = false := by decide
  refine sampleChild_legal.snoc (.of_sole (by decide) (fun tid p h => ?_) (by decide))
  by_cases htid : tid = 8
  · subst htid
    contradiction
  · rw [show (taskTree 7 sampleChild).owner tid = (TaskTree.initial 7).owner tid by
      simp [sampleChild, taskTree, TaskTree.next, TaskTree.initial, hprocess,
        Function.update_of_ne htid]] at h
    exact (TaskTree.owner_initial h).2

/-- The row of the second child is that of the first, which has exited. -/
theorem reused_pid_keeps_row :
    ∃ capsule, Writes sampleRun 7 (lit "/") none 0 sampleReuse capsule ∧
      Transducer.Legal (TreeAdmits 7) sampleReuse ∧
      capsule.processes.lookup 8 = some
        { ppid := 7, executable := lit "/bin/sh", startNs := 2, endNs := some 3
          exitCode := some 0, termSignal := some 0 } ∧
      ¬ Described sampleRun 7 (lit "/") none 0 sampleReuse := by
  obtain ⟨capsule, hwrites, hrow⟩ : ∃ capsule,
      Writes sampleRun 7 (lit "/") none 0 sampleReuse capsule ∧
      capsule.processes.lookup 8 = some
        { ppid := 7, executable := lit "/bin/sh", startNs := 2, endNs := some 3
          exitCode := some 0, termSignal := some 0 } :=
    ⟨_, ⟨_, _, rfl, rfl⟩, by decide⟩
  refine ⟨capsule, hwrites, sampleReuse_legal, hrow, fun hdescribed => ?_⟩
  -- the second child started later and has not exited
  have hlife : census 7 sampleReuse 8 = some
      { parent := 7, executable := lit "/bin/sh", startNs := some 4 } := rfl
  obtain ⟨row, hown, hlookup⟩ := hdescribed.complete capsule hwrites 8 _ hlife
  have hsame := hrow.symm.trans hlookup
  rw [← Option.some.inj hsame] at hown
  simp [ProcessLife.row] at hown

end Whyrun
