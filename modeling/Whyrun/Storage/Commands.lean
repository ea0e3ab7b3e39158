import Whyrun.Storage.Writer

/-!
The `commands` table of a recording. A table of commands is written without
a throw exactly when no command is started twice and every started id fits a
signed column; a row then follows the events of its own command.
-/

namespace Whyrun

open ByteText Relational CapsuleWriter

/-! ### Events that can be stored -/

/-- What the writer reads back from the metadata of an event is there. -/
structure Event.Storable (e : Event) : Prop where
  start : e.type = .commandStart → ∃ id : UInt64, e.commandId = some id ∧
    metadataValue e (lit "sequence") (lit "0") = decimal id.toNat
  stop : e.type = .commandEnd → e.commandId.isSome = true
  process : ∀ processes, ∃ processes', processesAfter processes e = .ok processes'

/-- The ids of the commands that a list of events starts, in order. -/
def startedIds (es : List Event) : List UInt64 :=
  es.filterMap fun e => if e.type = .commandStart then e.commandId else none

@[simp] theorem startedIds_append (es es' : List Event) :
    startedIds (es ++ es') = startedIds es ++ startedIds es' := by
  simp [startedIds]

theorem startedIds_singleton_of_start {e : Event} {id : UInt64} (htype : e.type = .commandStart)
    (hid : e.commandId = some id) : startedIds [e] = [id] := by
  simp [startedIds, htype, hid]

theorem startedIds_singleton_of_ne {e : Event} (htype : e.type ≠ .commandStart) :
    startedIds [e] = [] := by
  simp [startedIds, htype]

theorem asI64_of_lt {id : UInt64} (h : id.toNat < 2 ^ 63) : asI64 id = id.toNat := by
  have hsize : id.toInt64.toInt = (id.toNat : ℤ).bmod (2 ^ 64) := by
    rw [Int64.toInt, BitVec.toInt_eq_toNat_bmod]
    rfl
  rw [asI64, hsize, Int.bmod_eq_of_le] <;> omega

theorem asI64_injective : Function.Injective asI64 := by
  intro a b h
  have hint : a.toInt64 = b.toInt64 := Int64.toInt_inj.mp h
  simpa using congrArg Int64.toUInt64 hint

/-! ### One event -/

/-- How an event changes the row of one command. -/
def rowAfter (k : ℤ) (row : Option CommandRow) (e : Event) : Option CommandRow :=
  if e.commandId.map asI64 = some k then
    if e.type = .commandStart then some (startRow e k)
    else if e.type = .commandEnd then row.map (endRow e)
    else row
  else row

theorem startCommand_ok_iff {commands commands' : Table ℤ CommandRow} {e : Event} {id : UInt64}
    (hid : e.commandId = some id)
    (hsequence : metadataValue e (lit "sequence") (lit "0") = decimal id.toNat) :
    startCommand commands e = .ok commands' ↔
      id.toNat < 2 ^ 63 ∧ (id.toNat : ℤ) ∉ commands ∧
      (∀ other ∈ commands.entries, other.2.sequence ≠ id.toNat) ∧
      commands' = commands.insert (id.toNat : ℤ) (startRow e id.toNat) := by
  have hentry : integerEntry e (lit "sequence") (lit "0") =
      if id.toNat < 2 ^ 63 then .ok (id.toNat : ℤ) else .error "stoll" := by
    rw [integerEntry, hsequence, stoll_decimal]
    by_cases hlt : id.toNat < 2 ^ 63
    · rw [if_pos (by omega), if_pos hlt]
    · rw [if_neg (by omega), if_neg hlt]
  unfold startCommand
  rw [hid]
  dsimp only
  rw [hentry]
  by_cases hlt : id.toNat < 2 ^ 63
  · rw [if_pos hlt, asI64_of_lt hlt]
    simp only [Bind.bind, Except.bind, insertCommand]
    split
    · rename_i hmem
      simp [hmem]
    · rename_i hmem
      split
      · rename_i hany
        obtain ⟨other, hother, hseq⟩ := List.any_eq_true.mp hany
        refine ⟨fun h => by contradiction, fun h => ?_⟩
        exact absurd (of_decide_eq_true hseq) (h.2.2.1 other hother)
      · rename_i hany
        simp only [Bool.not_eq_true, List.any_eq_false, decide_eq_true_eq] at hany
        simp only [Except.ok.injEq]
        exact ⟨fun h => ⟨hlt, hmem, hany, h.symm⟩, fun h => h.2.2.2.symm⟩
  · rw [if_neg hlt]
    exact ⟨fun h => by contradiction, fun h => absurd h.1 hlt⟩

theorem lookup_commandsAfter {commands commands' : Table ℤ CommandRow} {e : Event}
    (he : e.Storable) (h : commandsAfter commands e = .ok commands') (k : ℤ) :
    commands'.lookup k = rowAfter k (commands.lookup k) e := by
  unfold commandsAfter at h
  unfold rowAfter
  cases htype : e.type with
  | commandStart =>
      obtain ⟨id, hid, hsequence⟩ := he.start htype
      simp only [htype] at h
      obtain ⟨hlt, -, -, rfl⟩ := (startCommand_ok_iff hid hsequence).mp h
      rw [Table.lookup_insert_iff, hid, Option.map_some, asI64_of_lt hlt]
      by_cases hk : (id.toNat : ℤ) = k
      · subst hk
        simp
      · simp [hk, Ne.symm hk]
  | commandEnd =>
      obtain ⟨id, hid⟩ := Option.isSome_iff_exists.mp (he.stop htype)
      simp only [htype, endCommand, hid, Except.ok.injEq] at h
      subst h
      rw [Table.lookup_modify, hid, Option.map_some]
      by_cases hk : asI64 id = k
      · subst hk
        simp
      · simp [hk, Ne.symm hk]
  | processExec | processFork | processExit | fileOpen | fileRead | fileWrite | networkConnect
    | localIpcConnect =>
      simp only [htype, Except.ok.injEq] at h
      subst h
      simp

/-! ### A recording -/

/-- A row of the table follows the events of its own command. -/
theorem lookup_commands {commands commands' : Table ℤ CommandRow} {es : List Event}
    (hes : ∀ e ∈ es, e.Storable) (h : es.foldlM commandsAfter commands = .ok commands') (k : ℤ) :
    commands'.lookup k = es.foldl (rowAfter k) (commands.lookup k) := by
  induction es generalizing commands with
  | nil =>
      obtain rfl := Transducer.foldlM_nil_ok_iff.mp h
      rfl
  | cons e es ih =>
      obtain ⟨middle, hfirst, hrest⟩ := Transducer.foldlM_cons_ok_iff.mp h
      rw [List.foldl_cons, ← lookup_commandsAfter (hes e (by simp)) hfirst]
      exact ih (fun e' he' => hes e' (by simp [he'])) hrest

/-- What holds of the table after the events `es`. -/
structure CommandTable (es : List Event) (commands : Table ℤ CommandRow) : Prop where
  nodup : (startedIds es).Nodup
  bounded : ∀ id ∈ startedIds es, id.toNat < 2 ^ 63
  ids : ∀ k, k ∈ commands ↔ ∃ id ∈ startedIds es, (id.toNat : ℤ) = k
  sequence : ∀ k row, commands.lookup k = some row → row.sequence = k

theorem CommandTable.of_same_ids {es : List Event} {e : Event}
    {commands commands' : Table ℤ CommandRow} (h : CommandTable es commands)
    (htype : e.type ≠ .commandStart) (hkeys : ∀ k, k ∈ commands' ↔ k ∈ commands)
    (hsequence : ∀ k row, commands'.lookup k = some row → row.sequence = k) :
    CommandTable (es ++ [e]) commands' := by
  have hids : startedIds (es ++ [e]) = startedIds es := by
    rw [startedIds_append, startedIds_singleton_of_ne htype, List.append_nil]
  exact ⟨hids ▸ h.nodup, hids ▸ h.bounded, fun k => by rw [hids, hkeys, h.ids], hsequence⟩

theorem CommandTable.next {es : List Event} {e : Event} {commands commands' : Table ℤ CommandRow}
    (h : CommandTable es commands) (he : e.Storable)
    (hstep : commandsAfter commands e = .ok commands') : CommandTable (es ++ [e]) commands' := by
  have hlookup := lookup_commandsAfter he hstep
  unfold commandsAfter at hstep
  cases htype : e.type with
  | commandStart =>
      obtain ⟨id, hid, hsequence⟩ := he.start htype
      simp only [htype] at hstep
      obtain ⟨hlt, hfresh, -, rfl⟩ := (startCommand_ok_iff hid hsequence).mp hstep
      have hids : startedIds (es ++ [e]) = startedIds es ++ [id] := by
        rw [startedIds_append, startedIds_singleton_of_start htype hid]
      have hnew : id ∉ startedIds es := fun hmem =>
        hfresh ((h.ids _).mpr ⟨id, hmem, rfl⟩)
      refine ⟨?_, ?_, ?_, ?_⟩
      · rw [hids]
        exact List.nodup_append_comm.mp (List.nodup_cons.mpr ⟨hnew, h.nodup⟩)
      · rw [hids]
        intro j hj
        rcases List.mem_append.mp hj with hj | hj
        · exact h.bounded j hj
        · rw [List.mem_singleton.mp hj]
          exact hlt
      · intro k
        rw [AList.mem_insert, hids, h.ids]
        constructor
        · rintro (rfl | ⟨j, hj, rfl⟩)
          · exact ⟨id, by simp, rfl⟩
          · exact ⟨j, by simp [hj], rfl⟩
        · rintro ⟨j, hj, rfl⟩
          rcases List.mem_append.mp hj with hj | hj
          · exact .inr ⟨j, hj, rfl⟩
          · exact .inl (by rw [List.mem_singleton.mp hj])
      · intro k row hrow
        rw [Table.lookup_insert_iff] at hrow
        split at hrow
        · obtain rfl := Option.some.inj hrow
          exact Eq.symm ‹_›
        · exact h.sequence k row hrow
  | commandEnd =>
      refine h.of_same_ids (by simp [htype]) (fun k => ?_) fun k row hrow => ?_
      · rw [← AList.lookup_isSome, ← AList.lookup_isSome, hlookup, rowAfter]
        split <;> simp [htype]
      · rw [hlookup, rowAfter] at hrow
        split at hrow
        · simp only [htype, reduceCtorEq, if_false, Option.map_eq_some_iff] at hrow
          obtain ⟨old, hold, rfl⟩ := hrow
          exact h.sequence k old hold
        · exact h.sequence k row hrow
  | processExec | processFork | processExit | fileOpen | fileRead | fileWrite | networkConnect
    | localIpcConnect =>
      simp only [htype, Except.ok.injEq] at hstep
      subst hstep
      exact h.of_same_ids (by simp [htype]) (fun k => Iff.rfl) h.sequence

theorem commandTable_fold {es : List Event} {commands : Table ℤ CommandRow}
    (hes : ∀ e ∈ es, e.Storable) (h : es.foldlM commandsAfter ∅ = .ok commands) :
    CommandTable es commands := by
  refine Transducer.foldlM_induction
    (motive := fun past t => (∀ e ∈ past, e.Storable) → CommandTable past t) ?_ ?_ h hes
  · intro _
    exact ⟨List.nodup_nil, by simp [startedIds], by simp [startedIds], by simp⟩
  · intro past t e t' ih hstep hpast
    exact (ih fun e' he' => hpast e' (by simp [he'])).next (hpast e (by simp)) hstep

/-- The table is written without a throw exactly when no id is started twice
and every started id fits the signed columns. -/
theorem commands_fold_ok_iff {es : List Event} (hes : ∀ e ∈ es, e.Storable) :
    (∃ commands, es.foldlM commandsAfter ∅ = .ok commands) ↔
      (startedIds es).Nodup ∧ ∀ id ∈ startedIds es, id.toNat < 2 ^ 63 := by
  constructor
  · rintro ⟨commands, h⟩
    exact ⟨(commandTable_fold hes h).nodup, (commandTable_fold hes h).bounded⟩
  · induction es using List.reverseRecOn with
    | nil => exact fun _ => ⟨∅, rfl⟩
    | append_singleton es e ih =>
        rintro ⟨hnodup, hbounded⟩
        rw [startedIds_append] at hnodup hbounded
        have hpast : ∀ e' ∈ es, e'.Storable := fun e' he' => hes e' (by simp [he'])
        obtain ⟨commands, hcommands⟩ := ih hpast
          ⟨hnodup.of_append_left, fun id hid => hbounded id (by simp [hid])⟩
        have htable := commandTable_fold hpast hcommands
        obtain ⟨commands', hlast⟩ : ∃ commands', commandsAfter commands e = .ok commands' := by
          unfold commandsAfter
          cases htype : e.type with
          | commandStart =>
              obtain ⟨id, hid, hsequence⟩ := (hes e (by simp)).start htype
              rw [startedIds_singleton_of_start htype hid] at hnodup hbounded
              have hlt : id.toNat < 2 ^ 63 := hbounded id (by simp)
              have hfresh : (id.toNat : ℤ) ∉ commands := by
                rw [htable.ids]
                rintro ⟨j, hj, hjid⟩
                have hj' : j = id := UInt64.toNat_inj.mp (by exact_mod_cast hjid)
                exact (List.disjoint_of_nodup_append hnodup) hj (by simp [hj'])
              refine ⟨_, (startCommand_ok_iff hid hsequence).mpr
                ⟨hlt, hfresh, fun other hother hseq => hfresh ?_, rfl⟩⟩
              -- the sequence of a row is its key
              obtain ⟨k, row⟩ := other
              have hrow : commands.lookup k = some row := AList.mem_lookup_iff.mpr hother
              have hk : k = id.toNat := (htable.sequence k row hrow).symm.trans hseq
              rw [← hk, ← AList.lookup_isSome, hrow]
              rfl
          | commandEnd =>
              obtain ⟨id, hid⟩ := Option.isSome_iff_exists.mp ((hes e (by simp)).stop htype)
              exact ⟨commands.modify (asI64 id) (endRow e), by simp only [endCommand, hid]⟩
          | processExec | processFork | processExit | fileOpen | fileRead | fileWrite
            | networkConnect | localIpcConnect => exact ⟨commands, rfl⟩
        exact ⟨commands', Transducer.foldlM_append_ok_iff.mpr ⟨commands, hcommands,
          Transducer.foldlM_cons_ok_iff.mpr ⟨commands', hlast, rfl⟩⟩⟩

theorem processes_fold_ok {es : List Event} (hes : ∀ e ∈ es, e.Storable)
    (processes : Table ℤ ProcessRow) :
    ∃ processes', es.foldlM processesAfter processes = .ok processes' := by
  induction es generalizing processes with
  | nil => exact ⟨processes, rfl⟩
  | cons e es ih =>
      obtain ⟨middle, hfirst⟩ := (hes e (by simp)).process processes
      obtain ⟨processes', hrest⟩ := ih (fun e' he' => hes e' (by simp [he'])) middle
      exact ⟨processes', Transducer.foldlM_cons_ok_iff.mpr ⟨middle, hfirst, hrest⟩⟩

/-- A recording is stored without a throw exactly when its commands are. -/
theorem emitAll_ok_iff_startedIds (run : RunMetadata) {es : List Event}
    (hes : ∀ e ∈ es, e.Storable) :
    (∃ capsule, emitAll (create run) es = .ok capsule) ↔
      (startedIds es).Nodup ∧ ∀ id ∈ startedIds es, id.toNat < 2 ^ 63 := by
  rw [← commands_fold_ok_iff hes]
  constructor
  · rintro ⟨capsule, h⟩
    exact ⟨_, commands_emitAll h⟩
  · rintro ⟨commands, h⟩
    obtain ⟨processes, hprocesses⟩ := processes_fold_ok hes ∅
    exact ⟨_, emitAll_ok_iff.mpr ⟨commands, processes, h, hprocesses, rfl⟩⟩

end Whyrun
