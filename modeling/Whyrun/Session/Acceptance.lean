import Whyrun.Model.Show
import Whyrun.Session.Pipeline
import Whyrun.Storage.CommandLife

/-!
What the front end accepts against what the store can keep. The decoder
takes any id from 1 to 2⁶⁴ - 1 and never looks at earlier ids; the commands
table needs distinct ids that fit a signed 64-bit column. A session is kept
exactly when its start records name such ids.
-/

namespace Whyrun

open ByteText Relational ExecutionState CommandProtocol CapsuleWriter

/-! ### Started commands of a run -/

section started

variable {σ σ' : ExecutionState} {n : Notification} {es : List Event}

theorem startedIds_eq_nil {es : List Event} (h : ∀ e ∈ es, e.type ≠ .commandStart) :
    startedIds es = [] := by
  rw [startedIds, List.filterMap_eq_nil_iff]
  intro e he
  rw [if_neg (h e he)]

/-- Only a start marker starts a command. -/
theorem Effect.startedIds_of_not_marker (he : Effect σ n σ' es) (hn : n.isMarker = false) :
    startedIds es = [] := by
  refine startedIds_eq_nil fun e hmem => ?_
  cases he with
  | markerIgnored | arm | start | stop => contradiction
  | createdUnknown | createdThread | exitedThread | exitedUnknown | syscallUnknown =>
      contradiction
  | exec | execDiscovered | createdProcess | exited | exitedIdle =>
      rw [List.mem_singleton.mp hmem]
      exact fun h => by contradiction
  | exitedRunning =>
      simp only [List.mem_cons, List.not_mem_nil, or_false] at hmem
      rcases hmem with rfl | rfl <;> exact fun h => by contradiction
  | @syscall memory call P found =>
      obtain ⟨raw, hraw, rfl⟩ := List.mem_map.mp hmem
      obtain ⟨type, resource, metadata, hio, rfl⟩ :=
        (syscallExit_spec memory P call).event raw (Option.mem_toList.mp hraw)
      intro htype
      rw [show type = .commandStart from htype] at hio
      contradiction

/-- An accepted marker of the live root starts the command that it names. -/
theorem Effect.startedIds_marker {tid : Pid} {m : CommandMarker} {t : UInt64}
    (he : Effect σ (.marker tid m t) σ' es) (hkeyed : σ.Keyed) (hroot : RootHolds σ)
    (htid : σ.processForThread tid = σ.rootPid) : startedIds es = startIds [m] := by
  obtain ⟨R, hR, -⟩ := hroot.held
  cases he with
  | markerIgnored other =>
      rw [htid] at other
      exact absurd (hkeyed _ _ hR) (other R hR)
  | arm _ _ type => simp [startedIds, startIds, type]
  | start _ _ type => simp [startedIds, startIds, type, commandStartEvent]
  | stop _ _ type => simp [startedIds, startIds, type, commandEndEvent]

/-- The commands that a legal run starts are those of its start markers. -/
theorem startedIds_run {root : Pid} {cwd : Bytes} {startNs : UInt64} {ns : List Notification}
    (legal : Transducer.Legal (LifecycleAdmits root) ns)
    (hroot : ∀ n ∈ ns, n.isMarker = true → n.task = root)
    (hrun : Transducer.run notify (initialState root cwd none startNs) ns = .ok (σ, es)) :
    startedIds es = startIds (markersOf ns) := by
  have hinv := Transducer.run_induction
    (motive := fun past σ out =>
      LifecycleInv root (initialEvents root cwd none startNs) past σ out ∧
      ((∀ n ∈ past, n.isMarker = true → n.task = root) →
        startedIds out = startIds (markersOf past)))
    ⟨lifecycle_run (Transducer.legal_nil _) rfl, fun _ => rfl⟩ ?_ legal hrun
  · exact hinv.2 hroot
  · rintro past σ out n σ' o - ⟨hinv, hids⟩ hadmits hstep
    have he := notify_effect hstep
    refine ⟨hinv.next hadmits he, fun htask => ?_⟩
    have hpast := hids fun m hm => htask m (by simp [hm])
    rw [startedIds_append, hpast, markersOf_append, startIds, startIds, List.filterMap_append]
    congr 1
    cases hmarker : n.isMarker with
    | false =>
        rw [he.startedIds_of_not_marker hmarker]
        cases n <;> first | rfl | contradiction
    | true =>
        have hlive := hinv.alive (hadmits.marker hmarker)
        cases n with
        | marker tid m t =>
            obtain rfl : tid = σ.rootPid :=
              (htask (.marker tid m t) (by simp) rfl).trans hinv.rootPid.symm
            exact he.startedIds_marker hinv.keyed hlive hlive.leader_eq
        | _ => contradiction

end started

/-! ### An end follows its start -/

theorem start_mem_of_alternates {ms : List (EventType × Option UInt64)}
    (ms' : List (EventType × Option UInt64)) {o : Option UInt64} {id : UInt64}
    (h : Alternates (ms ++ (.commandEnd, some id) :: ms') o) :
    (.commandStart, some id) ∈ ms := by
  obtain ⟨ids, hids⟩ := h
  induction ids generalizing ms with
  | nil =>
      have hmem : (EventType.commandEnd, some id) ∈
          o.toList.map fun id => (EventType.commandStart, some id) := by
        rw [List.flatMap_nil, List.nil_append] at hids
        rw [← hids]
        simp
      simp at hmem
  | cons i ids ih =>
      simp only [List.flatMap_cons, commandPair, List.cons_append, List.nil_append] at hids
      cases ms with
      | nil => simp at hids
      | cons x ms =>
          cases ms with
          | nil =>
              simp only [List.cons_append, List.nil_append, List.cons.injEq, Prod.mk.injEq,
                true_and, Option.some.injEq] at hids
              obtain ⟨rfl, rfl, -⟩ := hids
              simp
          | cons y ms =>
              simp only [List.cons_append, List.cons.injEq] at hids
              have hrest : (EventType.commandStart, some id) ∈ ms :=
                ih (by simpa [commandPair] using hids.2.2)
              simp [hrest]

theorem mem_startedIds_of_mem_marks {es : List Event} {id : UInt64}
    (h : (EventType.commandStart, some id) ∈ marks es) : id ∈ startedIds es := by
  obtain ⟨e, he, heq⟩ := List.mem_map.mp h
  obtain ⟨htype, hid⟩ := Prod.mk.inj heq
  exact List.mem_filterMap.mpr ⟨e, List.mem_of_mem_filter he, by rw [if_pos htype, hid]⟩

/-! ### What it means to keep the commands -/

/-- The capsule stores the recording `es`: one row for each started command
under its id, every end recorded in the row of its own command, and each
command open to `show --command`. -/
structure CommandsKept (run : RunMetadata) (es : List Event) (capsule : Capsule) : Prop where
  stored : emitAll (create run) es = .ok capsule
  rows : capsule.commands.keys.Perm ((startedIds es).map fun id => (id.toNat : ℤ))
  sequence : ∀ k row, capsule.commands.lookup k = some row → row.sequence = k
  ends : ∀ past e rest, es = past ++ e :: rest → e.type = .commandEnd →
    ∃ (id : UInt64) (before after : Capsule), e.commandId = some id ∧
      emitAll (create run) past = .ok before ∧ emit before e = .ok after ∧
      (∃ row, before.commands.lookup (id.toNat : ℤ) = some row) ∧
      ∀ k, after.commands.lookup k =
        if k = id.toNat then (before.commands.lookup k).map (endRow e)
        else before.commands.lookup k
  selected : ∀ id ∈ startedIds es, ∀ result, ∃ v row out,
    parseCommandId (decimal id.toNat) = some v ∧
    (finish capsule result).commands.lookup v = some row ∧ row.sequence = id.toNat ∧
    showCapsule (finish capsule result) true (some v) = .ok out

theorem parseCommandId_decimal {n : ℕ} (hpos : 0 < n) (hlt : n < 2 ^ 63) :
    parseCommandId (decimal n) = some (n : ℤ) := by
  rw [parseCommandId, decimal_of_nonneg (by omega), Int.toNat_natCast,
    fromCharsSigned_decimalNat, if_pos hlt]
  simp only [ite_eq_right_iff]
  omega

theorem showCapsule_of_lookup {capsule : Capsule} {id : ℤ} {row : CommandRow}
    (h : capsule.commands.lookup id = some row) (events : Bool) :
    ∃ out, showCapsule capsule events (some id) = .ok out := by
  simp only [showCapsule, showCommandHeader, h, Bind.bind, Except.bind]
  exact ⟨_, rfl⟩

theorem rows_perm {es : List Event} {commands : Table ℤ CommandRow}
    (h : CommandTable es commands) :
    commands.keys.Perm ((startedIds es).map fun id => (id.toNat : ℤ)) := by
  have hinj : Function.Injective fun id : UInt64 => (id.toNat : ℤ) := by
    intro a b hab
    exact UInt64.toNat_inj.mp (Int.ofNat_inj.mp hab)
  refine (List.perm_ext_iff_of_nodup commands.nodupKeys (h.nodup.map hinj)).mpr fun k => ?_
  rw [List.mem_map, ← h.ids]
  exact AList.mem_keys.symm

theorem ends_of_emitAll {run : RunMetadata} {es : List Event} {capsule : Capsule}
    {o : Option UInt64} (hes : ∀ e ∈ es, e.Storable) (halternates : Alternates (marks es) o)
    (h : emitAll (create run) es = .ok capsule) {past rest : List Event} {e : Event}
    (hsplit : es = past ++ e :: rest) (htype : e.type = .commandEnd) :
    ∃ (id : UInt64) (before after : Capsule), e.commandId = some id ∧
      emitAll (create run) past = .ok before ∧ emit before e = .ok after ∧
      (∃ row, before.commands.lookup (id.toNat : ℤ) = some row) ∧
      ∀ k, after.commands.lookup k =
        if k = id.toNat then (before.commands.lookup k).map (endRow e)
        else before.commands.lookup k := by
  subst hsplit
  have he : e.Storable := hes e (by simp)
  obtain ⟨id, hid⟩ := Option.isSome_iff_exists.mp (he.stop htype)
  obtain ⟨before, hbefore, hrest⟩ := emitAll_append.mp h
  obtain ⟨after, hafter, -⟩ := Transducer.foldlM_cons_ok_iff.mp hrest
  have htable := commandTable_fold (fun e' he' => hes e' (by simp [he']))
    (commands_emitAll hbefore)
  have hmem : id ∈ startedIds past := by
    refine mem_startedIds_of_mem_marks (start_mem_of_alternates (marks rest) (o := o) ?_)
    rw [marks_append, marks_cons] at halternates
    simpa [Event.isCommandMark, htype, hid] using halternates
  have hlt := htable.bounded id hmem
  obtain ⟨commands, processes, hcommands, -, rfl⟩ := emit_ok_iff.mp hafter
  refine ⟨id, before, _, hid, hbefore, hafter, ?_, fun k => ?_⟩
  · exact Option.isSome_iff_exists.mp
      (AList.lookup_isSome.mpr ((htable.ids _).mpr ⟨id, hmem, rfl⟩))
  · rw [lookup_commandsAfter he hcommands, rowAfter, hid, Option.map_some, asI64_of_lt hlt]
    by_cases hk : (id.toNat : ℤ) = k
    · simp [hk, htype]
    · simp [hk, Ne.symm hk]

theorem selected_of_emitAll {run : RunMetadata} {es : List Event} {capsule : Capsule}
    (hes : ∀ e ∈ es, e.Storable) (h : emitAll (create run) es = .ok capsule) {id : UInt64}
    (hid : id ∈ startedIds es) (hpos : 0 < id.toNat) (result : CollectionResult) :
    ∃ v row out, parseCommandId (decimal id.toNat) = some v ∧
      (finish capsule result).commands.lookup v = some row ∧ row.sequence = id.toNat ∧
      showCapsule (finish capsule result) true (some v) = .ok out := by
  have htable := commandTable_fold hes (commands_emitAll h)
  obtain ⟨row, hrow⟩ := Option.isSome_iff_exists.mp
    (AList.lookup_isSome.mpr ((htable.ids _).mpr ⟨id, hid, rfl⟩))
  have hfinish : (finish capsule result).commands.lookup (id.toNat : ℤ) = some row := hrow
  obtain ⟨out, hout⟩ := showCapsule_of_lookup hfinish true
  exact ⟨id.toNat, row, out, parseCommandId_decimal hpos (htable.bounded id hid), hfinish,
    htable.sequence _ row hrow, hout⟩

/-! ### Sessions -/

variable {root : Pid} {cwd : Bytes} {startNs : UInt64} {inputs : List SessionInput}
  {session : SessionState} {es : List Event}

/-- The events of a session, as the store sees them. -/
theorem session_events (legal : Transducer.Legal (SessionAdmits root) inputs)
    (hrun : Transducer.run (SessionState.step root)
      { execution := initialState root cwd none startNs } inputs = .ok (session, es)) :
    (∀ e ∈ es, e.Storable) ∧ (∃ o, Alternates (marks es) o) ∧
      (startedIds es).map UInt64.toNat = startNumbers (stream inputs) ∧
      ∀ id ∈ startedIds es, 0 < id.toNat := by
  obtain ⟨ns, htrace⟩ := exists_sessionTrace legal hrun
  have hids := startedIds_run htrace.legal htrace.fromRoot htrace.run
  refine ⟨storable_run htrace.run, ?_, ?_, ?_⟩
  · have halternates := (lifecycle_run htrace.legal htrace.run).alternates
    rw [initialEvents_eq] at halternates
    exact ⟨_, halternates⟩
  · rw [hids, startIds_of_consume htrace.decoded]
  · intro id hid
    rw [hids] at hid
    obtain ⟨m, hm, hmid⟩ := List.mem_filterMap.mp hid
    split at hmid
    · obtain rfl := Option.some.inj hmid
      exact id_pos_of_consume htrace.decoded hm
    · contradiction

/-- The commands of an accepted session are kept exactly when the start
records of its stream name distinct ids below 2⁶³. -/
theorem commands_kept_iff (legal : Transducer.Legal (SessionAdmits root) inputs)
    (hrun : Transducer.run (SessionState.step root)
      { execution := initialState root cwd none startNs } inputs = .ok (session, es))
    (run : RunMetadata) :
    (∃ capsule, CommandsKept run es capsule) ↔
      (startNumbers (stream inputs)).Nodup ∧
        ∀ k ∈ startNumbers (stream inputs), k < 2 ^ 63 := by
  obtain ⟨hes, ⟨o, halternates⟩, hnumbers, hpos⟩ := session_events legal hrun
  have hcondition : ((startedIds es).Nodup ∧ ∀ id ∈ startedIds es, id.toNat < 2 ^ 63) ↔
      (startNumbers (stream inputs)).Nodup ∧
        ∀ k ∈ startNumbers (stream inputs), k < 2 ^ 63 := by
    rw [← hnumbers, List.nodup_map_iff fun a b h => UInt64.toNat_inj.mp h]
    simp only [List.mem_map, forall_exists_index, and_imp, forall_apply_eq_imp_iff₂]
  rw [← hcondition, ← emitAll_ok_iff_startedIds run hes]
  constructor
  · rintro ⟨capsule, hkept⟩
    exact ⟨capsule, hkept.stored⟩
  · rintro ⟨capsule, hstored⟩
    have htable := commandTable_fold hes (commands_emitAll hstored)
    exact ⟨capsule, hstored, rows_perm htable, htable.sequence,
      fun past e rest hsplit htype => ends_of_emitAll hes halternates hstored hsplit htype,
      fun id hid result => selected_of_emitAll hes hstored hid (hpos id hid) result⟩

/-- A session whose shell arms and starts one command under the given id. -/
def sampleSession (id : String) : List SessionInput :=
  [.write (field (lit "A") ++ field (lit id) ++ field (lit "/") ++ field [] ++
    field (lit "S") ++ field (lit id) ++ field (lit "/") ++ field (historyPrefix :: lit "ls")) 1]

theorem sampleSession_legal (id : String) :
    Transducer.Legal (SessionAdmits 7) (sampleSession id) :=
  (Transducer.legal_nil _).snoc (i := SessionInput.write _ 1) rfl

theorem exists_of_isOk {ε α : Type} {x : Except ε α} (h : x.isOk = true) :
    ∃ a, x = .ok a := by
  cases x with
  | error e => contradiction
  | ok a => exact ⟨a, rfl⟩

/-- The first id outside the signed range is accepted and cannot be kept. -/
theorem large_id_not_kept :
    ∃ session es, Transducer.run (SessionState.step 7)
        { execution := initialState 7 (lit "/") none 0 } (sampleSession "9223372036854775808") =
          .ok (session, es) ∧
      Transducer.Legal (SessionAdmits 7) (sampleSession "9223372036854775808") ∧
      ¬ ∃ capsule, CommandsKept sampleRun es capsule := by
  obtain ⟨⟨session, es⟩, hrun⟩ := exists_of_isOk (x := Transducer.run (SessionState.step 7)
    { execution := initialState 7 (lit "/") none 0 } (sampleSession "9223372036854775808")) rfl
  have legal := sampleSession_legal "9223372036854775808"
  obtain ⟨hes, -, hnumbers, -⟩ := session_events legal hrun
  refine ⟨session, es, hrun, legal, ?_⟩
  rintro ⟨capsule, hkept⟩
  obtain ⟨-, hbounded⟩ := (emitAll_ok_iff_startedIds _ hes).mp ⟨capsule, hkept.stored⟩
  have hstream : startNumbers (stream (sampleSession "9223372036854775808")) =
      [9223372036854775808] := by decide
  rw [hstream] at hnumbers
  obtain ⟨id, hid, hvalue⟩ := List.mem_map.mp
    (hnumbers ▸ List.mem_singleton_self (9223372036854775808 : ℕ))
  have hlt := hbounded id hid
  omega

/-- The command ends with status 2 before the next prompt. -/
def sampleEnded : List SessionInput :=
  sampleSession "1" ++
    [.write (field (lit "E") ++ field (lit "1") ++ field (lit "2") ++ field (lit "/srv")) 2]

theorem commands_kept_sample :
    ∃ session es, Transducer.run (SessionState.step 7)
        { execution := initialState 7 (lit "/") none 0 } sampleEnded = .ok (session, es) ∧
      ∃ capsule, CommandsKept sampleRun es capsule ∧
        capsule.commands.lookup 1 = some
          { sequence := 1, shellPid := 7, command := lit "ls", cwd := lit "/", startNs := 1
            endNs := some 2, endCwd := some (lit "/srv"), exitCode := some 2 } := by
  obtain ⟨session, es, hrun, hrow⟩ : ∃ session es, Transducer.run (SessionState.step 7)
        { execution := initialState 7 (lit "/") none 0 } sampleEnded = .ok (session, es) ∧
      (emitAll (create sampleRun) es).toOption.map (fun capsule => capsule.commands.lookup 1) =
        some (some
          { sequence := 1, shellPid := 7, command := lit "ls", cwd := lit "/", startNs := 1
            endNs := some 2, endCwd := some (lit "/srv"), exitCode := some 2 }) :=
    ⟨_, _, rfl, by decide +kernel⟩
  have legal : Transducer.Legal (SessionAdmits 7) sampleEnded :=
    (sampleSession_legal "1").snoc (i := SessionInput.write _ 2) rfl
  obtain ⟨capsule, hkept⟩ := (commands_kept_iff legal hrun sampleRun).mpr (by decide)
  rw [hkept.stored] at hrow
  exact ⟨session, es, hrun, capsule, hkept, Option.some.inj hrow⟩

end Whyrun
