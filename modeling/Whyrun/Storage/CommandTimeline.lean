import Whyrun.Execution.StartTime
import Whyrun.Model.Show
import Whyrun.Storage.Recording

/-!
The timeline of one command. Every event of a command is at or after its
start, so the ordered query of `show_timeline` lists the start first and no
offset is negative, as long as the times fit the signed column.
-/

namespace Whyrun

open ByteText ExecutionState Relational CapsuleWriter

/-! ### The order of the timeline -/

theorem timelineLE_trans {a b c : EventRow} (hab : timelineLE a b) (hbc : timelineLE b c) :
    timelineLE a c := by
  unfold timelineLE at *
  omega

theorem timelineLE_total (a b : EventRow) : timelineLE a b ∨ timelineLE b a := by
  unfold timelineLE
  omega

instance : Std.Total timelineLE := ⟨timelineLE_total⟩

instance : IsTrans EventRow timelineLE := ⟨fun _ _ _ => timelineLE_trans⟩

theorem mem_timelineRows {capsule : Capsule} {f : CommandFilter} {row : EventRow} :
    row ∈ timelineRows capsule f ↔ row ∈ capsule.events ∧ inCommand f row = true := by
  rw [timelineRows, List.mem_insertionSort, List.mem_filter]

/-- The first row of the timeline precedes every row. -/
theorem timelineRows_head {capsule : Capsule} {f : CommandFilter} {row : EventRow}
    (hrow : row ∈ timelineRows capsule f) :
    ∃ first ∈ timelineRows capsule f, (timelineRows capsule f).head? = some first ∧
      timelineLE first row := by
  have hsorted : (timelineRows capsule f).Pairwise timelineLE := List.pairwise_insertionSort _ _
  cases hrows : timelineRows capsule f with
  | nil =>
      rw [hrows] at hrow
      contradiction
  | cons first rest =>
      rw [hrows] at hrow hsorted
      refine ⟨first, by simp, rfl, ?_⟩
      rcases List.mem_cons.mp hrow with rfl | hrest
      · exact .inr ⟨rfl, .inr ⟨rfl, le_refl _⟩⟩
      · exact (List.pairwise_cons.mp hsorted).1 row hrest

/-! ### The start time of a command -/

/-- A row of the table has the time of a start of its command. -/
theorem startNs_of_lookup {commands : Table ℤ CommandRow} {es : List Event}
    (hes : ∀ e ∈ es, e.Storable) (h : es.foldlM commandsAfter ∅ = .ok commands) {k : ℤ}
    {row : CommandRow} (hrow : commands.lookup k = some row) :
    ∃ s ∈ es, s.type = .commandStart ∧ s.commandId.map asI64 = some k ∧
      row.startNs = asI64 s.timestampNs := by
  rw [lookup_commands hes h, AList.lookup_empty] at hrow
  clear h hes
  induction es using List.reverseRecOn generalizing row with
  | nil => contradiction
  | append_singleton es e ih =>
      have hpast : ∀ row', es.foldl (rowAfter k) none = some row' → row'.startNs = row.startNs →
          ∃ s ∈ es ++ [e], s.type = .commandStart ∧ s.commandId.map asI64 = some k ∧
            row.startNs = asI64 s.timestampNs := by
        intro row' hrow' hstart
        obtain ⟨s, hs, htype, hid, hns⟩ := ih hrow'
        exact ⟨s, List.mem_append_left _ hs, htype, hid, hstart ▸ hns⟩
      rw [List.foldl_append, List.foldl_cons, List.foldl_nil, rowAfter] at hrow
      split at hrow
      · split at hrow
        · obtain rfl := Option.some.inj hrow
          exact ⟨e, by simp, ‹_›, ‹_›, rfl⟩
        · split at hrow
          · obtain ⟨row', hrow', rfl⟩ := Option.map_eq_some_iff.mp hrow
            exact hpast row' hrow' rfl
          · exact hpast row hrow rfl
      · exact hpast row hrow rfl

theorem row_of_started {run : RunMetadata} {capsule : Capsule} {es : List Event}
    (hes : ∀ e ∈ es, e.Storable) (h : emitAll (create run) es = .ok capsule) {s : Event}
    (hs : s ∈ es) (htype : s.type = .commandStart) {c : UInt64} (hc : s.commandId = some c) :
    ∃ row, capsule.commands.lookup (asI64 c) = some row := by
  have htable := commandTable_fold hes (commands_emitAll h)
  have hmem : c ∈ startedIds es := List.mem_filterMap.mpr ⟨s, hs, by rw [if_pos htype, hc]⟩
  rw [asI64_of_lt (htable.bounded c hmem)]
  exact Option.isSome_iff_exists.mp
    (AList.lookup_isSome.mpr ((htable.ids _).mpr ⟨c, hmem, rfl⟩))

/-! ### The timeline of a command -/

variable {root : Pid} {cwd : Bytes} {startNs : UInt64} {ns : List Notification}
  {σ : ExecutionState} {es : List Event}

theorem startBound_record (htimes : ns.Pairwise fun m n => m.timestampNs ≤ n.timestampNs)
    (hids : (armedIds ns).Nodup) (hrun : record root cwd none startNs ns = .ok (σ, es)) :
    StartBound ns σ es := by
  obtain ⟨out, hrest, rfl⟩ := (record_ok_iff ..).mp hrun
  exact startBound_run (legal_timed htimes hids) hrest

/-- Timestamps below 2⁶³ are stored in their order. -/
theorem asI64_le {a b : UInt64} (ha : a.toNat < 2 ^ 63) (hb : b.toNat < 2 ^ 63) (h : a ≤ b) :
    asI64 a ≤ asI64 b := by
  rw [asI64_of_lt ha, asI64_of_lt hb]
  exact_mod_cast UInt64.le_iff_toNat_le.mp h

/-- What `show --command --events` prints for a started command: its start
first, and no event before it. -/
structure StartsFirst (capsule : Capsule) (id : ℤ) : Prop where
  shown : ∃ header start, showCapsule capsule true (some id) =
      .ok (header, showTimeline capsule start (some id)) ∧
    ∀ line ∈ showTimeline capsule start (some id), 0 ≤ line.offsetNs
  first : ∃ row, (timelineRows capsule (some id)).head? = some row ∧
    row.type = eventTypeName .commandStart

theorem startsFirst_of_bound (h : StartBound ns σ es) (hes : ∀ e ∈ es, e.Storable)
    (hsmall : ∀ n ∈ ns, n.timestampNs.toNat < 2 ^ 63) {run : RunMetadata} {capsule : Capsule}
    (hcapsule : emitAll (create run) es = .ok capsule) (result : CollectionResult) {s : Event}
    (hs : s ∈ es) (htype : s.type = .commandStart) {c : UInt64} (hc : s.commandId = some c) :
    StartsFirst (finish capsule result) (asI64 c) := by
  obtain ⟨row, hrow⟩ := row_of_started hes hcapsule hs htype hc
  obtain ⟨start, hstart, hstartType, hstartId, hstartNs⟩ :=
    startNs_of_lookup hes (commands_emitAll hcapsule) hrow
  obtain ⟨c', hc', hcc'⟩ := Option.map_eq_some_iff.mp hstartId
  obtain rfl : c' = c := asI64_injective hcc'
  have hevents : (finish capsule result).events = eventRows 0 es := by
    rw [← events_recording hcapsule]
    rfl
  have hbelow : ∀ e ∈ es, e.timestampNs.toNat < 2 ^ 63 := by
    intro e he
    obtain ⟨n, hn, htime⟩ := h.times e he
    rw [htime]
    exact hsmall n hn
  -- no row of the command is before the start
  have hbound : ∀ r ∈ timelineRows (finish capsule result) (some (asI64 c')),
      row.startNs ≤ r.timestampNs := by
    intro r hr
    obtain ⟨hmem, hin⟩ := mem_timelineRows.mp hr
    rw [hevents] at hmem
    obtain ⟨i, e, hi, rfl⟩ := mem_eventRows hmem
    have he : e ∈ es := List.mem_of_getElem? hi
    have hid : e.commandId.map asI64 = some (asI64 c') := of_decide_eq_true hin
    obtain ⟨c'', hc'', hcc''⟩ := Option.map_eq_some_iff.mp hid
    obtain rfl : c'' = c' := asI64_injective hcc''
    rw [hstartNs]
    exact asI64_le (hbelow start hstart) (hbelow e he)
      (h.started start hstart hstartType e he (hc''.trans hc'.symm))
  -- the row of the start is among them
  obtain ⟨i, hi⟩ := List.mem_iff_getElem?.mp hstart
  have hstartRow : eventRow (i + 1) start ∈
      timelineRows (finish capsule result) (some (asI64 c')) := by
    refine mem_timelineRows.mpr ⟨?_, ?_⟩
    · rw [hevents]
      obtain ⟨hlt, hget⟩ := List.getElem?_eq_some_iff.mp hi
      exact List.mem_mapIdx.mpr ⟨i, hlt, by rw [hget, Nat.zero_add]⟩
    · exact decide_eq_true hstartId
  obtain ⟨first, hfirst, hhead, hle⟩ := timelineRows_head hstartRow
  have hfirstNs := hbound first hfirst
  constructor
  · have hheader : (finish capsule result).commands.lookup (asI64 c') = some row := hrow
    obtain ⟨header, hheader'⟩ : ∃ header,
        showCommandHeader (finish capsule result) (asI64 c') = .ok (header, row.startNs) := by
      simp only [showCommandHeader, hheader]
      exact ⟨_, rfl⟩
    refine ⟨header ++ showSections (finish capsule result) (some (asI64 c')), row.startNs, ?_, ?_⟩
    · simp only [showCapsule, hheader', Bind.bind, Except.bind, if_true]
    intro line hline
    obtain ⟨r, hr, rfl⟩ := List.mem_map.mp hline
    exact Int.sub_nonneg.mpr (hbound r hr)
  · refine ⟨first, hhead, ?_⟩
    have hrank : startRank (eventRow (i + 1) start) = 0 := by
      simp [startRank, eventRow, hstartType]
    have hfirstRank : startRank first = 0 := by
      have hns : (eventRow (i + 1) start).timestampNs = row.startNs := hstartNs.symm
      rcases hle with hlt | ⟨-, hlt | ⟨heq, -⟩⟩
      · omega
      · omega
      · omega
    by_contra htype'
    simp [startRank, htype'] at hfirstRank

/-- The timeline of a command starts with its start: no event of a session
with ordered times and distinct armed ids is before the start of its command,
and with times that fit the signed column the start is printed first. -/
theorem command_timeline (htimes : ns.Pairwise fun m n => m.timestampNs ≤ n.timestampNs)
    (hids : (armedIds ns).Nodup) (hrun : record root cwd none startNs ns = .ok (σ, es)) :
    (∀ s ∈ es, s.type = .commandStart → ∀ e ∈ es, e.commandId = s.commandId →
      s.timestampNs ≤ e.timestampNs) ∧
    ((∀ n ∈ ns, n.timestampNs.toNat < 2 ^ 63) →
      ∀ (run : RunMetadata) (capsule : Capsule), emitAll (create run) es = .ok capsule →
      ∀ s ∈ es, s.type = .commandStart → ∀ c, s.commandId = some c → ∀ result,
        StartsFirst (finish capsule result) (asI64 c)) := by
  have h := startBound_record htimes hids hrun
  refine ⟨h.started, fun hsmall run capsule hcapsule s hs htype c hc result => ?_⟩
  exact startsFirst_of_bound h (storable_record hrun) hsmall hcapsule result hs htype hc

/-- A command that starts at time 1 and ends at the given time. -/
def sampleTimes (endNs : UInt64) : List Notification :=
  [.marker 7 { type := .arm, id := 1 } 1,
    .marker 7 { type := .start, id := 1, text := lit "ls" } 1,
    .marker 7 { type := .stop, id := 1 } endNs]

def sampleTimesEvents (endNs : UInt64) : List Event :=
  [commandStartEvent 7 7 1 (lit "ls") [] 1, commandEndEvent 7 7 (some 1) 0 [] endNs]

theorem record_sampleTimes (endNs : UInt64) :
    ∃ σ, record 7 (lit "/") none 0 (sampleTimes endNs) = .ok (σ, sampleTimesEvents endNs) :=
  ⟨_, rfl⟩

theorem emitAll_sampleTimes (endNs : UInt64) :
    ∃ capsule, emitAll (create sampleRun) (sampleTimesEvents endNs) = .ok capsule := by
  obtain ⟨σ, hrun⟩ := record_sampleTimes endNs
  exact (emitAll_ok_iff_startedIds _ (storable_record hrun)).mpr
    ⟨by simp [startedIds, sampleTimesEvents, commandStartEvent, commandEndEvent],
      by simp [startedIds, sampleTimesEvents, commandStartEvent, commandEndEvent]⟩

/-- A time of 2⁶³ is stored as a negative number: the end of the command is
then listed before its start. -/
theorem large_time_before_start :
    ∃ σ es, record 7 (lit "/") none 0 (sampleTimes 9223372036854775808) = .ok (σ, es) ∧
      (sampleTimes 9223372036854775808).Pairwise (fun m n => m.timestampNs ≤ n.timestampNs) ∧
      (armedIds (sampleTimes 9223372036854775808)).Nodup ∧
      ∃ capsule, emitAll (create sampleRun) es = .ok capsule ∧
        ∀ result, ¬ StartsFirst (finish capsule result) 1 := by
  obtain ⟨σ, hrun⟩ := record_sampleTimes 9223372036854775808
  obtain ⟨capsule, hcapsule⟩ := emitAll_sampleTimes 9223372036854775808
  refine ⟨σ, _, hrun, by decide, by decide, capsule, hcapsule, fun result h => ?_⟩
  obtain ⟨row, hrow, htype⟩ := h.first
  have hevents : (finish capsule result).events =
      eventRows 0 (sampleTimesEvents 9223372036854775808) := by
    rw [← events_recording hcapsule]
    rfl
  have hhead : (((eventRows 0 (sampleTimesEvents 9223372036854775808)).filter
      (inCommand (some 1))).insertionSort timelineLE).head?.map EventRow.type =
        some (eventTypeName .commandEnd) := by decide
  rw [timelineRows, hevents] at hrow
  rw [hrow, Option.map_some, htype] at hhead
  exact absurd (Option.some.inj hhead) (by decide)

theorem command_timeline_sample :
    ∃ σ es capsule, record 7 (lit "/") none 0 (sampleTimes 5) = .ok (σ, es) ∧
      emitAll (create sampleRun) es = .ok capsule ∧ StartsFirst (finish capsule {}) 1 := by
  obtain ⟨σ, hrun⟩ := record_sampleTimes 5
  obtain ⟨capsule, hcapsule⟩ := emitAll_sampleTimes 5
  exact ⟨σ, _, capsule, hrun, hcapsule,
    (command_timeline (by decide) (by decide) hrun).2 (by decide) _ capsule hcapsule
      (commandStartEvent 7 7 1 (lit "ls") [] 1) (by decide) rfl 1 rfl {}⟩

end Whyrun
