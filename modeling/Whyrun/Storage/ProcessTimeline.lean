import Whyrun.Execution.Lifetimes
import Whyrun.Storage.Aggregation
import Whyrun.Storage.CommandTimeline
import Whyrun.Storage.ProcessTable

/-!
The timeline as the history of each process. `show --events` orders the rows
by their times; when the clock does not go back and its times fit the signed
column, every process is still made before it acts and ended after it, in the
timeline of the whole run and in that of one command.
-/

namespace Whyrun

open ByteText ExecutionState Relational CapsuleWriter

/-! ### Rows -/

/-- What a row says of the process with the pid. -/
def EventRow.lifeMark (p : Pid) (row : EventRow) : Option LifeMark :=
  if row.type = eventTypeName .processFork ∧ row.result = p.toInt then some .born
  else if row.pid = p.toInt then
    some (if row.type = eventTypeName .processExit then .gone else .acts)
  else none

theorem lifeMark_eventRow (p : Pid) (i : ℕ) (e : Event) :
    (eventRow i e).lifeMark p = e.lifeMark p := by
  have hresult : (eventRow i e).result = p.toInt ↔ e.result = p.toInt64 := by
    show e.result.toInt = p.toInt ↔ _
    rw [← Int64.toInt_inj, Int32.toInt_toInt64]
  have hpid : (eventRow i e).pid = p.toInt ↔ e.pid = p := Int32.toInt_inj
  have htype : ∀ type, (eventRow i e).type = eventTypeName type ↔ e.type = type :=
    fun type => eventTypeName_inj
  simp only [EventRow.lifeMark, Event.lifeMark, hresult, hpid, htype]

/-- The word of a pid in the rows of a view. -/
theorem filterMap_lifeMark_eventRows (p : Pid) (f : CommandFilter) (count : ℕ) (es : List Event) :
    ((eventRows count es).filter (inCommand f)).filterMap (EventRow.lifeMark p) =
      lifeMarks p (keptBy f) es := by
  induction es generalizing count with
  | nil => rfl
  | cons e es ih =>
      rw [eventRows_cons, lifeMarks, List.filter_cons, List.filter_cons, inCommand_eventRow]
      cases keptBy f e.commandId with
      | true =>
          rw [if_pos rfl, if_pos rfl, List.filterMap_cons, List.filterMap_cons, lifeMark_eventRow,
            ih, lifeMarks]
      | false => exact ih (count + 1)

/-! ### Times -/

/-- Command starts apart, an event has the time of its notification. -/
theorem Effect.timestampNs {σ σ' : ExecutionState} {n : Notification} {es : List Event}
    (he : Effect σ n σ' es) {e : Event} (hmem : e ∈ es) (htype : e.type ≠ .commandStart) :
    e.timestampNs = n.timestampNs := by
  cases he with
  | markerIgnored | arm | createdUnknown | createdThread | exitedThread | exitedUnknown
    | syscallUnknown => contradiction
  | start =>
      rw [List.mem_singleton.mp hmem] at htype
      contradiction
  | stop | exec | execDiscovered | createdProcess | exited | exitedIdle =>
      rw [List.mem_singleton.mp hmem]
      rfl
  | exitedRunning =>
      rcases List.mem_pair.mp hmem with rfl | rfl <;> rfl
  | @syscall memory call P found =>
      obtain ⟨raw, hraw, rfl⟩ := List.mem_map.mp hmem
      obtain ⟨type, resource, metadata, hio, rfl⟩ :=
        (syscallExit_spec memory P call).event raw (Option.mem_toList.mp hraw)
      rfl

theorem Effect.pid_of_commandStart {σ σ' : ExecutionState} {n : Notification} {es : List Event}
    (he : Effect σ n σ' es) {e : Event} (hmem : e ∈ es) (htype : e.type = .commandStart) :
    e.pid = σ.rootPid := by
  cases he with
  | markerIgnored | arm | createdUnknown | createdThread | exitedThread | exitedUnknown
    | syscallUnknown => contradiction
  | start found root =>
      rw [List.mem_singleton.mp hmem]
      exact root
  | stop | exec | execDiscovered | createdProcess | exited | exitedIdle =>
      rw [List.mem_singleton.mp hmem] at htype
      contradiction
  | exitedRunning =>
      rcases List.mem_pair.mp hmem with rfl | rfl <;> contradiction
  | @syscall memory call P found =>
      obtain ⟨raw, hraw, rfl⟩ := List.mem_map.mp hmem
      obtain ⟨type, resource, metadata, hio, rfl⟩ :=
        (syscallExit_spec memory P call).event raw (Option.mem_toList.mp hraw)
      obtain rfl : type = .commandStart := htype
      contradiction

/-- Command starts apart, the events are in the order of their times. -/
structure InTime (past : List Notification) (out : List Event) : Prop where
  times : ∀ e ∈ out, e.type ≠ .commandStart → ∃ n ∈ past, e.timestampNs = n.timestampNs
  ordered : out.Pairwise fun a b => a.type ≠ .commandStart → b.type ≠ .commandStart →
    a.timestampNs ≤ b.timestampNs

section times

variable {root : Pid} {cwd : Bytes} {rootCommand : Option Bytes} {startNs : UInt64}
  {ns : List Notification} {σ : ExecutionState} {es : List Event}

theorem InTime.next {past : List Notification} {out : List Event} {n : Notification}
    {σ' : ExecutionState} (h : InTime past out) (he : Effect σ n σ' es)
    (hlater : ∀ m ∈ past, m.timestampNs ≤ n.timestampNs) : InTime (past ++ [n]) (out ++ es) where
  times e hmem htype := by
    rcases List.mem_append.mp hmem with hold | hnew
    · obtain ⟨m, hm, htime⟩ := h.times e hold htype
      exact ⟨m, List.mem_append_left _ hm, htime⟩
    · exact ⟨n, by simp, he.timestampNs hnew htype⟩
  ordered := by
    refine List.pairwise_append.mpr ⟨h.ordered, ?_, fun a ha b hb hat hbt => ?_⟩
    · refine List.pairwise_iff_forall_sublist.mpr fun {a b} hsub hat hbt => ?_
      have ha : a ∈ es := hsub.subset (by simp)
      have hb : b ∈ es := hsub.subset (by simp)
      rw [he.timestampNs ha hat, he.timestampNs hb hbt]
      exact UInt64.le_refl _
    · obtain ⟨m, hm, htime⟩ := h.times a ha hat
      rw [htime, he.timestampNs hb hbt]
      exact hlater m hm

theorem inTime_record (htimes : ns.Pairwise fun m n => m.timestampNs ≤ n.timestampNs)
    (hrecord : record root cwd rootCommand startNs ns = .ok (σ, es)) : InTime ns es := by
  obtain ⟨out, hrun, rfl⟩ := (record_ok_iff root cwd rootCommand startNs).mp hrecord
  have hstart : InTime [] (initialEvents root cwd rootCommand startNs) := by
    rw [initialEvents_eq]
    cases rootCommand with
    | none => exact ⟨by simp, .nil⟩
    | some text => exact ⟨by simp [commandStartEvent], List.pairwise_singleton _ _⟩
  have hlegal : Transducer.Legal
      (fun past n => ∀ m ∈ past, m.timestampNs ≤ n.timestampNs) ns := by
    rintro past n rest rfl m hm
    exact (List.pairwise_append.mp htimes).2.2 m hm n (by simp)
  refine Transducer.run_induction
    (motive := fun past _ out => InTime past (initialEvents root cwd rootCommand startNs ++ out))
    (by simpa using hstart) ?_ hlegal hrun
  intro past σ out n σ' o _ hinv hlater hstep
  rw [← List.append_assoc]
  exact hinv.next (notify_effect hstep) hlater

/-- A command starts in the root. -/
theorem pid_of_commandStart (hrecord : record root cwd rootCommand startNs ns = .ok (σ, es))
    {e : Event} (hmem : e ∈ es) (htype : e.type = .commandStart) : e.pid = root := by
  obtain ⟨out, hrun, rfl⟩ := (record_ok_iff root cwd rootCommand startNs).mp hrecord
  have hlater : σ.rootPid = root ∧ ∀ e ∈ out, e.type = .commandStart → e.pid = root := by
    refine Transducer.run_invariant
      (motive := fun _ σ out => σ.rootPid = root ∧ ∀ e ∈ out, e.type = .commandStart → e.pid = root)
      ⟨initialState_rootPid .., by simp⟩ ?_ hrun
    rintro _ σ out n σ' o ⟨hroot, hold⟩ hstep
    have he := notify_effect hstep
    refine ⟨he.rootPid.trans hroot, fun e hmem htype => ?_⟩
    rcases List.mem_append.mp hmem with hmem | hmem
    · exact hold e hmem htype
    · exact (he.pid_of_commandStart hmem htype).trans hroot
  rcases List.mem_append.mp hmem with hfirst | hout
  · rw [initialEvents_eq] at hfirst
    obtain ⟨text, -, rfl⟩ := List.mem_map.mp hfirst
    rfl
  · exact hlater.2 e hout htype

end times

/-! ### The timeline -/

theorem pairwise_eventRows {R : EventRow → EventRow → Prop} {es : List Event} {count : ℕ}
    (h : es.Pairwise fun a b => ∀ i j, i < j → R (eventRow i a) (eventRow j b)) :
    (eventRows count es).Pairwise R := by
  induction es generalizing count with
  | nil => exact .nil
  | cons e es ih =>
      obtain ⟨hfirst, hrest⟩ := List.pairwise_cons.mp h
      rw [eventRows_cons]
      refine List.pairwise_cons.mpr ⟨fun row hrow => ?_, ih hrest⟩
      obtain ⟨i, e', hi, rfl⟩ := mem_eventRows hrow
      exact hfirst e' (List.mem_of_getElem? hi) _ _ (by omega)

/-- Two rows of a recording with one id are one row. -/
theorem eq_of_mem_eventRows {count : ℕ} {es : List Event} {a b : EventRow}
    (ha : a ∈ eventRows count es) (hb : b ∈ eventRows count es) (hid : a.id = b.id) : a = b := by
  obtain ⟨i, e, hi, rfl⟩ := mem_eventRows ha
  obtain ⟨j, e', hj, rfl⟩ := mem_eventRows hb
  obtain rfl : i = j := by
    have hindex : count + i + 1 = count + j + 1 := hid
    omega
  rw [Option.some.inj (hi.symm.trans hj)]

section timeline

variable {root p : Pid} {cwd : Bytes} {rootCommand : Option Bytes} {startNs : UInt64}
  {ns : List Notification} {σ : ExecutionState} {es : List Event} {run : RunMetadata}
  {capsule : Capsule}

/-- The rows of a pid are in the order of the log. -/
theorem filterMap_lifeMark_timelineRows
    (htimes : ns.Pairwise fun m n => m.timestampNs ≤ n.timestampNs)
    (hsmall : ∀ n ∈ ns, n.timestampNs.toNat < 2 ^ 63)
    (hrecord : record root cwd rootCommand startNs ns = .ok (σ, es)) (hp : p ≠ root)
    (hstore : emitAll (create run) es = .ok capsule) (f : CommandFilter) :
    (timelineRows capsule f).filterMap (EventRow.lifeMark p) = lifeMarks p (keptBy f) es := by
  have hmarked : ∀ rows : List EventRow, rows.filterMap (EventRow.lifeMark p) =
      (rows.filter fun row => (row.lifeMark p).isSome).filterMap (EventRow.lifeMark p) := by
    intro rows
    rw [List.filterMap_filter]
    congr 1
    funext row
    cases row.lifeMark p <;> rfl
  have htime := inTime_record htimes hrecord
  have hnot : ∀ e ∈ es, (e.lifeMark p).isSome = true → e.type ≠ .commandStart := by
    intro e hmem hmark htype
    have hpid := pid_of_commandStart hrecord hmem htype
    simp [Event.lifeMark, htype, hpid, Ne.symm hp] at hmark
  have hbelow : ∀ e ∈ es, e.type ≠ .commandStart → e.timestampNs.toNat < 2 ^ 63 := by
    intro e hmem htype
    obtain ⟨n, hn, heq⟩ := htime.times e hmem htype
    rw [heq]
    exact hsmall n hn
  have hordered : (eventRows 0 es).Pairwise fun a b => (a.lifeMark p).isSome = true →
      (b.lifeMark p).isSome = true → timelineLE a b := by
    refine pairwise_eventRows ?_
    refine htime.ordered.imp_of_mem fun {a b} ha hb hle i j hij hma hmb => ?_
    rw [lifeMark_eventRow] at hma hmb
    have hat := hnot a ha hma
    have hbt := hnot b hb hmb
    have hns : (eventRow i a).timestampNs ≤ (eventRow j b).timestampNs :=
      asI64_le (hbelow a ha hat) (hbelow b hb hbt) (hle hat hbt)
    have hrank : ∀ k e, e.type ≠ .commandStart → startRank (eventRow k e) = 1 :=
      fun k e htype => if_neg fun h => htype (eventTypeName_inj.mp h)
    have hid : (eventRow i a).id ≤ (eventRow j b).id := hij.le
    have hra := hrank i a hat
    have hrb := hrank j b hbt
    unfold timelineLE
    omega
  rw [← filterMap_lifeMark_eventRows p f 0 es, hmarked, hmarked ((eventRows 0 es).filter _),
    timelineRows, events_recording hstore, filter_insertionSort timelineLE]
  · rw [List.filter_filter, List.pairwise_filter]
    refine hordered.imp fun {a b} hle ha hb => ?_
    simp only [Bool.and_eq_true] at ha hb
    exact hle ha.1 hb.1
  · intro a ha b hb hab hba
    have hid : a.id = b.id := by
      unfold timelineLE at hab hba
      omega
    exact eq_of_mem_eventRows (List.mem_of_mem_filter (List.mem_of_mem_filter ha))
      (List.mem_of_mem_filter (List.mem_of_mem_filter hb)) hid

/-- In the timeline of the run, and in that of each command, a process is made
before it acts and does nothing after its exit, unless its pid is given to
another one; the whole timeline ends with the process alive exactly when its
exit was not reported. -/
theorem timeline_lifetimes (legal : Transducer.Legal (LifeAdmits root) ns)
    (htimes : ns.Pairwise fun m n => m.timestampNs ≤ n.timestampNs)
    (hsmall : ∀ n ∈ ns, n.timestampNs.toNat < 2 ^ 63)
    (hrecord : record root cwd rootCommand startNs ns = .ok (σ, es)) (hp : p ≠ root)
    (hstore : emitAll (create run) es = .ok capsule) (result : CollectionResult)
    (f : CommandFilter) :
    ∃ alive, ((timelineRows (finish capsule result) f).filterMap
        (EventRow.lifeMark p)).foldlM LifeMark.next false = some alive ∧
      (f = none → (alive = true ↔ (taskTree root ns).owner p = some p)) := by
  have hrows : timelineRows (finish capsule result) f = timelineRows capsule f := rfl
  refine ⟨lifeShown root p (keptBy f) ns σ, ?_, ?_⟩
  · rw [hrows, filterMap_lifeMark_timelineRows htimes hsmall hrecord hp hstore]
    exact lifeMarks_record legal hrecord hp (keptBy f)
  · rintro rfl
    simp [lifeShown, keptBy]

end timeline

theorem sampleChild_lives : Transducer.Legal (LifeAdmits 7) sampleChild := by
  have hadmits : ∀ (past : List Notification) (n : Notification) (rest : List Notification),
      sampleChild = past ++ n :: rest → (taskTree 7 past).owner n.task = some n.task →
      LifeAdmits 7 past n := by
    intro past n rest hsplit hself
    refine ⟨sampleChild_legal past n rest hsplit, fun p howner => ?_⟩
    rwa [← Option.some.inj (hself.symm.trans howner)]
  exact (((Transducer.legal_nil _).snoc (hadmits [] _ _ rfl rfl)).snoc
    (hadmits [_] _ _ rfl rfl)).snoc (hadmits [_, _] _ [] rfl rfl)

/-- The child 8 of the root 7 is made, and its exit is reported. -/
theorem timeline_lifetimes_sample :
    ∃ σ es capsule, record 7 (lit "/") none 0 sampleChild = .ok (σ, es) ∧
      emitAll (create sampleRun) es = .ok capsule ∧
      ∃ alive, ((timelineRows (finish capsule {}) none).filterMap
          (EventRow.lifeMark 8)).foldlM LifeMark.next false = some alive ∧
        (alive = true ↔ (taskTree 7 sampleChild).owner 8 = some 8) := by
  obtain ⟨σ, es, hrecord⟩ : ∃ σ es, record 7 (lit "/") none 0 sampleChild = .ok (σ, es) :=
    ⟨_, _, rfl⟩
  obtain ⟨capsule, hstore⟩ : ∃ capsule, emitAll (create sampleRun) es = .ok capsule := by
    obtain ⟨-, rfl⟩ := Prod.mk.inj (Except.ok.inj hrecord)
    exact ⟨_, emitAll_ok_iff.mpr ⟨_, _, rfl, rfl, rfl⟩⟩
  obtain ⟨alive, hmarks, halive⟩ := timeline_lifetimes sampleChild_lives (by decide) (by decide)
    hrecord (p := 8) (by decide) hstore {} none
  exact ⟨σ, es, capsule, hrecord, hstore, alive, hmarks, halive rfl⟩

end Whyrun
