import Whyrun.Execution.Runs
import Whyrun.Model.PtraceCollector
import Whyrun.Session.Decoder

/-!
A session as the collector sees it: writes to the marker channel and all
other notifications in any interleaving. Such a run is a run of the
execution state on the notifications that the decoder produces, so the
results about runs apply to it.
-/

namespace Whyrun

open ByteText ExecutionState CommandProtocol

/-- The bytes that a session puts into the channel. -/
def stream (inputs : List SessionInput) : Bytes :=
  inputs.flatMap fun
    | .write bytes _ => bytes
    | .other _ => []

/-- The notifications of a session that are not markers. -/
def others (inputs : List SessionInput) : List Notification :=
  inputs.filterMap fun
    | .write _ _ => none
    | .other n => some n

def markersOf (ns : List Notification) : List CommandMarker :=
  ns.filterMap fun
    | .marker _ m _ => some m
    | _ => none

@[simp] theorem stream_append (is js : List SessionInput) :
    stream (is ++ js) = stream is ++ stream js := by
  simp [stream]

@[simp] theorem others_append (is js : List SessionInput) :
    others (is ++ js) = others is ++ others js := by
  simp [others]

@[simp] theorem markersOf_append (ns ns' : List Notification) :
    markersOf (ns ++ ns') = markersOf ns ++ markersOf ns' := by
  simp [markersOf]

/-- The markers of a write as notifications. -/
def markerNotifications (tid : Pid) (markers : List CommandMarker) (timestampNs : UInt64) :
    List Notification :=
  markers.map fun marker => .marker tid marker timestampNs

@[simp] theorem markersOf_markerNotifications (tid : Pid) (markers : List CommandMarker)
    (t : UInt64) : markersOf (markerNotifications tid markers t) = markers := by
  simp [markersOf, markerNotifications, List.filterMap_map]

/-- Markers neither create a task nor report an exit. -/
theorem rootAlive_markerNotifications (root tid : Pid) (markers : List CommandMarker)
    (t : UInt64) : rootAlive root (markerNotifications tid markers t) = true := by
  simp [rootAlive, markerNotifications, Notification.exits]

theorem legal_append_markers {root : Pid} {ns : List Notification}
    (legal : Transducer.Legal (LifecycleAdmits root) ns) (halive : rootAlive root ns = true)
    (markers : List CommandMarker) (t : UInt64) :
    Transducer.Legal (LifecycleAdmits root) (ns ++ markerNotifications root markers t) := by
  induction markers using List.reverseRecOn with
  | nil => simpa [markerNotifications] using legal
  | append_singleton markers m ih =>
      rw [markerNotifications, List.map_append, ← markerNotifications, ← List.append_assoc,
        List.map_singleton]
      exact ih.snoc ⟨fun _ => rfl, fun _ => by
        rw [rootAlive_append, halive, rootAlive_markerNotifications]
        rfl⟩

/-! ### Histories of sessions -/

/-- A live root writes; other notifications are no markers, and no new task
gets the tid of the live root. -/
def SessionAdmits (root : Pid) (past : List SessionInput) : SessionInput → Prop
  | .write _ _ => rootAlive root (others past) = true
  | .other n => n.isMarker = false ∧ (rootAlive root (others past) = true → n.creates root = false)

/-- The run of the execution state behind a session. -/
structure SessionTrace (root : Pid) (σ₀ : ExecutionState) (past : List SessionInput)
    (session : SessionState) (out : List Event) (ns : List Notification) : Prop where
  run : Transducer.run notify σ₀ ns = .ok (session.execution, out)
  legal : Transducer.Legal (LifecycleAdmits root) ns
  alive : rootAlive root ns = rootAlive root (others past)
  decoded : consume {} (stream past) = .ok (session.protocol, markersOf ns)
  fromRoot : ∀ n ∈ ns, n.isMarker = true → n.task = root

theorem SessionTrace.write {root : Pid} {σ₀ : ExecutionState} {past : List SessionInput}
    {session session' : SessionState} {out o : List Event} {ns : List Notification}
    {bytes : Bytes} {t : UInt64} (h : SessionTrace root σ₀ past session out ns)
    (halive : rootAlive root (others past) = true)
    (hstep : session.consumeMarkers root bytes t = .ok (session', o)) :
    ∃ ns', SessionTrace root σ₀ (past ++ [.write bytes t]) session' (out ++ o) ns' := by
  obtain ⟨⟨protocol, markers⟩, hconsume, hrest⟩ := Transducer.bind_ok_iff.mp hstep
  obtain ⟨⟨execution, events⟩, hrun, hlast⟩ := Transducer.bind_ok_iff.mp hrest
  obtain ⟨rfl, rfl⟩ := Prod.mk.inj (Except.ok.inj hlast)
  have hothers : others [SessionInput.write bytes t] = [] := rfl
  refine ⟨ns ++ markerNotifications root markers t, ?_, ?_, ?_, ?_, ?_⟩
  · exact Transducer.run_append_ok_iff.mpr ⟨_, out, events, h.run, hrun, rfl⟩
  · exact legal_append_markers h.legal (h.alive.trans halive) markers t
  · rw [rootAlive_append, rootAlive_markerNotifications, h.alive, others_append,
      hothers, List.append_nil, Bool.and_true]
  · have hstream : stream [SessionInput.write bytes t] = bytes := by simp [stream]
    rw [stream_append, hstream, consume_append_of_ok _ h.decoded, hconsume,
      markersOf_append, markersOf_markerNotifications]
    rfl
  · intro n hn hmarker
    rcases List.mem_append.mp hn with hn | hn
    · exact h.fromRoot n hn hmarker
    · obtain ⟨m, -, rfl⟩ := List.mem_map.mp hn
      rfl

theorem SessionTrace.other {root : Pid} {σ₀ : ExecutionState} {past : List SessionInput}
    {session : SessionState} {out o : List Event} {ns : List Notification}
    {n : Notification} {execution : ExecutionState}
    (h : SessionTrace root σ₀ past session out ns) (hadmits : SessionAdmits root past (.other n))
    (hstep : session.execution.notify n = .ok (execution, o)) :
    SessionTrace root σ₀ (past ++ [.other n]) { session with execution } (out ++ o)
      (ns ++ [n]) where
  run := Transducer.run_append_ok_iff.mpr
    ⟨_, out, o, h.run, by rw [Transducer.run_singleton, hstep], rfl⟩
  legal := h.legal.snoc
    ⟨fun halive => hadmits.2 (by rw [← h.alive, halive]), fun hmarker => by
      simp [hadmits.1] at hmarker⟩
  alive := by
    rw [rootAlive_append, h.alive, others_append, rootAlive_append]
    rfl
  decoded := by
    have hstream : stream [SessionInput.other n] = [] := rfl
    have hmarkers : markersOf [n] = [] := by
      have hnot := hadmits.1
      cases n <;> first | rfl | contradiction
    rw [stream_append, hstream, List.append_nil, markersOf_append, hmarkers, List.append_nil,
      h.decoded]
  fromRoot m hm hmarker := by
    rcases List.mem_append.mp hm with hm | hm
    · exact h.fromRoot m hm hmarker
    · rw [List.mem_singleton.mp hm, hadmits.1] at hmarker
      contradiction

/-- Every legal session is a legal run of the execution state on the
notifications that its stream encodes. -/
theorem exists_sessionTrace {root : Pid} {σ₀ : ExecutionState} {inputs : List SessionInput}
    {session : SessionState} {out : List Event}
    (legal : Transducer.Legal (SessionAdmits root) inputs)
    (hrun : Transducer.run (SessionState.step root) { execution := σ₀ } inputs =
      .ok (session, out)) : ∃ ns, SessionTrace root σ₀ inputs session out ns := by
  refine Transducer.run_induction
    (motive := fun past session out => ∃ ns, SessionTrace root σ₀ past session out ns)
    ?_ ?_ legal hrun
  · exact ⟨[], rfl, Transducer.legal_nil _, rfl, rfl, by simp⟩
  · rintro past session out input session' o - ⟨ns, htrace⟩ hadmits hstep
    cases input with
    | write bytes t => exact htrace.write hadmits hstep
    | other n =>
        obtain ⟨⟨execution, events⟩, hnotify, hlast⟩ := Transducer.bind_ok_iff.mp hstep
        obtain ⟨rfl, rfl⟩ := Prod.mk.inj (Except.ok.inj hlast)
        exact ⟨_, htrace.other hadmits hnotify⟩

end Whyrun
