import Whyrun.Session.Acceptance
import Whyrun.Session.Agreement
import Whyrun.Session.MarkerOrder
import Whyrun.Storage.CommandMode

/-!
The transcript of a session. From the calls of the shell functions to the
commands that `show` lists: however the printed bytes are cut into writes and
whatever else is reported between them, the session is accepted, and the
commands table has one row for each command that was started, with its text,
its directory and the status that the shell saw.
-/

namespace Whyrun

open ByteText Relational ExecutionState CommandProtocol CapsuleWriter

/-! ### The command events of an accepted run -/

section marked

variable {root : Pid} {σ σ' : ExecutionState} {n : Notification} {es : List Event}

/-- The events that start and end commands, without their times. -/
def commandEvents (es : List Event) : List Event :=
  (es.filter Event.isCommandMark).map Event.untimed

@[simp] theorem commandEvents_append (es es' : List Event) :
    commandEvents (es ++ es') = commandEvents es ++ commandEvents es' := by
  simp [commandEvents]

theorem commandEvents_eq_nil (h : es.filter Event.isCommandMark = []) : commandEvents es = [] := by
  rw [commandEvents, h, List.map_nil]

/-- What an accepted marker of the root causes. -/
def markerEvents (root : Pid) (m : CommandMarker) : List Event :=
  match m.type with
  | .arm => []
  | .start => [commandStartEvent root root m.id m.text m.cwd 0]
  | .stop => [commandEndEvent root root (some m.id) m.exitCode m.cwd 0]

theorem Effect.commandEvents_marker {m : CommandMarker} {t : UInt64}
    (he : Effect σ (.marker root m t) σ' es) (hkeyed : σ.Keyed) (hroot : RootHolds σ)
    (hpid : σ.rootPid = root) : commandEvents es = markerEvents root m := by
  subst hpid
  obtain ⟨R, hR, -⟩ := hroot.held
  have hleader := hroot.leader_eq
  cases he with
  | markerIgnored other =>
      rw [hleader] at other
      exact absurd (hkeyed _ _ hR) (other R hR)
  | arm found root type =>
      rw [markerEvents, type]
      rfl
  | start found root type =>
      rw [markerEvents, type, root]
      rfl
  | stop found root type =>
      rw [markerEvents, type, root]
      rfl

/-- The phase and the events of a session follow the markers of its root. -/
structure FollowsMarkers (root : Pid) (ms : List CommandMarker) (σ : ExecutionState)
    (out : List Event) : Prop where
  keyed : σ.Keyed
  rootPid : σ.rootPid = root
  holds : RootHolds σ
  phase : MarkerPhase.follow (ms.map CommandMarker.key) = some σ.markerPhase
  events : commandEvents out = ms.flatMap (markerEvents root)

theorem followsMarkers_start (root : Pid) (cwd : Bytes) (startNs : UInt64) :
    FollowsMarkers root [] (initialState root cwd none startNs) [] where
  keyed := initialState_keyed root cwd none startNs
  rootPid := initialState_rootPid root cwd none startNs
  holds := initialState_rootHolds root cwd none startNs
  phase := by simp [MarkerPhase.follow, markerPhase, initialState_activeCommand]
  events := rfl

/-- What comes first of markers that fit fits. -/
theorem isSome_follow_of_append {ms new : List CommandMarker}
    (h : (MarkerPhase.follow ((ms ++ new).map CommandMarker.key)).isSome = true) :
    (MarkerPhase.follow (ms.map CommandMarker.key)).isSome = true := by
  rw [List.map_append, MarkerPhase.follow, List.foldlM_append, ← MarkerPhase.follow] at h
  obtain ⟨phase, hphase⟩ := Option.isSome_iff_exists.mp h
  obtain ⟨phase', hphase', -⟩ := Option.bind_eq_some_iff.mp hphase
  rw [hphase']
  rfl

/-- A marker that fits is accepted. -/
theorem FollowsMarkers.marker {ms : List CommandMarker} {out : List Event}
    (h : FollowsMarkers root ms σ out) (m : CommandMarker) (t : UInt64)
    (hfits : (MarkerPhase.follow ((ms ++ [m]).map CommandMarker.key)).isSome = true) :
    ∃ σ' es, σ.notify (.marker root m t) = .ok (σ', es) ∧
      FollowsMarkers root (ms ++ [m]) σ' (out ++ es) := by
  have hleader : σ.processForThread root = σ.rootPid := by
    rw [← h.rootPid]
    exact h.holds.leader_eq
  have hphase := onCommandMarker_phase m t h.keyed h.holds hleader
  have hfollow : MarkerPhase.follow ((ms ++ [m]).map CommandMarker.key) =
      σ.markerPhase.next m.key := by
    rw [List.map_append, List.map_singleton, MarkerPhase.follow_snoc, h.phase, Option.bind_some]
  rw [hfollow] at hfits
  obtain ⟨phase, hnext⟩ := Option.isSome_iff_exists.mp hfits
  simp only [hnext] at hphase
  obtain ⟨σ', es, hstep, hsame⟩ := hphase
  have he : Effect σ (.marker root m t) σ' es := onCommandMarker_effect hstep
  refine ⟨σ', es, hstep, he.keyed h.keyed, he.rootPid.trans h.rootPid,
    he.rootHolds h.keyed h.holds rfl rfl, ?_, ?_⟩
  · rw [hfollow, hnext, hsame]
  · rw [commandEvents_append, h.events, he.commandEvents_marker h.keyed h.holds h.rootPid,
      List.flatMap_append, List.flatMap_singleton]

/-- The markers of one write. -/
theorem FollowsMarkers.markers {ms : List CommandMarker} {out : List Event}
    (h : FollowsMarkers root ms σ out) (new : List CommandMarker) (t : UInt64)
    (hfits : (MarkerPhase.follow ((ms ++ new).map CommandMarker.key)).isSome = true) :
    ∃ σ' es, Transducer.run notify σ (markerNotifications root new t) = .ok (σ', es) ∧
      FollowsMarkers root (ms ++ new) σ' (out ++ es) := by
  induction new generalizing ms σ out with
  | nil => exact ⟨σ, [], rfl, by simpa using h⟩
  | cons m new ih =>
      rw [show ms ++ m :: new = ms ++ [m] ++ new by simp] at hfits ⊢
      obtain ⟨τ, o, hstep, hτ⟩ := h.marker m t (isSome_follow_of_append hfits)
      obtain ⟨σ', o', hrest, hσ'⟩ := ih hτ hfits
      refine ⟨σ', o ++ o', ?_, by rwa [← List.append_assoc]⟩
      exact Transducer.run_cons_ok_iff.mpr ⟨τ, o, o', hstep, hrest, rfl⟩

/-- Other notifications, the exit of the root apart. -/
theorem FollowsMarkers.other {ms : List CommandMarker} {out : List Event}
    (h : FollowsMarkers root ms σ out) (hmarker : n.isMarker = false)
    (hexit : n.exits root = false) (hcreate : n.creates root = false) :
    ∃ σ' es, σ.notify n = .ok (σ', es) ∧ FollowsMarkers root ms σ' (out ++ es) := by
  obtain ⟨⟨σ', es⟩, hstep⟩ := notify_ok_of_not_marker σ hmarker
  have he := notify_effect hstep
  rw [← h.rootPid] at hexit hcreate
  refine ⟨σ', es, hstep, he.keyed h.keyed, he.rootPid.trans h.rootPid,
    he.rootHolds h.keyed h.holds hexit hcreate, ?_, ?_⟩
  · rw [h.phase, he.markerPhase_of_other h.keyed hexit hmarker]
  · rw [commandEvents_append, h.events,
      commandEvents_eq_nil (he.no_marks hmarker h.keyed (.inl hexit)), List.append_nil]

end marked

/-! ### Accepted sessions -/

section accepted

variable {root : Pid} {inputs : List SessionInput}

/-- A session of a live root is accepted when its stream decodes to markers
that fit. -/
theorem session_accepted (cwd : Bytes) (startNs : UInt64)
    (legal : Transducer.Legal (SessionAdmits root) inputs) (halive : rootAlive root (others inputs) = true)
    {protocol : CommandProtocol} {ms : List CommandMarker} (hstream : consume {} (stream inputs) = .ok (protocol, ms))
    (hfits : (MarkerPhase.follow (ms.map CommandMarker.key)).isSome = true) :
    ∃ σ es, Transducer.run (SessionState.step root)
        { execution := initialState root cwd none startNs } inputs = .ok (⟨protocol, σ⟩, es) ∧
      FollowsMarkers root ms σ es := by
  induction inputs using List.reverseRecOn generalizing protocol ms with
  | nil =>
      obtain ⟨rfl, rfl⟩ := Prod.mk.inj (Except.ok.inj hstream)
      exact ⟨_, [], rfl, followsMarkers_start root cwd startNs⟩
  | append_singleton past input ih =>
      rw [others_append, rootAlive_append, Bool.and_eq_true] at halive
      rw [stream_append] at hstream
      obtain ⟨middle, before, new, hbefore, hnew, rfl⟩ := Transducer.run_append_ok_iff.mp hstream
      obtain ⟨σ, es, hrun, hfollows⟩ :=
        ih legal.init halive.1 hbefore (isSome_follow_of_append hfits)
      cases input with
      | write bytes t =>
          obtain ⟨σ', o, hmarkers, hnext⟩ := hfollows.markers new t hfits
          refine ⟨σ', es ++ o, Transducer.run_append_ok_iff.mpr ⟨_, es, o, hrun, ?_, rfl⟩, hnext⟩
          have hbytes : stream [SessionInput.write bytes t] = bytes := by simp [stream]
          rw [hbytes] at hnew
          have hconsume : middle.consume bytes = .ok (protocol, new) := hnew
          simp only [Transducer.run_singleton, SessionState.step, SessionState.consumeMarkers,
            hconsume, Bind.bind, Except.bind]
          rw [show (new.map fun m => Notification.marker root m t) = markerNotifications root new t
            from rfl, hmarkers]
      | other n =>
          obtain ⟨hmarker, hcreate⟩ := legal.last
          have hexit : n.exits root = false := by
            simpa [others] using halive.2
          obtain ⟨σ', o, hstep, hnext⟩ := hfollows.other hmarker hexit (hcreate halive.1)
          obtain ⟨rfl, rfl⟩ : protocol = middle ∧ new = [] := by
            have hnil : Transducer.run consumeByte middle [] = .ok (protocol, new) := hnew
            obtain ⟨rfl, rfl⟩ := Prod.mk.inj (Except.ok.inj hnil)
            exact ⟨rfl, rfl⟩
          rw [List.append_nil]
          refine ⟨σ', es ++ o, Transducer.run_append_ok_iff.mpr ⟨_, es, o, hrun, ?_, rfl⟩, hnext⟩
          simp only [Transducer.run_singleton, SessionState.step, hstep, Bind.bind, Except.bind]

end accepted

/-! ### The end of the shell -/

section exit

variable {root : Pid} {σ σ' : ExecutionState} {n : Notification} {es : List Event}

/-- The end event of a command that runs when the root exits, without its time. -/
def exitEnds (root : Pid) (phase : MarkerPhase) (result : Int32) (cwd : Bytes) : List Event :=
  match phase with
  | .running id => [commandEndEvent root root (some id) result cwd 0]
  | _ => []

/-- The exit of the root ends the command that runs, and no other. -/
theorem FollowsMarkers.exited {ms : List CommandMarker} {out : List Event}
    (h : FollowsMarkers root ms σ out) (code signal : Int32) (t : UInt64) :
    ∃ σ' es cwd, σ.notify (.exited root code signal t) = .ok (σ', es) ∧
      σ'.Keyed ∧ σ'.activeCommand = none ∧
      commandEvents (out ++ es) = ms.flatMap (markerEvents root) ++
        exitEnds root σ.markerPhase (exitResult code signal) cwd := by
  obtain ⟨⟨σ', es⟩, hstep⟩ := notify_ok_of_not_marker σ (n := .exited root code signal t) rfl
  have he := notify_effect hstep
  obtain ⟨R, hR, hid⟩ := h.holds.held
  have hexits : (Notification.exited root code signal t).exits σ.rootPid = true := by
    simp [Notification.exits, h.rootPid]
  refine ⟨σ', es, R.cwd, hstep, he.keyed h.keyed,
    (he.exit_root h.keyed h.holds hexits).1, ?_⟩
  rw [commandEvents_append, h.events]
  congr 1
  cases hactive : σ.activeCommand with
  | none =>
      have hphase : σ.markerPhase = .idle := by simp [markerPhase, hactive]
      rw [hphase, commandEvents_eq_nil (he.no_marks rfl h.keyed (.inr (by simp [isStarted, hactive])))]
      rfl
  | some a =>
      cases hstarted : a.started with
      | false =>
          have hphase : σ.markerPhase = .armed a.id := by simp [markerPhase, hactive, hstarted]
          rw [hphase, commandEvents_eq_nil
            (he.no_marks rfl h.keyed (.inr (by simp [isStarted, hactive, hstarted])))]
          rfl
      | true =>
          have hphase : σ.markerPhase = .running a.id := by simp [markerPhase, hactive, hstarted]
          rw [hactive] at hid
          obtain ⟨code', signal', t', hn, hmarks⟩ := he.end_of_root hexits h.holds.leader_eq
            (by simp [isStarted, hactive, hstarted]) hR (h.keyed _ _ hR) hid
          obtain ⟨-, rfl, rfl, rfl⟩ := Notification.exited.inj hn
          rw [commandEvents, hmarks, hphase, h.rootPid]
          rfl

/-- After the exit of the root a session goes on without a command event. -/
theorem session_after_exit {root : Pid} {past rest : List SessionInput}
    (legal : Transducer.Legal (SessionAdmits root) (past ++ rest))
    (hexited : rootAlive root (others past) = false) (session : SessionState)
    (hkeyed : session.execution.Keyed) (hidle : session.execution.activeCommand = none) :
    ∃ σ' es, Transducer.run (SessionState.step root) session rest =
      .ok (⟨session.protocol, σ'⟩, es) ∧ commandEvents es = [] := by
  induction rest generalizing past session with
  | nil => exact ⟨_, [], rfl, rfl⟩
  | cons input rest ih =>
      have hadmits := legal past input rest rfl
      have hsplit : past ++ input :: rest = past ++ [input] ++ rest := by simp
      rw [hsplit] at legal
      have hexited' : rootAlive root (others (past ++ [input])) = false := by
        rw [others_append, rootAlive_append, hexited, Bool.false_and]
      cases input with
      | write bytes t =>
          rw [show rootAlive root (others past) = true from hadmits] at hexited
          contradiction
      | other n =>
          obtain ⟨⟨τ, o⟩, hstep⟩ := notify_ok_of_not_marker session.execution hadmits.1
          have he := notify_effect hstep
          obtain ⟨σ', es, hrest, hevents⟩ := ih legal hexited'
            ⟨session.protocol, τ⟩ (he.keyed hkeyed) (he.idle hidle hadmits.1)
          refine ⟨σ', o ++ es, Transducer.run_cons_ok_iff.mpr
            ⟨⟨session.protocol, τ⟩, o, es, ?_, hrest, rfl⟩, ?_⟩
          · simp only [SessionState.step, hstep, Bind.bind, Except.bind]
          · rw [commandEvents_append, hevents, commandEvents_eq_nil
              (he.no_marks hadmits.1 hkeyed (.inr (by simp [isStarted, hidle]))), List.append_nil]

end exit

/-! ### The rounds of the shell -/

section rounds

variable (root : Pid)

theorem flatMap_roundsMarkers (j : ℕ) (rounds : List Round) :
    (roundsMarkers j rounds).flatMap (markerEvents root) = roundsEvents root j rounds := by
  induction rounds generalizing j with
  | nil => rfl
  | cons r rs ih =>
      rw [roundsMarkers, roundsEvents, List.flatMap_append, ih]
      congr 1
      unfold roundMarkers endEvents startEvents
      rw [List.flatMap_append, List.flatMap_cons]
      congr 1
      · split <;> rfl
      · cases r.started <;> rfl

/-- The phase after `j` complete rounds. -/
def phaseAfter (j : ℕ) : MarkerPhase := if j = 0 then .idle else .running (UInt64.ofNat j)

/-- The phase after the last of some rounds. -/
def lastPhase (j : ℕ) : List Round → MarkerPhase
  | [] => phaseAfter j
  | [r] =>
      if r.started.isSome then .running (UInt64.ofNat (j + 1)) else .armed (UInt64.ofNat (j + 1))
  | _ :: rs => lastPhase (j + 1) rs

theorem foldlM_roundMarkers (j : ℕ) (r : Round) :
    ((roundMarkers j r).map CommandMarker.key).foldlM MarkerPhase.next (phaseAfter j) =
      some (if r.started.isSome then .running (UInt64.ofNat (j + 1))
        else .armed (UInt64.ofNat (j + 1))) := by
  unfold roundMarkers phaseAfter
  rcases Nat.eq_zero_or_pos j with rfl | hj
  · cases r.started <;> simp [CommandMarker.key, MarkerPhase.next]
  · rw [if_pos hj, if_neg (by omega)]
    cases r.started <;> simp [CommandMarker.key, MarkerPhase.next]

/-- The markers of the rounds fit when every round but the last has its two
start calls. -/
theorem foldlM_roundsMarkers {j : ℕ} {rounds : List Round}
    (htwo : ∀ past r r' rest, rounds = past ++ r :: r' :: rest → 2 ≤ r.starts.length) :
    ((roundsMarkers j rounds).map CommandMarker.key).foldlM MarkerPhase.next (phaseAfter j) =
      some (lastPhase j rounds) := by
  induction rounds generalizing j with
  | nil => rfl
  | cons r rs ih =>
      rw [roundsMarkers, List.map_append, List.foldlM_append, foldlM_roundMarkers]
      cases rs with
      | nil => rfl
      | cons r' rs =>
          have hrest := ih (j := j + 1) fun past s s' rest hsplit =>
            htwo (r :: past) s s' rest (by rw [hsplit]; rfl)
          rw [if_pos (started_isSome (htwo [] r r' rs rfl))]
          exact hrest

end rounds

/-! ### The transcript -/

/-- The row of a command, without its times. -/
def CommandRow.untimed (row : CommandRow) : CommandRow :=
  { row with startNs := 0, endNs := row.endNs.map fun _ => 0 }

/-- How a round ends: the directory and the status of the next prompt, or of
the exit of the shell. -/
abbrev Ending := Option (Bytes × ℤ)

/-- The row of a round after `j` prompts, if its command starts. -/
def Round.row (root : Pid) (j : ℕ) (ending : Ending) (r : Round) : Option CommandRow :=
  r.started.map fun s =>
    { sequence := (j + 1 : ℕ), shellPid := root.toInt, command := s.2.2, cwd := s.1, startNs := 0
      endNs := ending.map fun _ => 0, endCwd := ending.map Prod.fst
      exitCode := ending.map Prod.snd }

/-- What the next prompt says of a round; after the last round the shell is
over. -/
def endingOf (last : Ending) : List Round → Ending
  | [] => last
  | r :: _ => some (r.pwd, r.status.toNat)

/-- The rows of the rounds after `j` prompts. -/
def transcript (root : Pid) (last : Ending) (j : ℕ) : List Round → List CommandRow
  | [] => []
  | r :: rs => (r.row root j (endingOf last rs)).toList ++ transcript root last (j + 1) rs

section table

variable (root : Pid)

/-- The end event of a round after `j` prompts. -/
def endingEvents (last : Option (Bytes × Int32)) (j : ℕ) (r : Round) : List Round → List Event
  | [] =>
      if r.started.isSome then last.toList.map fun e =>
        commandEndEvent root root (some (UInt64.ofNat (j + 1))) e.2 e.1 0
      else []
  | r' :: _ => endEvents root (j + 1) r'

/-- The events of the rounds, each round with its own end. -/
def commandsEvents (last : Option (Bytes × Int32)) (j : ℕ) : List Round → List Event
  | [] => []
  | r :: rs => (startEvents root j r ++ endingEvents root last j r rs) ++
      commandsEvents last (j + 1) rs

/-- The end of the last round, when the shell exits. -/
def lastEnd (last : Option (Bytes × Int32)) (j : ℕ) : List Round → List Event
  | [] => []
  | [r] => endingEvents root last j r []
  | _ :: rs => lastEnd last (j + 1) rs

theorem roundsEvents_append_lastEnd (last : Option (Bytes × Int32)) (j : ℕ) (r : Round)
    (rs : List Round) :
    roundsEvents root j (r :: rs) ++ lastEnd root last j (r :: rs) =
      endEvents root j r ++ commandsEvents root last j (r :: rs) := by
  induction rs generalizing j r with
  | nil => simp [roundsEvents, lastEnd, commandsEvents]
  | cons r' rs ih =>
      rw [roundsEvents, lastEnd, commandsEvents, List.append_assoc, ih]
      · simp [endingEvents]
      · simp

/-- How the ending of a round reads in the table. -/
def Ending.ofExit (last : Option (Bytes × Int32)) : Ending := last.map fun e => (e.1, e.2.toInt)

theorem toNat_ofNat {k : ℕ} (hk : k < 2 ^ 63) : (UInt64.ofNat k).toNat = k := by
  rw [UInt64.toNat_ofNat', Nat.mod_eq_of_lt (by omega)]

theorem asI64_ofNat {k : ℕ} (hk : k < 2 ^ 63) : asI64 (UInt64.ofNat k) = k := by
  rw [asI64_of_lt (by rwa [toNat_ofNat hk]), toNat_ofNat hk]

/-- What the end of its command does to a row. -/
def CommandRow.ended (row : CommandRow) (cwd : Bytes) (code : ℤ) : CommandRow :=
  { row with endNs := some 0, endCwd := some cwd, exitCode := some code }

theorem endRow_commandEndEvent (id : UInt64) (code : Int32) (cwd : Bytes) (row : CommandRow) :
    endRow (commandEndEvent root root (some id) code cwd 0) row = row.ended cwd code.toInt := by
  have hresult : code.toInt64.toInt = code.toInt := Int32.toInt_toInt64 code
  have hcwd : metadataValue (commandEndEvent root root (some id) code cwd 0) (lit "cwd") [] = cwd :=
    rfl
  rw [endRow, hcwd]
  simp [commandEndEvent, CommandRow.ended, hresult, asI64]

theorem startRow_commandStartEvent (id : UInt64) (text cwd : Bytes) (k : ℤ) :
    startRow (commandStartEvent root root id text cwd 0) k =
      { sequence := k, shellPid := root.toInt, command := text, cwd, startNs := 0 } := by
  have hcwd : metadataValue (commandStartEvent root root id text cwd 0) (lit "cwd") [] = cwd := rfl
  rw [startRow, hcwd]
  simp [commandStartEvent, asI64]

theorem rowAfter_end {id : ℕ} (hid : id < 2 ^ 63) (code : Int32) (cwd : Bytes) (k : ℤ)
    (row : Option CommandRow) :
    rowAfter k row (commandEndEvent root root (some (UInt64.ofNat id)) code cwd 0) =
      if k = id then row.map fun row => row.ended cwd code.toInt else row := by
  have hids : (some (UInt64.ofNat id)).map asI64 = some (id : ℤ) := by
    rw [Option.map_some, asI64_ofNat hid]
  unfold rowAfter
  rw [show (commandEndEvent root root (some (UInt64.ofNat id)) code cwd 0).commandId =
    some (UInt64.ofNat id) from rfl, hids]
  by_cases hk : k = id
  · rw [if_pos (by rw [hk]), if_pos hk, if_neg (by simp [commandEndEvent]),
      if_pos (by simp [commandEndEvent])]
    cases row with
    | none => rw [Option.map_none, Option.map_none]
    | some row => rw [Option.map_some, Option.map_some, endRow_commandEndEvent]
  · rw [if_neg fun hsame => hk (Option.some.inj hsame).symm, if_neg hk]

theorem rowAfter_start {id : ℕ} (hid : id < 2 ^ 63) (text cwd : Bytes) (k : ℤ)
    (row : Option CommandRow) :
    rowAfter k row (commandStartEvent root root (UInt64.ofNat id) text cwd 0) =
      if k = id then
        some { sequence := id, shellPid := root.toInt, command := text, cwd, startNs := 0 }
      else row := by
  have hids : (some (UInt64.ofNat id)).map asI64 = some (id : ℤ) := by
    rw [Option.map_some, asI64_ofNat hid]
  unfold rowAfter
  rw [show (commandStartEvent root root (UInt64.ofNat id) text cwd 0).commandId =
    some (UInt64.ofNat id) from rfl, hids]
  by_cases hk : k = id
  · rw [if_pos (by rw [hk]), if_pos hk, if_pos (by simp [commandStartEvent]),
      startRow_commandStartEvent, hk]
  · rw [if_neg fun hsame => hk (Option.some.inj hsame).symm, if_neg hk]

theorem foldl_startEvents {j : ℕ} (hj : j + 1 < 2 ^ 63) (r : Round) (k : ℤ)
    (row : Option CommandRow) :
    (startEvents root j r).foldl (rowAfter k) row =
      if k = (j + 1 : ℕ) then (r.row root j none).or row else row := by
  unfold startEvents Round.row
  cases r.started with
  | none => simp
  | some s =>
      simp only [Option.toList_some, List.map_singleton, List.foldl_cons, List.foldl_nil]
      rw [rowAfter_start root hj]
      rfl

theorem toInt_status (status : UInt8) : (Int32.ofInt status.toNat).toInt = status.toNat := by
  have hlt := status.toNat_lt
  rw [Int32.toInt_ofInt_of_le] <;> omega

theorem foldl_endEvents {j : ℕ} (hj : j + 1 < 2 ^ 63) (r : Round) (k : ℤ)
    (row : Option CommandRow) :
    (endEvents root (j + 1) r).foldl (rowAfter k) row =
      if k = (j + 1 : ℕ) then row.map fun row => row.ended r.pwd r.status.toNat else row := by
  rw [endEvents, if_pos (Nat.succ_pos j), List.foldl_cons, List.foldl_nil, rowAfter_end root hj,
    toInt_status]

theorem foldl_endingEvents {last : Option (Bytes × Int32)} {j : ℕ} {r : Round} {rs : List Round}
    (hj : j + 1 < 2 ^ 63) (k : ℤ) (row : Option CommandRow)
    (hrow : k = (j + 1 : ℕ) → row = r.row root j none) :
    (endingEvents root last j r rs).foldl (rowAfter k) row =
      if k = (j + 1 : ℕ) then r.row root j (endingOf (Ending.ofExit last) rs) else row := by
  cases rs with
  | nil =>
      rw [endingEvents, endingOf]
      cases hs : r.started with
      | none =>
          have hnone : ∀ ending, r.row root j ending = none := fun ending => by simp [Round.row, hs]
          rw [hnone] at hrow ⊢
          rw [if_neg (show ¬ (none : Option (Bytes × Bytes × Bytes)).isSome = true by simp),
            List.foldl_nil]
          split
          · rename_i hk
            exact hrow hk
          · rfl
      | some s =>
          rw [if_pos (show (some s).isSome = true from rfl)]
          cases last with
          | none =>
              split
              · rename_i hk
                exact hrow hk
              · rfl
          | some e =>
              rw [Option.toList_some, List.map_singleton, List.foldl_cons, List.foldl_nil,
                rowAfter_end root hj]
              split
              · rename_i hk
                rw [hrow hk, Round.row, Round.row, hs]
                rfl
              · rfl
  | cons r' rs =>
      rw [endingEvents, foldl_endEvents root hj, endingOf]
      split
      · rename_i hk
        rw [hrow hk]
        unfold Round.row
        cases r.started <;> rfl
      · rfl

/-- Of the events of one round only those of its own command touch a row. -/
theorem foldl_round {last : Option (Bytes × Int32)} {j : ℕ} {r : Round} {rs : List Round}
    (hj : j + 1 < 2 ^ 63) (k : ℤ) (row : Option CommandRow) (hrow : k = (j + 1 : ℕ) → row = none) :
    (startEvents root j r ++ endingEvents root last j r rs).foldl (rowAfter k) row =
      if k = (j + 1 : ℕ) then r.row root j (endingOf (Ending.ofExit last) rs) else row := by
  rw [List.foldl_append, foldl_startEvents root hj, foldl_endingEvents root hj]
  · split <;> rfl
  · intro hk
    rw [if_pos hk, hrow hk, Option.or_none]

/-- Later commands leave a row alone. -/
theorem foldl_commandsEvents_of_le {last : Option (Bytes × Int32)} {j : ℕ} {rounds : List Round}
    (hj : j + rounds.length < 2 ^ 63) {k : ℤ} (hk : k ≤ j) (row : Option CommandRow) :
    (commandsEvents root last j rounds).foldl (rowAfter k) row = row := by
  induction rounds generalizing j with
  | nil => rfl
  | cons r rs ih =>
      rw [List.length_cons] at hj
      rw [commandsEvents, List.foldl_append, foldl_round root (by omega) k row (by omega),
        if_neg (by omega), ih (by omega) (by omega)]

theorem lt_sequence_of_mem_transcript {last : Ending} {j : ℕ} {rounds : List Round}
    {row : CommandRow} (h : row ∈ transcript root last j rounds) : (j : ℤ) < row.sequence := by
  induction rounds generalizing j with
  | nil => contradiction
  | cons r rs ih =>
      rw [transcript, List.mem_append] at h
      rcases h with h | h
      · obtain ⟨s, -, rfl⟩ := Option.map_eq_some_iff.mp (Option.mem_toList.mp h)
        simp
      · have hlater := ih h
        omega

/-- The table after the events of the rounds holds the transcript. -/
theorem foldl_commandsEvents {last : Option (Bytes × Int32)} {j : ℕ} {rounds : List Round}
    (hj : j + rounds.length < 2 ^ 63) (k : ℤ) :
    (commandsEvents root last j rounds).foldl (rowAfter k) none =
      (transcript root (Ending.ofExit last) j rounds).find? fun row => row.sequence = k := by
  induction rounds generalizing j with
  | nil => rfl
  | cons r rs ih =>
      rw [List.length_cons] at hj
      rw [commandsEvents, List.foldl_append, foldl_round root (by omega) k none fun _ => rfl,
        transcript, List.find?_append]
      by_cases hk : k = (j + 1 : ℕ)
      · rw [if_pos hk, foldl_commandsEvents_of_le root (by omega) (by omega)]
        have hlater : (transcript root (Ending.ofExit last) (j + 1) rs).find?
            (fun row => row.sequence = k) = none := by
          refine List.find?_eq_none.mpr fun row hrow => ?_
          have hlt := lt_sequence_of_mem_transcript root hrow
          simp only [decide_eq_true_eq]
          omega
        rw [hlater, Option.or_none, Round.row]
        cases r.started with
        | none => rfl
        | some s => simp [hk]
      · rw [if_neg hk, ih (by omega)]
        have hown : (r.row root j (endingOf (Ending.ofExit last) rs)).toList.find?
            (fun row => row.sequence = k) = none := by
          refine List.find?_eq_none.mpr fun row hrow => ?_
          obtain ⟨s, -, rfl⟩ := Option.map_eq_some_iff.mp (Option.mem_toList.mp hrow)
          simpa [eq_comm] using hk
        rw [hown, Option.none_or]

/-! ### The stored commands -/

theorem startedIds_endingEvents (last : Option (Bytes × Int32)) (j : ℕ) (r : Round)
    (rs : List Round) : startedIds (endingEvents root last j r rs) = [] := by
  refine startedIds_eq_nil fun e he => ?_
  cases rs with
  | nil =>
      rw [endingEvents] at he
      split at he
      · obtain ⟨_, -, rfl⟩ := List.mem_map.mp he
        simp [commandEndEvent]
      · contradiction
  | cons r' rs =>
      rw [endingEvents, endEvents, if_pos (Nat.succ_pos j)] at he
      rw [List.mem_singleton.mp he]
      simp [commandEndEvent]

theorem startedIds_startEvents (j : ℕ) (r : Round) :
    startedIds (startEvents root j r) = r.started.toList.map fun _ => UInt64.ofNat (j + 1) := by
  unfold startEvents
  cases r.started <;> rfl

theorem startedIds_commandsEvents (last : Option (Bytes × Int32)) {j : ℕ} {rounds : List Round}
    (hj : j + rounds.length < 2 ^ 63) :
    (startedIds (commandsEvents root last j rounds)).Nodup ∧
      ∀ id ∈ startedIds (commandsEvents root last j rounds),
        j < id.toNat ∧ id.toNat ≤ j + rounds.length := by
  induction rounds generalizing j with
  | nil => exact ⟨List.nodup_nil, by simp [commandsEvents, startedIds]⟩
  | cons r rs ih =>
      rw [List.length_cons] at hj ⊢
      obtain ⟨hnodup, hbounds⟩ := ih (j := j + 1) (by omega)
      have hid : (UInt64.ofNat (j + 1)).toNat = j + 1 := toNat_ofNat (by omega)
      rw [commandsEvents, startedIds_append, startedIds_append, startedIds_startEvents,
        startedIds_endingEvents, List.append_nil]
      cases r.started with
      | none =>
          refine ⟨hnodup, fun id hmem => ?_⟩
          have hlater := hbounds id hmem
          omega
      | some s =>
          rw [Option.toList_some, List.map_singleton, List.singleton_append, List.nodup_cons]
          refine ⟨⟨fun hmem => ?_, hnodup⟩, fun id hmem => ?_⟩
          · have hlater := hbounds _ hmem
            omega
          · rcases List.mem_cons.mp hmem with rfl | hmem
            · omega
            · have hlater := hbounds id hmem
              omega

theorem startedIds_commandEvents (es : List Event) :
    startedIds (commandEvents es) = startedIds es := by
  induction es with
  | nil => rfl
  | cons e es ih =>
      rw [show e :: es = [e] ++ es from rfl, commandEvents_append, startedIds_append,
        startedIds_append, ih]
      congr 1
      cases hmark : e.isCommandMark with
      | true =>
          have hkept : commandEvents [e] = [e.untimed] := by simp [commandEvents, hmark]
          rw [hkept]
          rfl
      | false =>
          have htype : e.type ≠ .commandStart := by
            intro htype
            simp [Event.isCommandMark, htype] at hmark
          simp [commandEvents, hmark, startedIds, htype]

theorem rowAfter_untimed (k : ℤ) (row : Option CommandRow) (e : Event) :
    (rowAfter k row e).map CommandRow.untimed =
      rowAfter k (row.map CommandRow.untimed) e.untimed := by
  have hstart : (startRow e k).untimed = startRow e.untimed k := rfl
  have hend : CommandRow.untimed ∘ endRow e = endRow e.untimed ∘ CommandRow.untimed := rfl
  unfold rowAfter
  rw [show e.untimed.commandId = e.commandId from rfl, show e.untimed.type = e.type from rfl]
  split
  · split
    · rw [Option.map_some, hstart]
    · split
      · rw [Option.map_map, Option.map_map, hend]
      · rfl
  · rfl

theorem foldl_rowAfter_untimed (k : ℤ) (row : Option CommandRow) (es : List Event) :
    (es.foldl (rowAfter k) row).map CommandRow.untimed =
      (commandEvents es).foldl (rowAfter k) (row.map CommandRow.untimed) := by
  rw [foldl_rowAfter_filter, commandEvents]
  induction es.filter Event.isCommandMark generalizing row with
  | nil => rfl
  | cons e es ih => rw [List.foldl_cons, ih, rowAfter_untimed, List.map_cons, List.foldl_cons]

theorem lookup_untimed {run : RunMetadata} {es : List Event} {capsule : Capsule}
    (hes : ∀ e ∈ es, e.Storable) (h : emitAll (create run) es = .ok capsule) (k : ℤ) :
    (capsule.commands.lookup k).map CommandRow.untimed =
      (commandEvents es).foldl (rowAfter k) none := by
  rw [lookup_commands hes (commands_emitAll h), foldl_rowAfter_untimed]
  rfl

theorem pairwise_transcript (last : Ending) (j : ℕ) (rounds : List Round) :
    (transcript root last j rounds).Pairwise fun a b => a.sequence < b.sequence := by
  induction rounds generalizing j with
  | nil => exact List.Pairwise.nil
  | cons r rs ih =>
      rw [transcript, List.pairwise_append]
      refine ⟨?_, ih (j + 1), fun a ha b hb => ?_⟩
      · cases r.row root j (endingOf last rs) <;> simp
      · have hlater := lt_sequence_of_mem_transcript root hb
        obtain ⟨s, -, rfl⟩ := Option.map_eq_some_iff.mp (Option.mem_toList.mp ha)
        simpa using hlater

/-- A table whose rows are those of a list with growing sequence numbers is
listed as that list. -/
theorem commandsBySequence_eq {capsule : Capsule} {rows : List CommandRow}
    (hsequence : ∀ k row, capsule.commands.lookup k = some row → row.sequence = k)
    (hrows : rows.Pairwise fun a b => a.sequence < b.sequence)
    (h : ∀ k, (capsule.commands.lookup k).map CommandRow.untimed =
      rows.find? fun row => row.sequence = k) :
    (commandsBySequence capsule).map CommandRow.untimed = rows := by
  have hstored : ∀ row, row ∈ capsule.commands.entries.map (fun entry => entry.2) ↔
      capsule.commands.lookup row.sequence = some row := by
    intro row
    constructor
    · intro hrow
      obtain ⟨⟨k, _⟩, hentry, rfl⟩ := List.mem_map.mp hrow
      have hlookup := AList.mem_lookup_iff.mpr hentry
      rwa [hsequence k _ hlookup]
    · intro hlookup
      exact List.mem_map.mpr ⟨⟨_, row⟩, AList.mem_lookup_iff.mp hlookup, rfl⟩
  have hunique : (rows.map CommandRow.sequence).Nodup :=
    List.pairwise_map.mpr (hrows.imp fun hlt => hlt.ne)
  have hmem : ∀ row, row ∈ (commandsBySequence capsule).map CommandRow.untimed ↔ row ∈ rows := by
    intro row
    rw [List.mem_map]
    constructor
    · rintro ⟨r, hr, rfl⟩
      rw [commandsBySequence, (List.perm_insertionSort _ _).mem_iff, hstored] at hr
      have hfind := h r.sequence
      rw [hr, Option.map_some, eq_comm] at hfind
      exact List.mem_of_find?_eq_some hfind
    · intro hrow
      obtain ⟨r, hfind⟩ : ∃ r, rows.find? (fun r => r.sequence = row.sequence) = some r :=
        Option.isSome_iff_exists.mp (List.find?_isSome.mpr ⟨row, hrow, by simp⟩)
      have hsame : r.sequence = row.sequence := by simpa using List.find?_some hfind
      obtain rfl := List.inj_on_of_nodup_map hunique (List.mem_of_find?_eq_some hfind) hrow hsame
      obtain ⟨r', hr', hr⟩ := Option.map_eq_some_iff.mp ((h r.sequence).trans hfind)
      refine ⟨r', ?_, hr⟩
      rw [commandsBySequence, (List.perm_insertionSort _ _).mem_iff, hstored,
        hsequence _ _ hr', hr']
  have hkeys : (((commandsBySequence capsule).map CommandRow.untimed).map
      CommandRow.sequence).Nodup := by
    have hsame : (capsule.commands.entries.map fun entry => entry.2).map CommandRow.sequence =
        capsule.commands.keys := by
      rw [List.map_map]
      exact List.map_congr_left fun entry hentry =>
        hsequence entry.1 entry.2 (AList.mem_lookup_iff.mpr hentry)
    rw [List.map_map, show CommandRow.sequence ∘ CommandRow.untimed = CommandRow.sequence from rfl,
      commandsBySequence, ((List.perm_insertionSort _ _).map _).nodup_iff, hsame]
    exact capsule.commands.nodupKeys
  have hperm := (List.perm_ext_iff_of_nodup (List.Nodup.of_map _ hkeys)
    (List.Nodup.of_map _ hunique)).mpr hmem
  have hsorted : ((commandsBySequence capsule).map CommandRow.untimed).Pairwise
      fun a b => a.sequence ≤ b.sequence := by
    have htotal : Std.Total fun a b : CommandRow => a.sequence ≤ b.sequence :=
      ⟨fun a b => le_total a.sequence b.sequence⟩
    have htrans : IsTrans CommandRow fun a b => a.sequence ≤ b.sequence :=
      ⟨fun a b c hab hbc => le_trans hab hbc⟩
    exact List.pairwise_map.mpr (List.pairwise_insertionSort _ _)
  refine List.Perm.eq_of_pairwise (fun a b ha hb hab hba => ?_) hsorted
    (hrows.imp fun hlt => hlt.le) hperm
  exact List.inj_on_of_nodup_map hunique ((hmem a).mp ha) hb (le_antisymm hab hba)

theorem exitEnds_lastPhase (result : Int32) (cwd : Bytes) (j : ℕ) (r : Round) (rs : List Round) :
    exitEnds root (lastPhase j (r :: rs)) result cwd =
      lastEnd root (some (cwd, result)) j (r :: rs) := by
  induction rs generalizing j r with
  | nil =>
      rw [lastPhase, lastEnd, endingEvents]
      split <;> rfl
  | cons r' rs ih => exact ih (j + 1) r'

end table

/-! ### Whole sessions -/

section sessions

variable {calls : List ShellCall} (hprompt : StartsWithPrompt calls)
  (htwo : TwoStartsBetween calls) (hfits : ∀ call ∈ calls, call.Fits)
  (hcount : promptCount calls < 2 ^ 63) (root : Pid) (cwd : Bytes) (startNs : UInt64)
  {inputs rest : List SessionInput} {code signal : Int32} {t : UInt64}

include hprompt htwo hfits hcount

/-- The session of a shell that prints through its functions and then exits. -/
theorem session_listed
    (legal : Transducer.Legal (SessionAdmits root)
      (inputs ++ .other (.exited root code signal t) :: rest))
    (halive : rootAlive root (others inputs) = true)
    (hstream : stream inputs = (shellRun {} calls).2) (run : RunMetadata) :
    ∃ session es capsule exitCwd, Transducer.run (SessionState.step root)
        { execution := initialState root cwd none startNs }
        (inputs ++ .other (.exited root code signal t) :: rest) = .ok (session, es) ∧
      session.protocol.finish = .ok () ∧ emitAll (create run) es = .ok capsule ∧
      (commandsBySequence capsule).map CommandRow.untimed =
        transcript root (some (exitCwd, (exitResult code signal).toInt)) 0
          (splitRounds calls).2 := by
  rw [promptCount] at hcount
  have hcalls := flatMap_rounds hprompt
  obtain ⟨first, later, hrounds⟩ : ∃ r rs, (splitRounds calls).2 = r :: rs := by
    obtain ⟨status, pwd, rest, rfl⟩ := hprompt
    exact ⟨_, _, rfl⟩
  rw [hrounds] at hcalls hcount ⊢
  subst hcalls
  -- the decoder and the execution state follow the shell
  obtain ⟨shell, hshell, -⟩ := shellRun_rounds afterPrompts_zero (first :: later) (by omega)
  have hconsume : consume {} (stream inputs) = .ok ({}, roundsMarkers 0 (first :: later)) := by
    rw [hstream, hshell]
    exact consume_roundsText (by omega) hfits
  have hfollow : MarkerPhase.follow ((roundsMarkers 0 (first :: later)).map CommandMarker.key) =
      some (lastPhase 0 (first :: later)) :=
    foldlM_roundsMarkers (j := 0) fun past r r' rest hsplit => two_le_starts htwo hsplit
  obtain ⟨σ, before, hrun, hfollows⟩ := session_accepted cwd startNs legal.of_append
    halive hconsume (by rw [hfollow]; rfl)
  obtain ⟨τ, exit, exitCwd, hexit, hkeyed, hidle, hevents⟩ := hfollows.exited code signal t
  have hexited : rootAlive root (others
      (inputs ++ [.other (.exited root code signal t)])) = false := by
    simp [others, rootAlive, Notification.exits]
  obtain ⟨υ, after, hafter, hquiet⟩ := session_after_exit
    (show Transducer.Legal (SessionAdmits root)
      ((inputs ++ [.other (.exited root code signal t)]) ++ rest) by simpa using legal)
    hexited ⟨{}, τ⟩ hkeyed hidle
  have hwhole : Transducer.run (SessionState.step root)
      { execution := initialState root cwd none startNs }
      (inputs ++ .other (.exited root code signal t) :: rest) =
        .ok (⟨{}, υ⟩, before ++ (exit ++ after)) := by
    refine Transducer.run_append_ok_iff.mpr ⟨_, before, _, hrun, ?_, rfl⟩
    refine Transducer.run_cons_ok_iff.mpr ⟨⟨{}, τ⟩, exit, after, ?_, hafter, rfl⟩
    simp only [SessionState.step, hexit, Bind.bind, Except.bind]
  -- the command events are those of the rounds, each with its own end
  have hphase : σ.markerPhase = lastPhase 0 (first :: later) :=
    Option.some.inj (hfollows.phase.symm.trans hfollow)
  have hcommands : commandEvents (before ++ (exit ++ after)) =
      commandsEvents root (some (exitCwd, exitResult code signal)) 0 (first :: later) := by
    rw [← List.append_assoc, commandEvents_append, hevents, hquiet, List.append_nil, hphase,
      flatMap_roundsMarkers, exitEnds_lastPhase, roundsEvents_append_lastEnd]
    rfl
  obtain ⟨hes, -⟩ := session_events legal hwhole
  obtain ⟨hnodup, hbounds⟩ := startedIds_commandsEvents root
    (some (exitCwd, exitResult code signal)) (show 0 + (first :: later).length < 2 ^ 63 by omega)
  rw [← hcommands, startedIds_commandEvents] at hnodup hbounds
  obtain ⟨capsule, hcapsule⟩ := (emitAll_ok_iff_startedIds run hes).mpr
    ⟨hnodup, fun id hid => by have hle := (hbounds id hid).2; omega⟩
  have hlisted : (commandsBySequence capsule).map CommandRow.untimed =
      transcript root (some (exitCwd, (exitResult code signal).toInt)) 0 (first :: later) := by
    refine commandsBySequence_eq (commandTable_fold hes (commands_emitAll hcapsule)).sequence
      (pairwise_transcript root _ 0 _) fun k => ?_
    rw [lookup_untimed hes hcapsule, hcommands, foldl_commandsEvents root (by omega)]
    rfl
  exact ⟨_, _, capsule, exitCwd, hwhole, rfl, hcapsule, hlisted⟩

omit hprompt htwo hfits hcount in
/-- The list of the commands does not show their times. -/
theorem showCommands_of_untimed {capsule : Capsule} {rows : List CommandRow}
    (hlisted : (commandsBySequence capsule).map CommandRow.untimed = rows)
    (result : CollectionResult) :
    showCommands (finish capsule result) = lit "Commands" ++ newline ++
      orNone (lit "  none" ++ newline) (rows.map printCommandLine) ++ newline := by
  rw [← hlisted, List.map_map]
  rfl

/-- A shell that prints through its functions and then exits: whatever else
is reported in between, and however the bytes are cut into writes, the
recording is kept, and its commands are those of the shell, in order, each
with its text, its directory and how it ended. -/
theorem session_transcript
    (legal : Transducer.Legal (SessionAdmits root)
      (inputs ++ .other (.exited root code signal t) :: rest))
    (halive : rootAlive root (others inputs) = true)
    (hstream : stream inputs = (shellRun {} calls).2) (run : RunMetadata) :
    ∃ session es capsule exitCwd, Transducer.run (SessionState.step root)
        { execution := initialState root cwd none startNs }
        (inputs ++ .other (.exited root code signal t) :: rest) = .ok (session, es) ∧
      session.protocol.finish = .ok () ∧ emitAll (create run) es = .ok capsule ∧
      (commandsBySequence capsule).map CommandRow.untimed =
        transcript root (some (exitCwd, (exitResult code signal).toInt)) 0
          (splitRounds calls).2 ∧
      ∀ result, showCommands (finish capsule result) = lit "Commands" ++ newline ++
        orNone (lit "  none" ++ newline) ((transcript root
          (some (exitCwd, (exitResult code signal).toInt)) 0 (splitRounds calls).2).map
            printCommandLine) ++ newline := by
  obtain ⟨session, es, capsule, exitCwd, hrun, hfinish, hstored, hlisted⟩ :=
    session_listed hprompt htwo hfits hcount root cwd startNs legal halive hstream run
  exact ⟨session, es, capsule, exitCwd, hrun, hfinish, hstored, hlisted,
    showCommands_of_untimed hlisted⟩

end sessions

/-- Two rounds, cut inside a field, beside a child that outlives the shell. -/
def sampleInterleaving (bytes : Bytes) : List SessionInput :=
  [.other (.created 7 8 ptraceEventFork 0 1), .write (bytes.take 20) 2,
    .other (.exec 8 ⟨[], lit "/bin/ls"⟩ 3), .write (bytes.drop 20) 4]

theorem sampleInterleaving_legal (bytes : Bytes) :
    Transducer.Legal (SessionAdmits 7) (sampleInterleaving bytes ++
      .other (.exited 7 3 0 5) :: [.other (.exited 8 0 0 6)]) := by
  simp only [sampleInterleaving, List.cons_append, List.nil_append, Transducer.legal_cons_iff]
  exact ⟨⟨rfl, fun _ => rfl⟩, rfl, ⟨rfl, fun _ => rfl⟩, rfl, ⟨rfl, fun _ => rfl⟩,
    ⟨rfl, fun _ => rfl⟩, Transducer.legal_nil _⟩

theorem session_transcript_sample :
    ∃ session es capsule exitCwd, Transducer.run (SessionState.step 7)
        { execution := initialState 7 (lit "/") none 0 }
        (sampleInterleaving (shellRun {} ((List.replicate 2 sampleRound).flatMap Round.calls)).2 ++
          .other (.exited 7 3 0 5) :: [.other (.exited 8 0 0 6)]) = .ok (session, es) ∧
      session.protocol.finish = .ok () ∧ emitAll (create sampleRun) es = .ok capsule ∧
      (commandsBySequence capsule).map CommandRow.untimed =
        transcript 7 (some (exitCwd, 3)) 0 [sampleRound, sampleRound] := by
  obtain ⟨hprompt, htwo, hfits, hcount⟩ := sampleRounds (n := 2) (by omega)
  generalize hcalls : (List.replicate 2 sampleRound).flatMap Round.calls = calls at *
  have hstream : stream (sampleInterleaving (shellRun {} calls).2) = (shellRun {} calls).2 := by
    simp [stream, sampleInterleaving]
  obtain ⟨session, es, capsule, exitCwd, hrun, hfinish, hstored, hlisted, -⟩ :=
    session_transcript hprompt htwo hfits (by rw [hcount]; norm_num) 7 (lit "/") 0
      (sampleInterleaving_legal (shellRun {} calls).2) rfl hstream sampleRun
  refine ⟨session, es, capsule, exitCwd, hrun, hfinish, hstored, hlisted.trans ?_⟩
  rw [← hcalls, splitRounds_flatMap]
  rfl

end Whyrun
