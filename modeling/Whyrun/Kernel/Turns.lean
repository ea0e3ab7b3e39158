import Whyrun.Kernel.SyscallStops

/-!
What one turn of the collector's loop can do, branch by branch.
-/

namespace Whyrun

open CollectorState

variable {σ σ' : CollectorState} {report : Report} {turn : Turn}

theorem Report.not_isEnd_of_isStopped {report : Report} (h : report.isStopped = true) :
    report.isEnd = false := by
  have hsignal : report.termSignal = 0x7f := by
    have hlow : report.status &&& 0xff = 0x7f := by simpa [isStopped] using h
    calc report.status &&& 0x7f = (report.status &&& 0xff) &&& 0x7f := by
          rw [UInt32.and_assoc]
          rfl
      _ = 0x7f := by
          rw [hlow]
          rfl
  simp [isEnd, hasExited, isSignaled, hsignal]

theorem collectTurn_of_isEnd (h : report.isEnd = true) :
    σ.collectTurn report = .ok (σ.exitTurn report) := by
  have hend : report.hasExited = true ∨ report.isSignaled = true := by
    simpa [Report.isEnd] using h
  rw [collectTurn, if_pos hend]

theorem collectTurn_of_quiet (hend : report.isEnd = false) (hstop : report.isStopped = false) :
    σ.collectTurn report = .ok { state := σ } := by
  have hend' : ¬ (report.hasExited = true ∨ report.isSignaled = true) := by
    simpa [Report.isEnd] using hend
  rw [collectTurn, if_neg hend', if_pos (by simp [hstop])]

theorem collectTurn_of_isStopped (hstop : report.isStopped = true) :
    σ.collectTurn report =
      (let configured :=
        configureTurn { σ with liveTids := insert report.tid σ.liveTids } report
      if configured.state.returned then .ok configured
      else do
        let turn ← configured.state.stopTurn report
        .ok { turn with requests := configured.requests ++ turn.requests }) := by
  have hend : ¬ (report.hasExited = true ∨ report.isSignaled = true) := by
    simpa [Report.isEnd] using Report.not_isEnd_of_isStopped hstop
  rw [collectTurn, if_neg hend, if_neg (by simp [hstop])]

/-- Whatever the options do, the rest of the turn starts from a state that
differs in the set of tasks only. -/
theorem configureTurn_state (σ : CollectorState) (report : Report) :
    ∃ configuredTids result returned, (configureTurn σ report).state =
      { σ with configuredTids, returned, result := { σ.result with error := result } } := by
  unfold configureTurn
  split
  · exact ⟨_, _, _, rfl⟩
  · split
    · exact ⟨_, _, _, rfl⟩
    · exact ⟨_, _, _, rfl⟩

theorem configureTurn_notifications (σ : CollectorState) (report : Report) :
    (configureTurn σ report).notifications = [] := by
  unfold configureTurn
  split
  · rfl
  · split <;> rfl

/-- The exit of a call: the call is reported after the markers that it
carried. -/
theorem syscallExitTurn_inv {thread : ThreadState} {registers : Registers} {call : RawSyscall}
    (hcall : σ.rawSyscall report.tid thread registers report.nowNs = call)
    (h : σ.syscallExitTurn report thread registers = .ok turn) :
    ∃ protocol, ∃ markers : List CommandMarker,
      turn =
        { state := { σ.setThread report.tid (some { thread with inSyscall := false }) with
            protocol
            channel := if report.tid = σ.rootPid then σ.channel.observe call else σ.channel }
          notifications :=
            (markers.map fun marker => .marker report.tid marker report.nowNs) ++
              [.syscall report.memory call] } ∧
      (markers = [] ∨
        (report.tid = σ.rootPid ∧ σ.channel.receives call ∧ 0 < call.result) ∧
          ∃ bytes, channelBytes report call = .ok bytes ∧
            σ.protocol.consume bytes = .ok (protocol, markers)) := by
  simp only [syscallExitTurn, hcall] at h
  have htime : call.timestampNs = report.nowNs := by
    rw [← hcall]
    rfl
  by_cases hwrite : report.tid = σ.rootPid ∧ σ.channel.receives call = true ∧ 0 < call.result
  · rw [if_pos hwrite] at h
    obtain ⟨bytes, hbytes, hrest⟩ := Transducer.bind_ok_iff.mp h
    obtain ⟨⟨protocol, markers⟩, hconsume, hlast⟩ := Transducer.bind_ok_iff.mp hrest
    rw [htime] at hlast
    exact ⟨protocol, markers, (Except.ok.inj hlast).symm, .inr ⟨hwrite, bytes, hbytes, hconsume⟩⟩
  · rw [if_neg hwrite] at h
    obtain ⟨⟨protocol, markers⟩, hread, hlast⟩ := Transducer.bind_ok_iff.mp h
    obtain ⟨rfl, rfl⟩ := Prod.mk.inj (Except.ok.inj hread)
    rw [htime] at hlast
    exact ⟨_, [], (Except.ok.inj hlast).symm, .inl rfl⟩

/-- A system call stop: the task is gone, its registers cannot be read, a call
is entered or a call is left. -/
theorem syscallTurn_inv (h : σ.syscallTurn report = .ok turn) :
    report.registers = .esrch ∧ turn = { state := σ } ∨
    (∃ strerror message, report.registers = .failed strerror ∧
      turn = { state := σ.fail message }) ∨
    (∃ registers, report.registers = .ok registers ∧
      ((σ.threads report.tid).getD {}).inSyscall = false ∧
      turn = { state := σ.setThread report.tid (some
        { inSyscall := true, syscallNumber := registers.origRax.toInt64
          args := syscallArgs registers }) }) ∨
    ∃ registers, report.registers = .ok registers ∧
      ((σ.threads report.tid).getD {}).inSyscall = true ∧
      σ.syscallExitTurn report ((σ.threads report.tid).getD {}) registers = .ok turn := by
  unfold syscallTurn at h
  cases hregisters : report.registers with
  | esrch =>
      simp only [hregisters, Except.ok.injEq] at h
      exact .inl ⟨rfl, h.symm⟩
  | failed strerror =>
      simp only [hregisters, Except.ok.injEq] at h
      exact .inr (.inl ⟨strerror, _, rfl, h.symm⟩)
  | ok registers =>
      simp only [hregisters] at h
      cases hinside : ((σ.threads report.tid).getD {}).inSyscall with
      | false =>
          simp only [hinside, Bool.not_false, if_true, Except.ok.injEq] at h
          exact .inr (.inr (.inl ⟨registers, rfl, rfl, h.symm⟩))
      | true =>
          simp only [hinside, Bool.not_true, Bool.false_eq_true, if_false] at h
          exact .inr (.inr (.inr ⟨registers, rfl, rfl, h⟩))

/-- A step is a turn and its calls on the execution state. -/
theorem collectStep_inv {es : List Event} (h : σ.collectStep report = .ok (σ', es)) :
    ∃ turn execution, σ.collectTurn report = .ok turn ∧
      Transducer.run ExecutionState.notify turn.state.execution turn.notifications =
        .ok (execution, es) ∧
      σ' = { turn.state with execution } := by
  obtain ⟨turn, hturn, hrest⟩ := Transducer.bind_ok_iff.mp h
  obtain ⟨⟨execution, events⟩, hcalls, hlast⟩ := Transducer.bind_ok_iff.mp hrest
  obtain ⟨rfl, rfl⟩ := Prod.mk.inj (Except.ok.inj hlast)
  exact ⟨turn, execution, hturn, hcalls, rfl⟩

/-- The states differ in the sets of tasks and in how the loop is left. -/
def CollectorState.Configures (σ τ : CollectorState) : Prop :=
  ∃ liveTids configuredTids returned error,
    τ = { σ with liveTids, configuredTids, returned, result := { σ.result with error } }

/-- A property of turns that does not look at the sets of tasks or at how the
loop is left holds of every turn when it holds of the branches. -/
theorem collectTurn_rule {motive : CollectorState → List Notification → Prop}
    (frame : ∀ τ τ' ns, τ.Configures τ' → motive τ ns → motive τ' ns)
    (exit : report.isEnd = true →
      motive (σ.exitTurn report).state (σ.exitTurn report).notifications)
    (quiet : report.isEnd = false → motive σ [])
    (syscall : ∀ τ turn, report.isEnd = false → report.isSyscallStop = true → σ.Configures τ →
      τ.syscallTurn report = .ok turn → motive turn.state turn.notifications)
    (event : ∀ τ, report.isEnd = false → σ.Configures τ →
      motive (τ.eventTurn report).state (τ.eventTurn report).notifications)
    (h : σ.collectTurn report = .ok turn) : motive turn.state turn.notifications := by
  have resume : ∀ turn signal, motive turn.state turn.notifications →
      motive (resumeSyscall turn report signal).state
        (resumeSyscall turn report signal).notifications := by
    intro turn signal hturn
    unfold resumeSyscall
    dsimp only
    split
    · exact frame turn.state _ _ ⟨_, _, _, _, rfl⟩ hturn
    · exact hturn
  cases hend : report.isEnd with
  | true =>
      rw [collectTurn_of_isEnd hend] at h
      rw [← Except.ok.inj h]
      exact exit hend
  | false =>
      cases hstop : report.isStopped with
      | false =>
          rw [collectTurn_of_quiet hend hstop] at h
          rw [← Except.ok.inj h]
          exact quiet hend
      | true =>
          rw [collectTurn_of_isStopped hstop] at h
          dsimp only at h
          have hconfigured : σ.Configures (configureTurn { σ with
              liveTids := insert report.tid σ.liveTids } report).state := by
            obtain ⟨_, _, _, hstate⟩ :=
              configureTurn_state { σ with liveTids := insert report.tid σ.liveTids } report
            rw [hstate]
            exact ⟨_, _, _, _, rfl⟩
          split at h
          · rw [← Except.ok.inj h, configureTurn_notifications]
            exact frame σ _ [] hconfigured (quiet hend)
          · generalize (configureTurn { σ with liveTids := insert report.tid σ.liveTids }
              report).state = τ at h hconfigured
            obtain ⟨inner, hturn, hlast⟩ := Transducer.bind_ok_iff.mp h
            rw [← Except.ok.inj hlast]
            show motive inner.state inner.notifications
            unfold stopTurn at hturn
            split at hturn
            · rename_i htrap
              obtain ⟨call, hsyscall, hrest⟩ := Transducer.bind_ok_iff.mp hturn
              have hcall := syscall τ call hend
                (by simp [Report.isSyscallStop, hstop, htrap]) hconfigured hsyscall
              split at hrest
              · rw [← Except.ok.inj hrest]
                exact hcall
              · rw [← Except.ok.inj hrest]
                exact resume _ _ hcall
            · split at hturn
              · dsimp only at hturn
                split at hturn
                · rw [← Except.ok.inj hturn]
                  exact event τ hend hconfigured
                · rw [← Except.ok.inj hturn]
                  exact resume _ _ (event τ hend hconfigured)
              · rw [← Except.ok.inj hturn]
                exact resume _ _ (frame σ τ [] hconfigured (quiet hend))

end Whyrun
