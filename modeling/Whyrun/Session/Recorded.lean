import Whyrun.Session.Collected
import Whyrun.Session.Transcript

/-!
A session from its reports to its capsule. The loop runs the session machine
on what the reports carry, and a session of the shell functions is listed as
the shell went through it; so the recording of the loop, stored and shown, is
the transcript of the shell, under the exit code that the loop has read from
the last report of the root.
-/

namespace Whyrun

open ByteText ExecutionState CollectorState CapsuleWriter

/-! ### The status of the root -/

section status

variable {root : Pid} {σ σ' : CollectorState} {report : Report} {reports past : List Report}
  {inputs : List SessionInput} {es : List Event} {code signal : Int32} {t : UInt64}

/-- The loop that a run describes. -/
theorem collectLoop_of_run (hrun : Transducer.run loopStep σ reports = .ok (σ', es)) :
    σ.collectLoop reports = (σ', none) := by
  induction reports generalizing σ es with
  | nil =>
      rw [Transducer.run_nil] at hrun
      rw [collectLoop, (Prod.mk.inj (Except.ok.inj hrun)).1]
  | cons report reports ih =>
      obtain ⟨σ₁, o, o', hstep, hrest, -⟩ := Transducer.run_cons_ok_iff.mp hrun
      rw [collectLoop]
      rw [loopStep] at hstep
      cases hwaits : σ.waits with
      | true =>
          rw [hwaits, if_pos rfl] at hstep
          rw [if_pos rfl, hstep]
          exact ih hrest
      | false =>
          have hidle : Transducer.run loopStep σ reports = .ok (σ, []) :=
            Transducer.run_of_idle fun r _ => by rw [loopStep, hwaits]; rfl
          rw [hwaits] at hstep
          obtain ⟨rfl, -⟩ := Prod.mk.inj (Except.ok.inj hstep)
          obtain ⟨rfl, -⟩ := Prod.mk.inj (Except.ok.inj (hidle.symm.trans hrest))
          rfl

theorem outcome_loopStep (hother : ¬ report.Ends σ.rootPid)
    (hstep : σ.loopStep report = .ok (σ', es)) : σ'.outcome = σ.outcome := by
  rw [loopStep] at hstep
  split at hstep
  · rw [outcome_collectStep hstep]
    exact if_neg hother
  · rw [(Prod.mk.inj (Except.ok.inj hstep)).1]

/-- Reports that do not end the root leave its status alone. -/
theorem outcome_run_of_others (hothers : ∀ r ∈ reports, ¬ r.Ends σ.rootPid)
    (hrun : Transducer.run loopStep σ reports = .ok (σ', es)) : σ'.outcome = σ.outcome := by
  induction reports generalizing σ es with
  | nil =>
      rw [Transducer.run_nil] at hrun
      rw [(Prod.mk.inj (Except.ok.inj hrun)).1]
  | cons report reports ih =>
      obtain ⟨hreport, hreports⟩ := List.forall_mem_cons.mp hothers
      obtain ⟨σ₁, o, o', hstep, hrest, -⟩ := Transducer.run_cons_ok_iff.mp hrun
      have hsame := outcome_loopStep hreport hstep
      have hroot : σ₁.rootPid = σ.rootPid := congrArg Prod.fst hsame
      rw [ih (by rwa [hroot]) hrest, hsame]

/-- An exit among the calls of a turn is the one that its report tells. -/
theorem exitStatus_of_mem (h : .exited root code signal t ∈ σ.unmarkedCalls report) :
    report.Ends root ∧ report.exitStatus = (exitResult code signal, signal) := by
  have hends : report.Ends root := (mem_unmarkedCalls h).2.1 root (by simp [Notification.exits])
  have hcalls : σ.unmarkedCalls report = (σ.exitTurn report).notifications := by
    rw [unmarkedCalls, collectTurn_of_isEnd hends.1]
    rfl
  rw [hcalls] at h
  obtain ⟨-, hcode, hsignal, -⟩ := Notification.exited.inj (List.mem_singleton.mp h)
  refine ⟨hends, ?_⟩
  rw [hcode, hsignal]
  rfl

theorem mem_sessionInputs {n : Notification} (hinputs : σ.sessionInputs report = .ok inputs)
    (hn : .other n ∈ inputs) : n ∈ σ.unmarkedCalls report := by
  unfold sessionInputs at hinputs
  cases hreceived : σ.received report with
  | error e => simp [hreceived, Except.map] at hinputs
  | ok bytes =>
      rw [hreceived] at hinputs
      rw [← Except.ok.inj hinputs] at hn
      simpa using hn

/-- Once the reports carry an exit of the root, the loop has its status. -/
theorem outcome_of_exited (hroot : σ.rootPid = root)
    (hadmits : ∀ p r rest, reports = p ++ r :: rest → ReportAdmits root (past ++ p) r)
    (hcarried : σ.carried reports = .ok inputs)
    (hexited : .other (.exited root code signal t) ∈ inputs)
    (hrun : Transducer.run loopStep σ reports = .ok (σ', es)) :
    σ'.outcome = (root, true, σ.result.collectorOk, exitResult code signal, signal) := by
  induction reports generalizing σ past inputs es with
  | nil =>
      rw [← Except.ok.inj hcarried] at hexited
      contradiction
  | cons report reports ih =>
      cases hwaits : σ.waits with
      | false =>
          rw [carried, hwaits] at hcarried
          rw [← Except.ok.inj hcarried] at hexited
          contradiction
      | true =>
          obtain ⟨σ₁, o, o', hstep, hrest, -⟩ := Transducer.run_cons_ok_iff.mp hrun
          rw [loopStep, hwaits, if_pos rfl] at hstep
          obtain ⟨first, hfirst, -, hsplit⟩ := carried_of_ok reports hwaits hstep
          have hroot₁ : σ₁.rootPid = root := (rootPid_collectStep hstep).trans hroot
          rw [hsplit] at hcarried
          cases hmore : σ₁.carried reports with
          | error e => simp [hmore, Except.map] at hcarried
          | ok more =>
              rw [hmore] at hcarried
              rw [← Except.ok.inj hcarried] at hexited
              rcases List.mem_append.mp hexited with hnow | hlater
              · -- the report of the end, after which the root is not heard of
                obtain ⟨hends, hstatus⟩ := exitStatus_of_mem (mem_sessionInputs hfirst hnow)
                have hothers : ∀ r ∈ reports, ¬ r.Ends σ₁.rootPid := by
                  intro r hr hend
                  obtain ⟨p, rest, rfl⟩ := List.append_of_mem hr
                  refine (hadmits (report :: p) r rest rfl).reported (hroot₁ ▸ hend.2) report
                    ?_ hends
                  simp
                rw [outcome_run_of_others hothers hrest, outcome_collectStep hstep,
                  if_pos (by rw [hroot]; exact hends), hroot, hstatus]
              · have hok : σ₁.result.collectorOk = σ.result.collectorOk := by
                  have houtcome := outcome_collectStep hstep
                  have hthird := congrArg (fun o => o.2.2.1) houtcome
                  refine hthird.trans ?_
                  split <;> rfl
                have hadmits' : ∀ p r rest, reports = p ++ r :: rest →
                    ReportAdmits root ((past ++ [report]) ++ p) r := by
                  intro p r rest hsplit'
                  rw [List.append_assoc]
                  exact hadmits (report :: p) r rest (by rw [hsplit']; rfl)
                rw [← hok]
                exact ih hroot₁ hadmits' hmore hlater hrest

end status

/-! ### Requests that are answered -/

/-- No request of the turn fails, except that a task may be gone when its
registers are read and when it is resumed. -/
structure Report.Answered (report : Report) : Prop extends report.OnlyVanishes where
  configured : report.isStopped = true → report.setOptions ≠ .esrch
  created : report.isCreation = true → report.eventMessage ≠ .esrch

section answered

variable {σ σ' : CollectorState} {report : Report} {reports : List Report} {turn : Turn}
  {es : List Event}

theorem returned_syscallTurn (h : report.Answered) (hgoes : σ.returned = false)
    (hturn : σ.syscallTurn report = .ok turn) : turn.state.returned = false := by
  rcases syscallTurn_inv hturn with ⟨-, rfl⟩ | ⟨_, _, hfailed, -⟩ | ⟨_, -, -, rfl⟩ |
    ⟨_, -, -, hexit⟩
  · exact hgoes
  · have hregisters := h.registers
    simp [hfailed, Answer.hasFailed] at hregisters
  · exact hgoes
  · obtain ⟨_, _, rfl, -⟩ := syscallExitTurn_inv rfl hexit
    exact hgoes

theorem returned_eventTurn (h : report.Answered) (hstop : report.isStopped = true)
    (htrap : report.highByte = sigTrap) (hgoes : σ.returned = false) :
    (σ.eventTurn report).state.returned = false := by
  unfold eventTurn
  split
  · rename_i hevent
    have hcreation : report.isCreation = true := by
      simpa [Report.isCreation, hstop, htrap, or_assoc] using hevent
    cases hmessage : report.eventMessage with
    | ok childTid => exact hgoes
    | esrch => exact absurd hmessage (h.created hcreation)
    | failed strerror =>
        have hfailed := h.eventMessage
        simp [hmessage, Answer.hasFailed] at hfailed
  · split <;> exact hgoes

theorem returned_stopTurn (h : report.Answered) (hstop : report.isStopped = true)
    (hgoes : σ.returned = false) (hturn : σ.stopTurn report = .ok turn) :
    turn.state.returned = false := by
  unfold stopTurn at hturn
  split at hturn
  · obtain ⟨inner, hinner, hlast⟩ := Transducer.bind_ok_iff.mp hturn
    have hinside := returned_syscallTurn h hgoes hinner
    rw [hinside, if_neg Bool.false_ne_true, resumeSyscall_of_answered _ _ h.resume] at hlast
    rw [← Except.ok.inj hlast]
    exact hinside
  split at hturn
  · rename_i hevent
    have hinside := returned_eventTurn h hstop hevent.1 hgoes
    dsimp only at hturn
    rw [hinside, if_neg Bool.false_ne_true, resumeSyscall_of_answered _ _ h.resume] at hturn
    rw [← Except.ok.inj hturn]
    exact hinside
  · dsimp only at hturn
    rw [resumeSyscall_of_answered _ _ h.resume] at hturn
    rw [← Except.ok.inj hturn]
    exact hgoes

theorem returned_collectTurn (h : report.Answered) (hgoes : σ.returned = false)
    (hturn : σ.collectTurn report = .ok turn) : turn.state.returned = false := by
  cases hend : report.isEnd with
  | true =>
      rw [collectTurn_of_isEnd hend] at hturn
      rw [← Except.ok.inj hturn]
      unfold exitTurn
      dsimp only
      split <;> exact hgoes
  | false =>
      cases hstop : report.isStopped with
      | false =>
          rw [collectTurn_of_quiet hend hstop] at hturn
          rw [← Except.ok.inj hturn]
          exact hgoes
      | true =>
          obtain ⟨requests, -, hconfigured⟩ :=
            configureTurn_of_answered (σ := σ) h.setOptions fun _ => h.configured hstop
          have hgoes' : (σ.atStop report).returned = false := hgoes
          rw [collectTurn_of_isStopped hstop, hconfigured] at hturn
          dsimp only at hturn
          rw [hgoes', if_neg Bool.false_ne_true] at hturn
          obtain ⟨inner, hinner, hlast⟩ := Transducer.bind_ok_iff.mp hturn
          rw [← Except.ok.inj hlast]
          show inner.state.returned = false
          exact returned_stopTurn h hstop hgoes' hinner

/-- A loop whose requests are answered is left at its end. -/
theorem returned_run (hanswered : ∀ r ∈ reports, r.Answered) (hgoes : σ.returned = false)
    (hrun : Transducer.run loopStep σ reports = .ok (σ', es)) : σ'.returned = false := by
  induction reports generalizing σ es with
  | nil =>
      rw [Transducer.run_nil] at hrun
      rw [← (Prod.mk.inj (Except.ok.inj hrun)).1]
      exact hgoes
  | cons report reports ih =>
      obtain ⟨hreport, hreports⟩ := List.forall_mem_cons.mp hanswered
      obtain ⟨σ₁, o, o', hstep, hrest, -⟩ := Transducer.run_cons_ok_iff.mp hrun
      refine ih hreports ?_ hrest
      rw [loopStep] at hstep
      split at hstep
      · obtain ⟨turn, _, hturn, -, rfl⟩ := collectStep_inv hstep
        exact returned_collectTurn hreport hgoes hturn
      · rw [← (Prod.mk.inj (Except.ok.inj hstep)).1]
        exact hgoes

end answered

/-! ### The whole recording -/

/-- What `show_run_header` prints of a session. -/
def sessionHeader (run : RunMetadata) (exitCode termSignal : Int32) : Bytes :=
  lit "Session" ++ newline ++ lit "  shell " ++ columnText (formatCommand run.command) ++
    newline ++ newline ++ lit "Exit" ++ newline ++ lit "  code " ++ decimal exitCode.toInt ++
    (if termSignal = 0 then [] else lit " (signal " ++ decimal termSignal.toInt ++ lit ")") ++
    newline ++ newline

/-- The list of the commands of a shell that ends with an exit. -/
def transcriptText (root : Pid) (exitCwd : Bytes) (exitCode : Int32) (calls : List ShellCall) :
    Bytes :=
  lit "Commands" ++ newline ++
    orNone (lit "  none" ++ newline)
      ((transcript root (some (exitCwd, exitCode.toInt)) 0 (splitRounds calls).2).map
        printCommandLine) ++ newline

theorem showCapsule_session {run : RunMetadata} {es : List Event} {capsule : Capsule}
    (hmode : run.mode = .session) (hstore : emitAll (create run) es = .ok capsule)
    (result : CollectionResult) :
    showCapsule (finish capsule result) false none =
      .ok (sessionHeader run result.exitCode result.termSignal ++
        showCommands (finish capsule result) ++ showSections capsule none, []) := by
  have hrun : capsule.run = (create run).run := by
    obtain ⟨_, _, -, -, rfl⟩ := emitAll_ok_iff.mp hstore
    rfl
  have hsession : (finish capsule result).run.mode = lit "session" := by
    show capsule.run.mode = _
    rw [hrun]
    show runModeName run.mode = _
    rw [hmode]
    rfl
  have hshell : (finish capsule result).run.command = formatCommand run.command := by
    show capsule.run.command = _
    rw [hrun]
    rfl
  have hsignal : columnInteger (finish capsule result).run.termSignal = 0 ↔
      result.termSignal = 0 := by
    show result.termSignal.toInt = 0 ↔ _
    rw [← Int32.toInt_inj]
    rfl
  have hheader : (showRunHeader (finish capsule result)).1 =
      sessionHeader run result.exitCode result.termSignal := by
    simp only [showRunHeader, hsession, hshell, ne_eq, ite_not, hsignal]
    rfl
  unfold showCapsule
  dsimp only
  rw [hsession, if_pos rfl, hheader]
  rfl

/-- `collect` when the loop is left at its end and no marker is cut off. -/
theorem collect_of_left {launch : Launch} {reports : List Report} {σ : CollectorState}
    (hset : launch.setOptions.error = none) (hresume : launch.resume.hasFailed = false)
    (hleft : launch.start.collectLoop reports = (σ, none)) (hgoes : σ.returned = false)
    (hprotocol : σ.protocol.finish = .ok ()) (endNs : UInt64) :
    collect launch reports endNs = (.ok (σ.finished endNs), ∅) := by
  have hfinished : σ.finish launch.channelFd endNs = .ok (σ.finished endNs) :=
    finish_ok_iff.mpr ⟨fun _ => hprotocol, rfl⟩
  unfold collect
  rw [hset]
  cases hanswer : launch.resume with
  | failed strerror => simp [hanswer, Answer.hasFailed] at hresume
  | ok value => simp only [hleft, hgoes, hfinished, Bool.false_eq_true, if_false]
  | esrch => simp only [hleft, hgoes, hfinished, Bool.false_eq_true, if_false]

section recorded

variable {calls : List ShellCall} (hprompt : StartsWithPrompt calls)
  (htwo : TwoStartsBetween calls) (hfits : ∀ call ∈ calls, call.Fits)
  (hcount : promptCount calls < 2 ^ 63) (launch : Launch) {reports : List Report}
  {inputs rest : List SessionInput} {code signal : Int32} {t : UInt64}

include hprompt htwo hfits hcount

/-- A recorded session, from what `waitpid` and the memory of the tracees
answer to what `show` prints: when the root has printed what the shell
functions print, and the requests are answered, `collect` does not throw
and returns the status of the root, the capsule is stored, and under this
status it shows the transcript of the shell. -/
theorem recorded_session (hsession : launch.rootCommand = none)
    (hset : launch.setOptions.error = none) (hresume : launch.resume.hasFailed = false)
    (hanswered : ∀ report ∈ reports, report.Answered)
    (hadmits : Transducer.Legal (ReportAdmits launch.root) reports)
    (hcarried : launch.start.carried reports =
      .ok (inputs ++ .other (.exited launch.root code signal t) :: rest))
    (halive : rootAlive launch.root (others inputs) = true)
    (hstream : stream inputs = (shellRun {} calls).2) {run : RunMetadata}
    (hmode : run.mode = .session) (endNs : UInt64) :
    ∃ σ es result capsule exitCwd, Transducer.run loopStep launch.start reports = .ok (σ, es) ∧
      collect launch reports endNs = (.ok result, ∅) ∧ result.collectorOk = true ∧
      result.exitCode = exitResult code signal ∧ emitAll (create run) es = .ok capsule ∧
      showCapsule (finish capsule result) false none =
        .ok (sessionHeader run (exitResult code signal) signal ++
          transcriptText launch.root exitCwd (exitResult code signal) calls ++
          showSections capsule none, []) := by
  have hreports : ∀ p r rest, reports = p ++ r :: rest → ReportAdmits launch.root ([] ++ p) r :=
    fun p r rest hsplit => hadmits p r rest hsplit
  have hlegal : Transducer.Legal (SessionAdmits launch.root)
      ([] ++ (inputs ++ .other (.exited launch.root code signal t) :: rest)) :=
    legal_carried rfl hreports (Transducer.legal_nil _) (by simp [others]) hcarried
  have hexecution : launch.start.execution =
      initialState launch.root launch.cwd none launch.startNs := by
    rw [← hsession]
    rfl
  obtain ⟨session, es, capsule, exitCwd, hmachine, hfinish, hstored, hlisted⟩ :=
    session_listed hprompt htwo hfits hcount launch.root launch.cwd launch.startNs hlegal halive
      hstream run
  -- the loop does what the machine does
  have hloop := run_session launch.start reports
  have hbegin : launch.start.session =
      { execution := initialState launch.root launch.cwd none launch.startNs } := by
    rw [← hexecution]
    rfl
  rw [hcarried, hbegin, show launch.start.rootPid = launch.root from rfl] at hloop
  obtain ⟨σ, hrun, hend⟩ : ∃ σ, Transducer.run loopStep launch.start reports = .ok (σ, es) ∧
      σ.session = session := by
    rw [show Except.bind (Except.ok _) _ = Transducer.run _ _ _ from rfl, hmachine] at hloop
    cases hresult : Transducer.run loopStep launch.start reports with
    | error e => simp [hresult, Except.map] at hloop
    | ok r =>
        rw [hresult] at hloop
        obtain ⟨hsame, hevents⟩ := Prod.mk.inj (Except.ok.inj hloop)
        exact ⟨r.1, by rw [← hevents], hsame⟩
  -- its result
  have hleft := collectLoop_of_run hrun
  have hexited : SessionInput.other (.exited launch.root code signal t) ∈
      inputs ++ .other (.exited launch.root code signal t) :: rest := by simp
  have houtcome := outcome_of_exited rfl hreports hcarried hexited hrun
  simp only [CollectorState.outcome, Prod.mk.injEq] at houtcome
  obtain ⟨-, hseen, -, hcode, hsignal⟩ := houtcome
  have hprotocol : σ.protocol.finish = .ok () := by
    show σ.session.protocol.finish = _
    rw [hend, hfinish]
  have hcollect : collect launch reports endNs = (.ok (σ.finished endNs), ∅) :=
    collect_of_left hset hresume hleft (returned_run hanswered rfl hrun) hprotocol endNs
  refine ⟨σ, es, σ.finished endNs, capsule, exitCwd, hrun, hcollect, hseen, hcode, hstored, ?_⟩
  rw [showCapsule_session hmode hstored, showCommands_of_untimed hlisted,
    show (σ.finished endNs).exitCode = _ from hcode,
    show (σ.finished endNs).termSignal = _ from hsignal]
  rfl

end recorded

/-- The shell behind `sampleStream`: `ls` ends with status 2, and the shell
exits in the middle of `pwd`. -/
def sampleTyped : List Round :=
  [sampleRound, ⟨2, lit "/srv", [(lit "/srv", lit "2  ", lit "pwd"),
    (lit "/srv", lit "2  ", lit "pwd")]⟩]

theorem sampleTyped_fits : ∀ call ∈ sampleTyped.flatMap Round.calls, call.Fits := by
  have hpwd : CommandProtocol.FieldFits (lit "/srv") := ⟨by decide, by decide⟩
  have hstart : ShellCall.Fits (.start (lit "/srv") (lit "2  ") (lit "pwd")) :=
    ⟨hpwd, ⟨by decide, by decide⟩, by decide⟩
  intro call hcall
  obtain ⟨r, hr, hcall⟩ := List.mem_flatMap.mp hcall
  simp only [sampleTyped, List.mem_cons, List.not_mem_nil, or_false] at hr
  rcases hr with rfl | rfl
  · exact sampleRound_fits call hcall
  · simp only [Round.calls, startCalls, List.map_cons, List.map_nil, List.mem_cons,
      List.not_mem_nil, or_false] at hcall
    rcases hcall with rfl | rfl | rfl
    · exact hpwd
    · exact hstart
    · exact hstart

theorem stream_sampleInputs :
    stream sampleInputs = (shellRun {} (sampleTyped.flatMap Round.calls)).2 := by
  have hwrites : ∀ bytes, stream (sampleWriteInputs bytes) = bytes := fun bytes => by
    simp [stream, sampleWriteInputs]
  have hstream : sampleStream = (shellRun {} (sampleTyped.flatMap Round.calls)).2 := by decide
  rw [← hstream, sampleInputs, stream_append, hwrites, hwrites, List.take_append_drop]

theorem Report.Answered.of_ok {report : Report} (hset : report.setOptions = .ok ())
    (hcreation : report.isCreation = false) (h : report.OnlyVanishes) : report.Answered :=
  ⟨h, fun _ => by simp [hset], fun hcreated => by simp [hcreation] at hcreated⟩

theorem sampleWrite_answered (bytes : Bytes) (rax : UInt64) :
    (sampleWrite bytes rax).Answered := by
  have hhigh : (sampleWrite bytes rax).highByte ≠ sigTrap := by
    show ((34175 : UInt32) >>> 8) &&& 0xff ≠ 5
    decide
  refine .of_ok rfl ?_ ⟨rfl, rfl, rfl, rfl⟩
  simp [Report.isCreation, hhigh]

theorem sampleShell_answered : ∀ report ∈ sampleShell, report.Answered := by
  intro report hreport
  simp only [sampleShell, sampleWrites, List.mem_append, List.mem_cons, List.not_mem_nil,
    or_false] at hreport
  rcases hreport with ((rfl | rfl) | rfl | rfl) | rfl
  · exact sampleWrite_answered _ _
  · exact sampleWrite_answered _ _
  · exact sampleWrite_answered _ _
  · exact sampleWrite_answered _ _
  · exact .of_ok rfl rfl ⟨rfl, rfl, rfl, rfl⟩

/-- The next prompt ends the first command and the exit of the shell the
second. -/
theorem recorded_session_sample :
    ∃ σ es result capsule exitCwd,
      Transducer.run loopStep shellLaunch.start sampleShell = .ok (σ, es) ∧
      collect shellLaunch sampleShell 9 = (.ok result, ∅) ∧ result.collectorOk = true ∧
      result.exitCode = exitResult 2 0 ∧ emitAll (create sampleRun) es = .ok capsule ∧
      showCapsule (finish capsule result) false none =
        .ok (sessionHeader sampleRun (exitResult 2 0) 0 ++
          transcriptText 7 exitCwd (exitResult 2 0) (sampleTyped.flatMap Round.calls) ++
          showSections capsule none, []) ∧
      transcriptText 7 exitCwd (exitResult 2 0) (sampleTyped.flatMap Round.calls) =
        lit "Commands" ++ newline ++ lit "  1  ls (exit 2)" ++ newline ++
          lit "  2  pwd (exit 2)" ++ newline ++ newline := by
  have htwo : TwoStartsBetween (sampleTyped.flatMap Round.calls) :=
    twoStartsBetween_flatMap (by decide)
  have hcount : promptCount (sampleTyped.flatMap Round.calls) < 2 ^ 63 := by
    rw [promptCount, splitRounds_flatMap]
    decide
  obtain ⟨σ, es, result, capsule, exitCwd, hrun, hcollect, hok, hcode, hstored, hshown⟩ :=
    recorded_session ⟨_, _, _, rfl⟩ htwo sampleTyped_fits hcount shellLaunch rfl rfl rfl
      sampleShell_answered sampleShell_legal carried_sampleShell rfl stream_sampleInputs
      (show sampleRun.mode = .session from rfl) 9
  exact ⟨σ, es, result, capsule, exitCwd, hrun, hcollect, hok, hcode, hstored, hshown, rfl⟩

end Whyrun
