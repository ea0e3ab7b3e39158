import Whyrun.Execution.Runs
import Whyrun.Kernel.Vanishing

/-!
Recordings in which tasks vanish. One goes on over every report, kills no
task and returns the root's exit status exactly when every turn spares the
tasks that are gone.
-/

namespace Whyrun

open ByteText CollectorState ExecutionState

variable {σ σ' : CollectorState} {report : Report} {turn : Turn} {es : List Event}

/-! ### One turn and its calls on the execution state -/

/-- The calls of a turn on the execution state go through. -/
def Turn.Accepted (turn : Turn) : Prop :=
  ∃ r, Transducer.run notify turn.state.execution turn.notifications = .ok r

theorem Turn.accepted_of_nil (h : turn.notifications = []) : turn.Accepted :=
  ⟨_, by rw [h, Transducer.run_nil]⟩

theorem Turn.accepted_of_single {n : Notification} (h : turn.notifications = [n])
    (hn : n.isMarker = false) : turn.Accepted := by
  obtain ⟨r, hr⟩ := notify_ok_of_not_marker turn.state.execution hn
  exact ⟨r, by rw [h, Transducer.run_singleton, hr]⟩

theorem accepted_eventTurn : (σ.eventTurn report).Accepted := by
  unfold eventTurn
  split
  · split
    · exact Turn.accepted_of_single rfl rfl
    · exact Turn.accepted_of_nil rfl
  · split
    · exact Turn.accepted_of_single rfl rfl
    · exact Turn.accepted_of_nil rfl

theorem accepted_exitTurn : (σ.exitTurn report).Accepted := Turn.accepted_of_single rfl rfl

/-- The markers of a write and the write itself. -/
theorem accepted_syscallTurn (hstop : report.isSyscallStop = true)
    (haccept : σ.AcceptsMarkers report) (h : σ.syscallTurn report = .ok turn) : turn.Accepted := by
  rcases syscallTurn_inv h with ⟨-, rfl⟩ | ⟨_, _, -, rfl⟩ | ⟨_, -, -, rfl⟩ |
    ⟨registers, hregisters, hinside, hexit⟩
  · exact Turn.accepted_of_nil rfl
  · exact Turn.accepted_of_nil rfl
  · exact Turn.accepted_of_nil rfl
  obtain ⟨call, hcall⟩ : ∃ call, σ.rawSyscall report.tid ((σ.threads report.tid).getD {})
    registers report.nowNs = call := ⟨_, rfl⟩
  obtain ⟨protocol, markers, rfl, rfl | ⟨hwrite, bytes, hbytes, hconsume⟩⟩ :=
    syscallExitTurn_inv hcall hexit
  · exact Turn.accepted_of_single rfl rfl
  · have hwritten := markerWrite_eq hregisters hstop hinside hcall
    rw [if_pos hwrite] at hwritten
    obtain ⟨hsize, haccepted⟩ := haccept call hwritten
    have hread : report.memory.readBytes call.tid (arg1 call.args) call.result.toInt.toNat =
        some bytes := by
      simp only [channelBytes, if_neg (not_lt.mpr hsize)] at hbytes
      split at hbytes
      · contradiction
      · rename_i hsome
        rw [hsome, Except.ok.inj hbytes]
    obtain ⟨session, es, hconsumed⟩ := haccepted bytes hread
    obtain ⟨⟨protocol', markers'⟩, hconsume', hrest⟩ := Transducer.bind_ok_iff.mp hconsumed
    obtain ⟨rfl, rfl⟩ := Prod.mk.inj (Except.ok.inj (hconsume.symm.trans hconsume'))
    obtain ⟨⟨τ, o⟩, hmarkers, -⟩ := Transducer.bind_ok_iff.mp hrest
    obtain ⟨r', hr'⟩ := notify_ok_of_not_marker (n := .syscall report.memory call) τ rfl
    refine ⟨(r'.1, o ++ r'.2), Transducer.run_append_ok_iff.mpr
      ⟨τ, o, r'.2, hmarkers, ?_, rfl⟩⟩
    rw [Transducer.run_singleton, hr']

theorem accepted_collectTurn (haccept : σ.AcceptsMarkers report)
    (h : σ.collectTurn report = .ok turn) : turn.Accepted := by
  refine collectTurn_rule
    (motive := fun τ ns => ∃ r, Transducer.run notify τ.execution ns = .ok r)
    ?_ (fun _ => accepted_exitTurn) (fun _ => ⟨_, Transducer.run_nil _⟩) ?_
    (fun τ _ _ => accepted_eventTurn) h
  · rintro τ τ' ns ⟨_, _, _, _, rfl⟩ hτ
    exact hτ
  · rintro τ turn - hstop ⟨_, _, _, _, rfl⟩ hturn
    exact accepted_syscallTurn hstop (by exact haccept) hturn

/-- A turn that goes on is carried out. -/
theorem goesOn_step (haccept : σ.AcceptsMarkers report) (h : σ.GoesOn report) :
    ∃ σ' es, σ.collectStep report = .ok (σ', es) ∧ σ'.returned = false := by
  obtain ⟨turn, hturn, hgoes, -⟩ := h
  obtain ⟨r, hr⟩ := accepted_collectTurn haccept hturn
  refine ⟨{ turn.state with execution := r.1 }, r.2, ?_, hgoes⟩
  simp only [collectStep, hturn, Bind.bind, Except.bind, hr]

/-! ### The status of the root -/

/-- What the reports of ends leave behind. -/
def CollectorState.outcome (σ : CollectorState) : Pid × Bool × Bool × Int32 × Int32 :=
  (σ.rootPid, σ.rootStatusSeen, σ.result.collectorOk, σ.result.exitCode, σ.result.termSignal)

theorem outcome_eventTurn (σ : CollectorState) (report : Report) :
    (σ.eventTurn report).state.outcome = σ.outcome := by
  unfold eventTurn
  split
  · split <;> rfl
  · split <;> rfl

theorem outcome_syscallTurn (h : σ.syscallTurn report = .ok turn) :
    turn.state.outcome = σ.outcome := by
  rcases syscallTurn_inv h with ⟨-, rfl⟩ | ⟨_, _, -, rfl⟩ | ⟨_, -, -, rfl⟩ | ⟨_, -, -, hexit⟩
  · rfl
  · rfl
  · rfl
  · obtain ⟨_, _, rfl, -⟩ := syscallExitTurn_inv rfl hexit
    rfl

theorem outcome_exitTurn (σ : CollectorState) (report : Report) :
    (σ.exitTurn report).state.outcome =
      if report.tid = σ.rootPid then
        (σ.rootPid, true, σ.result.collectorOk, report.exitStatus)
      else σ.outcome := by
  simp only [exitTurn]
  by_cases hroot : report.tid = σ.rootPid
  · rw [if_pos (show report.tid = (σ.setThread report.tid none).rootPid from hroot),
      if_pos hroot]
    rfl
  · rw [if_neg (show ¬ report.tid = (σ.setThread report.tid none).rootPid from hroot),
      if_neg hroot]
    rfl

/-- Only the report of an end under the root's tid changes the outcome. -/
theorem outcome_collectTurn (h : σ.collectTurn report = .ok turn) :
    turn.state.outcome =
      if report.isEnd ∧ report.tid = σ.rootPid then
        (σ.rootPid, true, σ.result.collectorOk, report.exitStatus)
      else σ.outcome := by
  have hsame : ∀ {τ : CollectorState}, σ.Configures τ → τ.outcome = σ.outcome := by
    rintro τ ⟨_, _, _, _, rfl⟩
    rfl
  refine collectTurn_rule (motive := fun τ _ => τ.outcome = if report.isEnd ∧ report.tid = σ.rootPid
    then (σ.rootPid, true, σ.result.collectorOk, report.exitStatus) else σ.outcome)
    ?_ (fun hend => ?_) (fun hend => ?_) (fun τ turn hend _ hτ hturn => ?_)
    (fun τ hend hτ => ?_) h
  · rintro τ τ' - ⟨_, _, _, _, rfl⟩ hτ
    exact hτ
  · rw [outcome_exitTurn]
    simp [hend]
  · simp [hend]
  · rw [outcome_syscallTurn hturn, hsame hτ]
    simp [hend]
  · rw [outcome_eventTurn, hsame hτ]
    simp [hend]

theorem outcome_collectStep (h : σ.collectStep report = .ok (σ', es)) :
    σ'.outcome =
      if report.isEnd ∧ report.tid = σ.rootPid then
        (σ.rootPid, true, σ.result.collectorOk, report.exitStatus)
      else σ.outcome := by
  obtain ⟨turn, _, hturn, -, rfl⟩ := collectStep_inv h
  exact outcome_collectTurn hturn

/-- The reports of an end of the tid that the root has. -/
def rootEnds (root : Pid) (reports : List Report) : List Report :=
  reports.filter fun report => report.isEnd && report.tid = root

/-- What is known of the root after some reports. -/
structure RootOutcome (root : Pid) (past : List Report) (σ : CollectorState) : Prop where
  rootPid : σ.rootPid = root
  notOk : σ.result.collectorOk = false
  status : ∀ last, (rootEnds root past).getLast? = some last →
    σ.rootStatusSeen = true ∧ (σ.result.exitCode, σ.result.termSignal) = last.exitStatus

theorem RootOutcome.step {root : Pid} {past : List Report} (h : RootOutcome root past σ)
    (hstep : σ.collectStep report = .ok (σ', es)) :
    RootOutcome root (past ++ [report]) σ' := by
  have houtcome := outcome_collectStep hstep
  have hends : rootEnds root (past ++ [report]) =
      rootEnds root past ++ rootEnds root [report] := by
    simp [rootEnds]
  by_cases hroot : report.isEnd = true ∧ report.tid = σ.rootPid
  · rw [if_pos hroot] at houtcome
    simp only [outcome, Prod.mk.injEq] at houtcome
    obtain ⟨hpid, hseen, hok, hstatus⟩ := houtcome
    refine ⟨hpid.trans h.rootPid, hok.trans h.notOk, fun last hlast => ⟨hseen, ?_⟩⟩
    have hown : rootEnds root [report] = [report] := by
      simp [rootEnds, hroot.1, hroot.2, h.rootPid]
    rw [hends, hown, List.getLast?_append, List.getLast?_singleton, Option.some_or,
      Option.some.injEq] at hlast
    rw [← hlast, ← hstatus]
  · rw [if_neg hroot] at houtcome
    simp only [outcome, Prod.mk.injEq] at houtcome
    obtain ⟨hpid, hseen, hok, hcode, hsignal⟩ := houtcome
    refine ⟨hpid.trans h.rootPid, hok.trans h.notOk, fun last hlast => ?_⟩
    have hother : rootEnds root [report] = [] := by
      rw [h.rootPid] at hroot
      simpa [rootEnds] using hroot
    rw [hends, hother, List.append_nil] at hlast
    rw [hseen, hcode, hsignal]
    exact h.status last hlast

/-! ### Recordings -/

/-- The state after some reports, each of them carried out. -/
def Reached (launch : Launch) (past : List Report) (σ : CollectorState) : Prop :=
  ∃ es, Transducer.run collectStep launch.start past = .ok (σ, es)

/-- Each report is waited for and its task resumed, no task is killed, and the
result is that of the report `own`. -/
structure Survives (launch : Launch) (reports : List Report) (endNs : UInt64) (own : Report) :
    Prop where
  traced : ∀ past report rest, reports = past ++ report :: rest →
    ∃ σ, Reached launch past σ ∧ σ.waits = true ∧ σ.GoesOn report
  spared : (collect launch reports endNs).2 = ∅
  result : ∃ result, (collect launch reports endNs).1 = .ok result ∧
    result.collectorOk = true ∧ (result.exitCode, result.termSignal) = own.exitStatus

/-- The condition under which a recording survives: every turn spares the
tasks that are gone, reports come only while a known task lives, the channel
ends with a whole marker, and a later owner of the root's pid ends as the root
did. -/
structure Tolerated (launch : Launch) (reports : List Report) (own : Report) : Prop where
  launched : launch.setOptions ≠ .esrch
  turns : ∀ past report rest σ, reports = past ++ report :: rest → Reached launch past σ →
    σ.liveTids ≠ ∅ ∧ σ.Spares report
  ended : ∀ σ, Reached launch reports σ → launch.channelFd.isSome = true →
    σ.protocol.finish = .ok ()
  status : ∀ last, (rootEnds launch.root reports).getLast? = some last →
    last.exitStatus = own.exitStatus

section recordings

variable {launch : Launch} {reports past : List Report} {endNs : UInt64} {own : Report}

theorem reached_nil : Reached launch [] launch.start := ⟨[], rfl⟩

theorem Reached.unique (h : Reached launch past σ) (h' : Reached launch past σ') : σ = σ' := by
  obtain ⟨es, hrun⟩ := h
  obtain ⟨es', hrun'⟩ := h'
  exact congrArg Prod.fst (Except.ok.inj (hrun.symm.trans hrun'))

theorem Reached.snoc (h : Reached launch past σ) (hstep : σ.collectStep report = .ok (σ', es)) :
    Reached launch (past ++ [report]) σ' := by
  obtain ⟨out, hrun⟩ := h
  exact ⟨out ++ es, Transducer.run_append_ok_iff.mpr
    ⟨σ, out, es, hrun, by rw [Transducer.run_singleton, hstep], rfl⟩⟩

theorem Reached.rootOutcome (h : Reached launch past σ) : RootOutcome launch.root past σ := by
  obtain ⟨es, hrun⟩ := h
  refine Transducer.run_invariant (motive := fun past σ _ => RootOutcome launch.root past σ)
    ⟨rfl, rfl, nofun⟩ ?_ hrun
  intro past σ _ report σ' es h hstep
  exact h.step hstep

/-- A loop that waits for every report is the run over the reports. -/
theorem collectLoop_of_waits {σ₀ : CollectorState}
    (hrun : Transducer.run collectStep σ₀ reports = .ok (σ, es))
    (hwaits : ∀ past report rest τ out, reports = past ++ report :: rest →
      Transducer.run collectStep σ₀ past = .ok (τ, out) → τ.waits = true) :
    σ₀.collectLoop reports = (σ, none) := by
  induction reports generalizing σ₀ es with
  | nil =>
      simp only [Transducer.run_nil, Except.ok.injEq, Prod.mk.injEq] at hrun
      rw [collectLoop, hrun.1]
  | cons report reports ih =>
      obtain ⟨σ₁, o, o', hstep, hrest, rfl⟩ := Transducer.run_cons_ok_iff.mp hrun
      rw [collectLoop, if_pos (hwaits [] report reports σ₀ [] rfl rfl), hstep]
      refine ih hrest fun past report' rest τ out hsplit hpast => ?_
      exact hwaits (report :: past) report' rest τ (o ++ out) (by rw [hsplit]; rfl)
        (Transducer.run_cons_ok_iff.mpr ⟨σ₁, o, out, hstep, hpast, rfl⟩)

/-- Requests fail only on tasks that are gone, and the markers of the root are
accepted. -/
structure OnlyVanishing (launch : Launch) (reports : List Report) : Prop where
  setOptions : launch.setOptions.hasFailed = false
  resume : launch.resume.hasFailed = false
  answers : ∀ report ∈ reports, report.OnlyVanishes
  accepted : ∀ past report rest σ, reports = past ++ report :: rest → Reached launch past σ →
    σ.AcceptsMarkers report

/-- As long as turns go on, the loop comes to every report. -/
theorem OnlyVanishing.reached (h : OnlyVanishing launch reports)
    (hgoes : ∀ past report rest σ, reports = past ++ report :: rest → Reached launch past σ →
      σ.returned = false → σ.GoesOn report) {rest : List Report}
    (hsplit : reports = past ++ rest) : ∃ σ, Reached launch past σ ∧ σ.returned = false := by
  induction past using List.reverseRecOn generalizing rest with
  | nil => exact ⟨launch.start, reached_nil, rfl⟩
  | append_singleton past report ih =>
      have hsplit' : reports = past ++ report :: rest := by simp [hsplit]
      obtain ⟨σ, hreached, hreturned⟩ := ih hsplit'
      obtain ⟨σ', es, hstep, hreturned'⟩ := goesOn_step (h.accepted _ _ _ _ hsplit' hreached)
        (hgoes _ _ _ _ hsplit' hreached hreturned)
      exact ⟨σ', hreached.snoc hstep, hreturned'⟩

/-- What `collect` does after a loop in which every turn went on. -/
theorem OnlyVanishing.collect_eq (h : OnlyVanishing launch reports) (endNs : UInt64)
    (hlaunched : launch.setOptions ≠ .esrch) (hreached : Reached launch reports σ)
    (hreturned : σ.returned = false)
    (hwaits : ∀ past report rest τ, reports = past ++ report :: rest → Reached launch past τ →
      τ.waits = true) :
    collect launch reports endNs =
      match σ.finish launch.channelFd endNs with
      | .error e => (.error e, σ.liveTids)
      | .ok result => (.ok result, ∅) := by
  obtain ⟨es, hrun⟩ := hreached
  have hloop : launch.start.collectLoop reports = (σ, none) :=
    collectLoop_of_waits hrun fun past report rest τ out hsplit hpast =>
      hwaits past report rest τ hsplit ⟨out, hpast⟩
  have hset : launch.setOptions.error = none := by
    cases hanswer : launch.setOptions with
    | ok value => rfl
    | esrch => exact absurd hanswer hlaunched
    | failed strerror =>
        have hfailed := h.setOptions
        simp [hanswer, Answer.hasFailed] at hfailed
  unfold collect
  rw [hset]
  cases hanswer : launch.resume with
  | failed strerror =>
      have hfailed := h.resume
      simp [hanswer, Answer.hasFailed] at hfailed
  | ok value =>
      simp only [hloop]
      exact if_neg (by simp [hreturned])
  | esrch =>
      simp only [hloop]
      exact if_neg (by simp [hreturned])

theorem waits_iff (hreturned : σ.returned = false) : σ.waits = true ↔ σ.liveTids ≠ ∅ := by
  simp [waits, hreturned]

/-- The result of a recording whose loop was left at its end. -/
def CollectorState.finished (σ : CollectorState) (endNs : UInt64) : CollectionResult :=
  { σ.result with
    endNs
    collectorOk := σ.rootStatusSeen
    error := if σ.rootStatusSeen then σ.result.error else "root tracee status was not observed" }

theorem finish_ok_iff {channelFd : Option Int32} {result : CollectionResult} :
    σ.finish channelFd endNs = .ok result ↔
      (channelFd.isSome = true → σ.protocol.finish = .ok ()) ∧ result = σ.finished endNs := by
  have hok : ∀ r : CollectionResult, (Except.ok r : Except Failure CollectionResult) = .ok result ↔
      result = r := fun r => by rw [Except.ok.injEq, eq_comm]
  unfold CollectorState.finish
  cases hchannel : channelFd.isSome with
  | false =>
      rw [← hok]
      simp [finished]
  | true =>
      rw [← hok]
      cases hfinish : σ.protocol.finish with
      | error e => simp [Bind.bind, Except.bind]
      | ok value => simp [Bind.bind, Except.bind, finished]

/-- The root of such a recording ends. -/
theorem exists_last_end (hown : (rootEnds launch.root reports).head? = some own) :
    ∃ last, (rootEnds launch.root reports).getLast? = some last := by
  cases hends : rootEnds launch.root reports with
  | nil => simp [hends] at hown
  | cons first ends => exact ⟨_, List.getLast?_eq_some_getLast (by simp)⟩

theorem OnlyVanishing.tolerated_of_survives (h : OnlyVanishing launch reports)
    (hlast : (rootEnds launch.root reports).getLast? = some last)
    (hsurvives : Survives launch reports endNs own) : Tolerated launch reports own := by
  have hgoes : ∀ past report rest σ, reports = past ++ report :: rest →
      Reached launch past σ → σ.returned = false → σ.GoesOn report := by
    intro past report rest σ hsplit hreached _
    obtain ⟨τ, hτ, -, hgoes⟩ := hsurvives.traced past report rest hsplit
    rwa [hreached.unique hτ]
  have hwaits : ∀ past report rest τ, reports = past ++ report :: rest →
      Reached launch past τ → τ.waits = true := by
    intro past report rest σ hsplit hreached
    obtain ⟨τ, hτ, hwaits, -⟩ := hsurvives.traced past report rest hsplit
    rwa [hreached.unique hτ]
  obtain ⟨result, hresult, hok, hstatus⟩ := hsurvives.result
  have hlaunched : launch.setOptions ≠ .esrch := by
    intro hesrch
    have hkilled := hsurvives.spared
    simp [collect, hesrch, Answer.error] at hkilled
  obtain ⟨σ, hreached, hreturned⟩ : ∃ σ, Reached launch reports σ ∧ σ.returned = false :=
    h.reached hgoes (List.append_nil reports).symm
  have hcollect := h.collect_eq endNs hlaunched hreached hreturned hwaits
  cases hfinish : σ.finish launch.channelFd endNs with
  | error e =>
      rw [hcollect, hfinish] at hresult
      contradiction
  | ok result' =>
      rw [hcollect, hfinish] at hresult
      obtain rfl := Except.ok.inj hresult
      obtain ⟨hended, rfl⟩ := finish_ok_iff.mp hfinish
      refine ⟨hlaunched, ?_, ?_, ?_⟩
      · intro past report rest τ hsplit hτ
        obtain ⟨ρ, hρ, hwaits', hgoes'⟩ := hsurvives.traced past report rest hsplit
        obtain rfl := hτ.unique hρ
        have hreturned' : τ.returned = false := by
          simp only [waits, Bool.and_eq_true, Bool.not_eq_true'] at hwaits'
          exact hwaits'.1
        have hmem : report ∈ reports := by simp [hsplit]
        exact ⟨(waits_iff hreturned').mp hwaits', (goesOn_iff (h.answers _ hmem) hreturned'
          (h.accepted _ _ _ _ hsplit hτ)).mp hgoes'⟩
      · intro τ hτ
        obtain rfl := hτ.unique hreached
        exact hended
      · intro last' hlast'
        obtain rfl := Option.some.inj (hlast.symm.trans hlast')
        exact (hreached.rootOutcome.status last hlast).2.symm.trans hstatus

theorem OnlyVanishing.survives_of_tolerated (h : OnlyVanishing launch reports)
    (hlast : (rootEnds launch.root reports).getLast? = some last)
    (htolerated : Tolerated launch reports own) : Survives launch reports endNs own := by
  have hgoes : ∀ past report rest σ, reports = past ++ report :: rest →
      Reached launch past σ → σ.returned = false → σ.GoesOn report := by
    intro past report rest σ hsplit hreached hreturned
    have hmem : report ∈ reports := by simp [hsplit]
    exact (goesOn_iff (h.answers _ hmem) hreturned (h.accepted _ _ _ _ hsplit hreached)).mpr
      (htolerated.turns past report rest σ hsplit hreached).2
  have hreturned : ∀ past rest σ, reports = past ++ rest → Reached launch past σ →
      σ.returned = false := by
    intro past rest σ hsplit hreached
    obtain ⟨τ, hτ, hreturned⟩ := h.reached hgoes hsplit
    rwa [hreached.unique hτ]
  have hwaits : ∀ past report rest τ, reports = past ++ report :: rest →
      Reached launch past τ → τ.waits = true := by
    intro past report rest τ hsplit hτ
    exact (waits_iff (hreturned _ _ _ hsplit hτ)).mpr (htolerated.turns _ _ _ _ hsplit hτ).1
  obtain ⟨σ, hreached, hlastReturned⟩ : ∃ σ, Reached launch reports σ ∧ σ.returned = false :=
    h.reached hgoes (List.append_nil reports).symm
  have hcollect := h.collect_eq endNs htolerated.launched hreached hlastReturned hwaits
  have hfinish : σ.finish launch.channelFd endNs = .ok (σ.finished endNs) :=
    finish_ok_iff.mpr ⟨htolerated.ended σ hreached, rfl⟩
  rw [hfinish] at hcollect
  obtain ⟨hseen, hstatus⟩ := hreached.rootOutcome.status last hlast
  refine ⟨?_, by rw [hcollect], σ.finished endNs, by rw [hcollect], hseen,
    hstatus.trans (htolerated.status last hlast)⟩
  intro past report rest hsplit
  obtain ⟨τ, hτ, hτreturned⟩ := h.reached hgoes hsplit
  exact ⟨τ, hτ, hwaits _ _ _ _ hsplit hτ, hgoes _ _ _ _ hsplit hτ hτreturned⟩

/-- A recording goes on over every task that vanishes, kills no other and
returns the root's own exit status exactly under the condition `Tolerated`. -/
theorem survives_iff (h : OnlyVanishing launch reports)
    (hown : (rootEnds launch.root reports).head? = some own) :
    Survives launch reports endNs own ↔ Tolerated launch reports own := by
  obtain ⟨last, hlast⟩ := exists_last_end hown
  exact ⟨h.tolerated_of_survives hlast, h.survives_of_tolerated hlast⟩

end recordings

/-! ### A task that is gone at its first stop -/

/-- Reports on tasks whose registers are not read. -/
def sampleReport (tid : Pid) (status : UInt32) (eventMessage : Answer UInt64)
    (setOptions resume : Answer Unit) : Report :=
  { tid, status, eventMessage, setOptions, resume, memory := sampleMemory, nowNs := 1 }

theorem sampleReport_acceptsMarkers (σ : CollectorState) (tid : Pid) (status : UInt32)
    (eventMessage : Answer UInt64) (setOptions resume : Answer Unit) :
    σ.AcceptsMarkers (sampleReport tid status eventMessage setOptions resume) := by
  intro call hcall
  simp [markerWrite, sampleReport] at hcall

def sampleLaunch : Launch := { root := 7, cwd := lit "/", startNs := 0 }

/-- The root forks task 8, which is killed; the root exits with 0. -/
def sampleKill (setOptions : Answer Unit) : List Report :=
  [sampleReport 7 0x1057f (.ok 8) (.ok ()) (.ok ()), sampleReport 8 0x137f .esrch setOptions .esrch,
   sampleReport 8 9 .esrch .esrch .esrch, sampleReport 7 0 .esrch .esrch .esrch]

theorem sampleKill_onlyVanishing (setOptions : Answer Unit) (h : setOptions.hasFailed = false) :
    OnlyVanishing sampleLaunch (sampleKill setOptions) where
  setOptions := rfl
  resume := rfl
  answers := by
    simp only [sampleKill, List.forall_mem_cons, List.not_mem_nil, false_implies, implies_true,
      and_true]
    exact ⟨⟨rfl, rfl, rfl, rfl⟩, ⟨h, rfl, rfl, rfl⟩, ⟨rfl, rfl, rfl, rfl⟩, ⟨rfl, rfl, rfl, rfl⟩⟩
  accepted past report rest σ hsplit _ := by
    have hmem : report ∈ sampleKill setOptions := by simp [hsplit]
    simp only [sampleKill, List.mem_cons, List.not_mem_nil, or_false] at hmem
    rcases hmem with rfl | rfl | rfl | rfl <;> exact sampleReport_acceptsMarkers _ _ _ _ _ _

/-- The options of a killed child cannot be set, and the collector kills the
root. -/
theorem vanished_child_kills :
    ¬ ∀ (launch : Launch) (reports : List Report) (endNs : UInt64) (own : Report),
      OnlyVanishing launch reports → (rootEnds launch.root reports).head? = some own →
      Survives launch reports endNs own := by
  intro h
  have hsurvives := h sampleLaunch (sampleKill .esrch) 2 _ (sampleKill_onlyVanishing _ rfl) rfl
  have hkilled : (collect sampleLaunch (sampleKill .esrch) 2).2 = {7, 8} := by decide
  rw [hsurvives.spared] at hkilled
  revert hkilled
  decide

theorem sampleReport_spares (σ : CollectorState) {report : Report}
    (hmem : report ∈ sampleKill (.ok ())) : σ.Spares report := by
  simp only [sampleKill, List.mem_cons, List.not_mem_nil, or_false] at hmem
  refine ⟨fun hstop _ => ?_, fun hcreation => ?_, fun call hcall => ?_⟩
  · rcases hmem with rfl | rfl | rfl | rfl
    · simp [sampleReport]
    · simp [sampleReport]
    · exact absurd hstop (by decide)
    · exact absurd hstop (by decide)
  · rcases hmem with rfl | rfl | rfl | rfl
    · simp [sampleReport]
    all_goals exact absurd hcreation (by decide)
  · rcases hmem with rfl | rfl | rfl | rfl <;> simp [markerWrite, sampleReport] at hcall

/-- A child that is gone when it is resumed is let go. -/
theorem survives_sample :
    Survives sampleLaunch (sampleKill (.ok ())) 2 (sampleReport 7 0 .esrch .esrch .esrch) ∧
      Tolerated sampleLaunch (sampleKill (.ok ())) (sampleReport 7 0 .esrch .esrch .esrch) := by
  have htolerated : Tolerated sampleLaunch (sampleKill (.ok ()))
      (sampleReport 7 0 .esrch .esrch .esrch) := by
    refine ⟨by simp [sampleLaunch], fun past report rest σ hsplit hreached => ⟨?_, ?_⟩,
      fun _ _ hchannel => by simp [sampleLaunch] at hchannel, ?_⟩
    · -- the root lives until the last report
      rcases past with - | ⟨r₁, - | ⟨r₂, - | ⟨r₃, - | ⟨r₄, past⟩⟩⟩⟩
      all_goals
        simp only [sampleKill, List.nil_append, List.cons_append, List.cons.injEq] at hsplit
      · rw [hreached.unique ⟨_, rfl⟩]
        decide
      · obtain ⟨rfl, -⟩ := hsplit
        rw [hreached.unique ⟨_, rfl⟩]
        decide
      · obtain ⟨rfl, rfl, -⟩ := hsplit
        rw [hreached.unique ⟨_, rfl⟩]
        decide
      · obtain ⟨rfl, rfl, rfl, -⟩ := hsplit
        rw [hreached.unique ⟨_, rfl⟩]
        decide
      · simp at hsplit
    · exact sampleReport_spares σ (by simp [hsplit])
    · intro last hlast
      obtain rfl : sampleReport 7 0 .esrch .esrch .esrch = last := Option.some.inj hlast
      rfl
  exact ⟨(survives_iff (sampleKill_onlyVanishing _ rfl) rfl).mpr htolerated, htolerated⟩

end Whyrun
