import Whyrun.Session.Pipeline

/-!
The shell functions against the decoder and the execution state. Between
two prompts the shell prints the arm record of a new command and, at the
second start call, its start record; the next prompt prints the end record
first. For fewer than 2⁶³ prompts the decoder and the execution state follow
the shell without a throw, however the bytes are cut into writes.
-/

namespace Whyrun

open ByteText ExecutionState CommandProtocol

/-! ### Rounds -/

/-- A prompt call with the start calls up to the next prompt. -/
structure Round where
  status : UInt8
  pwd : Bytes
  starts : List (Bytes × Bytes × Bytes)

/-- The start calls before the first prompt, and the rounds. -/
def splitRounds : List ShellCall → List (Bytes × Bytes × Bytes) × List Round
  | [] => ([], [])
  | .prompt status pwd :: calls =>
      ([], ⟨status, pwd, (splitRounds calls).1⟩ :: (splitRounds calls).2)
  | .start pwd before text :: calls =>
      ((pwd, before, text) :: (splitRounds calls).1, (splitRounds calls).2)

def startCalls (starts : List (Bytes × Bytes × Bytes)) : List ShellCall :=
  starts.map fun s => .start s.1 s.2.1 s.2.2

def Round.calls (r : Round) : List ShellCall := .prompt r.status r.pwd :: startCalls r.starts

theorem splitRounds_calls (calls : List ShellCall) :
    startCalls (splitRounds calls).1 ++ (splitRounds calls).2.flatMap Round.calls = calls := by
  induction calls with
  | nil => rfl
  | cons call calls ih =>
      cases call with
      | prompt status pwd => simpa [splitRounds, Round.calls, startCalls] using ih
      | start pwd before text => simpa [splitRounds, startCalls] using ih

/-- The sequence starts with a prompt. -/
def StartsWithPrompt (calls : List ShellCall) : Prop :=
  ∃ status pwd rest, calls = .prompt status pwd :: rest

/-- At least two start calls occur between two consecutive prompts. -/
def TwoStartsBetween (calls : List ShellCall) : Prop :=
  ∀ past status pwd starts status' pwd' rest,
    calls = past ++ .prompt status pwd :: (startCalls starts ++ .prompt status' pwd' :: rest) →
      2 ≤ starts.length

def promptCount (calls : List ShellCall) : ℕ := (splitRounds calls).2.length

theorem flatMap_rounds {calls : List ShellCall} (h : StartsWithPrompt calls) :
    (splitRounds calls).2.flatMap Round.calls = calls := by
  obtain ⟨status, pwd, rest, rfl⟩ := h
  exact splitRounds_calls (.prompt status pwd :: rest)

/-- Every round but the last has its two start calls. -/
theorem two_le_starts {rounds past : List Round} {r r' : Round} {rest : List Round}
    (h : TwoStartsBetween (rounds.flatMap Round.calls))
    (hsplit : rounds = past ++ r :: r' :: rest) : 2 ≤ r.starts.length := by
  refine h (past.flatMap Round.calls) r.status r.pwd r.starts r'.status r'.pwd
    (startCalls r'.starts ++ rest.flatMap Round.calls) ?_
  simp [hsplit, Round.calls]

/-! ### What a round prints -/

/-- The strings of a call fit the fields of the channel; the history prefix
does not occur before itself. -/
def ShellCall.Fits : ShellCall → Prop
  | .prompt _ pwd => FieldFits pwd
  | .start pwd before text =>
      FieldFits pwd ∧ FieldFits (historyLine before text) ∧ historyPrefix ∉ before

def endRecord (k : ℕ) (status : UInt8) (pwd : Bytes) : Bytes :=
  field (lit "E") ++ field (decimal k) ++ field (decimal status.toNat) ++ field pwd

def armRecord (k : ℕ) (pwd : Bytes) : Bytes :=
  field (lit "A") ++ field (decimal k) ++ field pwd ++ field []

def startRecord (k : ℕ) (pwd history : Bytes) : Bytes :=
  field (lit "S") ++ field (decimal k) ++ field pwd ++ field history

/-- The start call of a round that is not swallowed. -/
def Round.started (r : Round) : Option (Bytes × Bytes × Bytes) := r.starts[1]?

/-- What a round prints after `j` prompts. -/
def roundText (j : ℕ) (r : Round) : Bytes :=
  (if 0 < j then endRecord j r.status r.pwd else []) ++ (armRecord (j + 1) r.pwd ++
    match r.started with
    | none => []
    | some s => startRecord (j + 1) s.1 (historyLine s.2.1 s.2.2))

/-- The shell variables after `j` prompts. -/
structure AfterPrompts (shell : ShellState) (j : ℕ) : Prop where
  sequence : shell.sequence = Int64.ofNat j
  active : shell.activeCommand = Int64.ofNat j

theorem shellRun_append (shell : ShellState) (calls calls' : List ShellCall) :
    shellRun shell (calls ++ calls') =
      let r := shellRun shell calls
      ((shellRun r.1 calls').1, r.2 ++ (shellRun r.1 calls').2) := by
  induction calls generalizing shell with
  | nil => rfl
  | cons call calls ih => simp [shellRun, ih]

/-- After the start record of a round, start calls print nothing. -/
theorem shellRun_quiet (shell : ShellState) (hprompt : shell.atPrompt = 0)
    (hskip : shell.skipDebug = 0) (starts : List (Bytes × Bytes × Bytes)) :
    shellRun shell (startCalls starts) = (shell, []) := by
  induction starts with
  | nil => rfl
  | cons s starts ih =>
      have hstep : shellStep shell (.start s.1 s.2.1 s.2.2) = (shell, []) := by
        simp [shellStep, whyrunStart, hprompt, hskip]
      rw [startCalls, List.map_cons, ← startCalls, shellRun, hstep]
      simp [ih]

/-- The first start call after a prompt is swallowed. -/
theorem shellStep_skipped (j : Int64) (pwd before text : Bytes) :
    shellStep ⟨1, 1, j, j⟩ (.start pwd before text) = (⟨1, 0, j, j⟩, []) := by
  rw [shellStep, whyrunStart, if_pos (show (0 : Int64) < 1 by decide)]
  simp

theorem shellRun_starts {j : ℕ} (hj : j < 2 ^ 63) (starts : List (Bytes × Bytes × Bytes)) :
    ∃ shell, shellRun ⟨1, 1, Int64.ofNat j, Int64.ofNat j⟩ (startCalls starts) =
        (shell, match starts[1]? with
          | none => []
          | some s => startRecord j s.1 (historyLine s.2.1 s.2.2)) ∧
      AfterPrompts shell j := by
  have hint : (Int64.ofNat j).toInt = j := Int64.toInt_ofNat_of_lt hj
  match starts with
  | [] => exact ⟨_, rfl, rfl, rfl⟩
  | [s] =>
      refine ⟨⟨1, 0, Int64.ofNat j, Int64.ofNat j⟩, ?_, rfl, rfl⟩
      rw [startCalls, List.map_singleton, shellRun, shellStep_skipped]
      rfl
  | s :: s' :: starts =>
      refine ⟨⟨0, 0, Int64.ofNat j, Int64.ofNat j⟩, ?_, rfl, rfl⟩
      have hsecond : shellStep ⟨1, 0, Int64.ofNat j, Int64.ofNat j⟩
          (.start s'.1 s'.2.1 s'.2.2) = (⟨0, 0, Int64.ofNat j, Int64.ofNat j⟩,
            startRecord j s'.1 (historyLine s'.2.1 s'.2.2)) := by
        rw [shellStep, whyrunStart, hint]
        rfl
      have hquiet := shellRun_quiet ⟨0, 0, Int64.ofNat j, Int64.ofNat j⟩ rfl rfl starts
      rw [startCalls] at hquiet ⊢
      simp [shellRun, shellStep_skipped, hsecond, hquiet]

/-- One round: the text that it prints, and the variables after it. -/
theorem shellRun_round {shell : ShellState} {j : ℕ} (h : AfterPrompts shell j)
    (hj : j + 1 < 2 ^ 63) (r : Round) :
    ∃ shell', shellRun shell r.calls = (shell', roundText j r) ∧ AfterPrompts shell' (j + 1) := by
  have hint : (Int64.ofNat j).toInt = j := Int64.toInt_ofNat_of_lt (by omega)
  have hint' : (Int64.ofNat (j + 1)).toInt = (j + 1 : ℕ) := Int64.toInt_ofNat_of_lt hj
  have hnext : shell.sequence + 1 = Int64.ofNat (j + 1) := by
    rw [h.sequence, Int64.ofNat_add]
    rfl
  have hpositive : 0 < shell.activeCommand ↔ 0 < j := by
    rw [h.active, Int64.lt_iff_toInt_lt, hint, Int64.toInt_zero]
    omega
  have hprompt : shellStep shell (.prompt r.status r.pwd) =
      (⟨1, 1, Int64.ofNat (j + 1), Int64.ofNat (j + 1)⟩,
        (if 0 < j then endRecord j r.status r.pwd else []) ++ armRecord (j + 1) r.pwd) := by
    rw [shellStep, whyrunPrompt]
    simp only [hnext, hint', hpositive]
    rw [h.active, hint]
    simp [endRecord, armRecord]
  obtain ⟨shell', hstarts, hafter⟩ := shellRun_starts hj r.starts
  refine ⟨shell', ?_, hafter⟩
  rw [Round.calls, shellRun, hprompt]
  simp only [hstarts, roundText, Round.started, List.append_assoc]

/-! ### The markers of a round -/

/-- The markers of a round after `j` prompts. -/
def roundMarkers (j : ℕ) (r : Round) : List CommandMarker :=
  (if 0 < j then
    [{ type := .stop, id := UInt64.ofNat j, cwd := r.pwd,
       exitCode := Int32.ofInt r.status.toNat }]
  else []) ++
  ({ type := .arm, id := UInt64.ofNat (j + 1), cwd := r.pwd } ::
    r.started.toList.map fun s =>
      { type := .start, id := UInt64.ofNat (j + 1), cwd := s.1, text := s.2.2 })

theorem fieldFits_decimal {n : ℕ} (h : n < 2 ^ 63) : FieldFits (decimal n) := by
  refine ⟨fun hzero => ne_zero_of_mem_decimal hzero rfl, ?_⟩
  rw [decimal_of_nonneg (by omega), Int.toNat_natCast]
  have hlength := length_decimalNat_le (n := n) (k := 19) (by omega) (by omega)
  exact hlength.trans (by decide)

theorem parseId_decimal {k : ℕ} (hpos : 0 < k) (hk : k < 2 ^ 63) :
    parseId (decimal k) = .ok (UInt64.ofNat k) := by
  rw [parseId, decimal_of_nonneg (by omega), Int.toNat_natCast, fromCharsUnsigned_decimalNat,
    if_pos (by omega)]
  simp only [if_neg (by omega : ¬ k = 0)]

theorem parseStatus_decimal (status : UInt8) :
    parseStatus (decimal status.toNat) = .ok (Int32.ofInt status.toNat) := by
  have hlt := status.toNat_lt
  rw [parseStatus, decimal_of_nonneg (by omega), Int.toNat_natCast, fromCharsSigned_decimalNat,
    if_pos (by omega)]

theorem decode_end {k : ℕ} (hpos : 0 < k) (hk : k < 2 ^ 63) (status : UInt8) (pwd : Bytes) :
    decodeRecord [lit "E", decimal k, decimal status.toNat, pwd] =
      .ok { type := .stop, id := UInt64.ofNat k, cwd := pwd,
            exitCode := Int32.ofInt status.toNat } := by
  simp only [decodeRecord, List.getD_cons_succ, List.getD_cons_zero, parseId_decimal hpos hk,
    parseStatus_decimal, Bind.bind, Except.bind]
  rfl

theorem decode_arm {k : ℕ} (hpos : 0 < k) (hk : k < 2 ^ 63) (pwd : Bytes) :
    decodeRecord [lit "A", decimal k, pwd, []] =
      .ok { type := .arm, id := UInt64.ofNat k, cwd := pwd } := by
  simp only [decodeRecord, List.getD_cons_succ, List.getD_cons_zero, parseId_decimal hpos hk,
    Bind.bind, Except.bind]
  rfl

theorem dropWhile_historyLine {before : Bytes} (h : historyPrefix ∉ before) (text : Bytes) :
    (historyLine before text).dropWhile (· ≠ historyPrefix) = historyPrefix :: (text ++ [10]) := by
  rw [historyLine, List.dropWhile_append_of_pos]
  · simp
  · intro b hb
    simpa using fun heq : b = historyPrefix => h (heq ▸ hb)

theorem decode_start {k : ℕ} (hpos : 0 < k) (hk : k < 2 ^ 63) (pwd : Bytes) {before : Bytes}
    (hbefore : historyPrefix ∉ before) (text : Bytes) :
    decodeRecord [lit "S", decimal k, pwd, historyLine before text] =
      .ok { type := .start, id := UInt64.ofNat k, cwd := pwd, text } := by
  simp only [decodeRecord, List.getD_cons_succ, List.getD_cons_zero, parseId_decimal hpos hk,
    Bind.bind, Except.bind, dropWhile_historyLine hbefore]
  rw [if_neg (by decide), if_pos trivial, chomp, if_pos (by simp), List.dropLast_concat]

/-- The decoder reads the text of a round back as its markers. -/
theorem consume_roundText {j : ℕ} (hj : j + 1 < 2 ^ 63) {r : Round}
    (hfits : ∀ call ∈ r.calls, call.Fits) :
    consume {} (roundText j r) = .ok ({}, roundMarkers j r) := by
  have hpwd : FieldFits r.pwd := hfits (.prompt r.status r.pwd) (by simp [Round.calls])
  have hstatus : FieldFits (decimal r.status.toNat) := by
    have hlt := r.status.toNat_lt
    exact fieldFits_decimal (by omega)
  have hnumber := fieldFits_decimal hj
  have hnil : FieldFits [] := ⟨by simp, by simp⟩
  have hend : consume {} (if 0 < j then endRecord j r.status r.pwd else []) =
      .ok ({}, if 0 < j then
        [{ type := .stop, id := UInt64.ofNat j, cwd := r.pwd,
           exitCode := Int32.ofInt r.status.toNat }] else []) := by
    split
    · exact consume_record (by decide) (fieldFits_decimal (by omega)) hstatus hpwd
        (decode_end (by omega) (by omega) _ _)
    · rfl
  have harm : consume {} (armRecord (j + 1) r.pwd) =
      .ok ({}, [{ type := .arm, id := UInt64.ofNat (j + 1), cwd := r.pwd }]) :=
    consume_record (by decide) hnumber hpwd hnil (decode_arm (by omega) hj _)
  have hstart : consume {} (match r.started with
        | none => []
        | some s => startRecord (j + 1) s.1 (historyLine s.2.1 s.2.2)) =
      .ok ({}, r.started.toList.map fun s =>
        { type := .start, id := UInt64.ofNat (j + 1), cwd := s.1, text := s.2.2 }) := by
    cases hs : r.started with
    | none => rfl
    | some s =>
        have hmem : s ∈ r.starts := List.mem_of_getElem? hs
        obtain ⟨hcwd, hhistory, hbefore⟩ := hfits (.start s.1 s.2.1 s.2.2)
          (List.mem_cons_of_mem _ (List.mem_map_of_mem hmem))
        exact consume_record (by decide) hnumber hcwd hhistory
          (decode_start (by omega) hj _ hbefore _)
  rw [roundText, consume_append_of_ok _ hend, consume_append_of_ok _ harm, hstart]
  rfl

/-! ### The execution state follows -/

section follow

variable (root : Pid) (cwd : Bytes)

/-- The state of a session in which only markers have arrived. -/
def markState (active : Option ActiveCommand) : ExecutionState where
  processes := Function.update (fun _ => none) root
    (some { pid := root, cwd, commandId := active.map ActiveCommand.id })
  threadToProcess := Function.update (fun _ => none) root (some root)
  activeCommand := active
  rootPid := root

theorem notify_arm (id : UInt64) (pwd : Bytes) (t : UInt64) :
    (markState root cwd none).notify (.marker root { type := .arm, id, cwd := pwd } t) =
      .ok (markState root cwd (some ⟨id, none, false⟩), []) := by
  simp [notify, onCommandMarker, markState, processForThread, setProcess]

theorem notify_start (id : UInt64) (pwd text : Bytes) (t : UInt64) :
    (markState root cwd (some ⟨id, none, false⟩)).notify
        (.marker root { type := .start, id, cwd := pwd, text } t) =
      .ok (markState root cwd (some ⟨id, none, true⟩),
        [commandStartEvent root root id text pwd t]) := by
  simp [notify, onCommandMarker, markState, processForThread, emit, commandStartEvent]

theorem notify_stop (id : UInt64) (pwd : Bytes) (code : Int32) (t : UInt64) :
    (markState root cwd (some ⟨id, none, true⟩)).notify
        (.marker root { type := .stop, id, cwd := pwd, exitCode := code } t) =
      .ok (markState root cwd none, [commandEndEvent root root (some id) code pwd t]) := by
  simp [notify, onCommandMarker, markState, processForThread, setProcess, emit,
    commandEndEvent]

/-- Markers with the times at which their writes were seen. -/
def timed (pairs : List (CommandMarker × UInt64)) : List Notification :=
  pairs.map fun p => .marker root p.1 p.2

/-- The active command after `j` rounds. -/
def afterRounds (j : ℕ) : Option ActiveCommand :=
  if j = 0 then none else some ⟨UInt64.ofNat j, none, true⟩

/-- The end event that a prompt causes after `j` prompts, without its time. -/
def endEvents (j : ℕ) (r : Round) : List Event :=
  if 0 < j then
    [commandEndEvent root root (some (UInt64.ofNat j)) (Int32.ofInt r.status.toNat) r.pwd 0]
  else []

/-- The start event of a round after `j` prompts, without its time. -/
def startEvents (j : ℕ) (r : Round) : List Event :=
  r.started.toList.map fun s =>
    commandStartEvent root root (UInt64.ofNat (j + 1)) s.2.2 s.1 0

theorem run_endMarkers (j : ℕ) (r : Round) {pairs : List (CommandMarker × UInt64)}
    (hpairs : pairs.map Prod.fst = if 0 < j then
      [{ type := .stop, id := UInt64.ofNat j, cwd := r.pwd,
         exitCode := Int32.ofInt r.status.toNat }] else []) :
    ∃ es, Transducer.run notify (markState root cwd (afterRounds j)) (timed root pairs) =
        .ok (markState root cwd none, es) ∧ es.map Event.untimed = endEvents root j r := by
  by_cases hj : 0 < j
  · rw [if_pos hj] at hpairs
    obtain ⟨⟨m, t⟩, rest, rfl, rfl, hnil⟩ := List.map_eq_cons_iff.mp hpairs
    obtain rfl := List.map_eq_nil_iff.mp hnil
    refine ⟨[commandEndEvent root root (some (UInt64.ofNat j)) (Int32.ofInt r.status.toNat)
      r.pwd t], ?_, by rw [endEvents, if_pos hj]; rfl⟩
    rw [timed, List.map_singleton, Transducer.run_singleton, afterRounds, if_neg (by omega)]
    exact notify_stop root cwd _ _ _ t
  · rw [if_neg hj] at hpairs
    obtain rfl := List.map_eq_nil_iff.mp hpairs
    refine ⟨[], ?_, by rw [endEvents, if_neg hj]; rfl⟩
    rw [afterRounds, if_pos (by omega)]
    rfl

theorem run_startMarkers (j : ℕ) (r : Round) {pairs : List (CommandMarker × UInt64)}
    (hpairs : pairs.map Prod.fst = r.started.toList.map fun s =>
      { type := .start, id := UInt64.ofNat (j + 1), cwd := s.1, text := s.2.2 }) :
    ∃ es, Transducer.run notify (markState root cwd (some ⟨UInt64.ofNat (j + 1), none, false⟩))
        (timed root pairs) =
          .ok (markState root cwd (some ⟨UInt64.ofNat (j + 1), none, r.started.isSome⟩), es) ∧
      es.map Event.untimed = startEvents root j r := by
  rw [startEvents]
  cases hs : r.started with
  | none =>
      rw [hs] at hpairs
      obtain rfl := List.map_eq_nil_iff.mp hpairs
      exact ⟨[], rfl, rfl⟩
  | some s =>
      rw [hs] at hpairs
      obtain ⟨⟨m, t⟩, rest, rfl, rfl, hnil⟩ := List.map_eq_cons_iff.mp hpairs
      obtain rfl := List.map_eq_nil_iff.mp hnil
      refine ⟨[commandStartEvent root root (UInt64.ofNat (j + 1)) s.2.2 s.1 t], ?_, rfl⟩
      rw [timed, List.map_singleton, Transducer.run_singleton]
      exact notify_start root cwd _ _ _ t

/-- The markers of a round are accepted after complete rounds. -/
theorem run_round (j : ℕ) (r : Round) {pairs : List (CommandMarker × UInt64)}
    (hpairs : pairs.map Prod.fst = roundMarkers j r) :
    ∃ es, Transducer.run notify (markState root cwd (afterRounds j)) (timed root pairs) =
        .ok (markState root cwd (some ⟨UInt64.ofNat (j + 1), none, r.started.isSome⟩), es) ∧
      es.map Event.untimed = endEvents root j r ++ startEvents root j r := by
  obtain ⟨ends, rest, rfl, hends, hrest⟩ := List.map_eq_append_iff.mp hpairs
  obtain ⟨⟨arm, t⟩, starts, rfl, harm, hstarts⟩ := List.map_eq_cons_iff.mp hrest
  obtain ⟨ended, hended, hendedEvents⟩ := run_endMarkers root cwd j r hends
  obtain ⟨started, hstarted, hstartedEvents⟩ := run_startMarkers root cwd j r hstarts
  have harmed : (markState root cwd none).notify (.marker root arm t) =
      .ok (markState root cwd (some ⟨UInt64.ofNat (j + 1), none, false⟩), []) := by
    obtain rfl : arm = { type := .arm, id := UInt64.ofNat (j + 1), cwd := r.pwd } := harm
    exact notify_arm root cwd _ _ t
  refine ⟨ended ++ ([] ++ started), ?_, ?_⟩
  · rw [timed, List.map_append, ← timed, List.map_cons, ← timed]
    exact Transducer.run_append_ok_iff.mpr ⟨_, ended, [] ++ started, hended,
      Transducer.run_cons_ok_iff.mpr ⟨_, [], started, harmed, hstarted, rfl⟩, rfl⟩
  · rw [List.map_append, List.nil_append, hendedEvents, hstartedEvents]

/-! ### All rounds -/

def roundsText (j : ℕ) : List Round → Bytes
  | [] => []
  | r :: rs => roundText j r ++ roundsText (j + 1) rs

def roundsMarkers (j : ℕ) : List Round → List CommandMarker
  | [] => []
  | r :: rs => roundMarkers j r ++ roundsMarkers (j + 1) rs

/-- The command events of the rounds after `j` prompts, without their times:
the start of every round with two start calls, and its end with the status
and directory given to the next prompt. -/
def roundsEvents (j : ℕ) : List Round → List Event
  | [] => []
  | r :: rs => (endEvents root j r ++ startEvents root j r) ++ roundsEvents (j + 1) rs

theorem shellRun_rounds {shell : ShellState} {j : ℕ} (h : AfterPrompts shell j)
    (rounds : List Round) (hj : j + rounds.length < 2 ^ 63) :
    ∃ shell', shellRun shell (rounds.flatMap Round.calls) = (shell', roundsText j rounds) ∧
      AfterPrompts shell' (j + rounds.length) := by
  induction rounds generalizing shell j with
  | nil => exact ⟨shell, rfl, h⟩
  | cons r rs ih =>
      rw [List.length_cons] at hj
      obtain ⟨shell', hround, hafter⟩ := shellRun_round h (by omega) r
      obtain ⟨shell'', hrest, hafter'⟩ := ih hafter (by omega)
      refine ⟨shell'', ?_, ?_⟩
      · rw [List.flatMap_cons, shellRun_append, hround]
        simp only [hrest, roundsText]
      · rw [List.length_cons, Nat.add_comm rs.length, ← Nat.add_assoc]
        exact hafter'

theorem consume_roundsText {j : ℕ} {rounds : List Round} (hj : j + rounds.length < 2 ^ 63)
    (hfits : ∀ call ∈ rounds.flatMap Round.calls, call.Fits) :
    consume {} (roundsText j rounds) = .ok ({}, roundsMarkers j rounds) := by
  induction rounds generalizing j with
  | nil => rfl
  | cons r rs ih =>
      rw [List.length_cons] at hj
      rw [List.flatMap_cons] at hfits
      have hround := consume_roundText (j := j) (by omega)
        fun call hcall => hfits call (List.mem_append_left _ hcall)
      rw [roundsText, consume_append_of_ok _ hround,
        ih (by omega) fun call hcall => hfits call (List.mem_append_right _ hcall)]
      rfl

theorem started_isSome {r : Round} (h : 2 ≤ r.starts.length) : r.started.isSome = true := by
  exact Option.isSome_iff_exists.mpr ⟨r.starts[1], List.getElem?_eq_getElem (by omega)⟩

/-- The markers of all rounds are accepted when every round but the last has
its two start calls. -/
theorem run_rounds {j : ℕ} {rounds : List Round}
    (htwo : ∀ past r r' rest, rounds = past ++ r :: r' :: rest → 2 ≤ r.starts.length)
    {pairs : List (CommandMarker × UInt64)}
    (hpairs : pairs.map Prod.fst = roundsMarkers j rounds) :
    ∃ σ es, Transducer.run notify (markState root cwd (afterRounds j)) (timed root pairs) =
        .ok (σ, es) ∧ es.map Event.untimed = roundsEvents root j rounds := by
  induction rounds generalizing j pairs with
  | nil =>
      obtain rfl := List.map_eq_nil_iff.mp hpairs
      exact ⟨_, [], rfl, rfl⟩
  | cons r rs ih =>
      obtain ⟨first, rest, rfl, hfirst, hrest⟩ := List.map_eq_append_iff.mp hpairs
      obtain ⟨es, hround, hevents⟩ := run_round root cwd j r hfirst
      cases rs with
      | nil =>
          obtain rfl := List.map_eq_nil_iff.mp hrest
          exact ⟨_, es, by rw [List.append_nil, hround],
            by rw [hevents, roundsEvents, roundsEvents, List.append_nil]⟩
      | cons r' rs =>
          have hafter : some (⟨UInt64.ofNat (j + 1), none, r.started.isSome⟩ : ActiveCommand) =
              afterRounds (j + 1) := by
            rw [started_isSome (htwo [] r r' rs rfl)]
            rfl
          obtain ⟨σ, es', hrests, hevents'⟩ := ih (j := j + 1)
            (fun past s s' more hsplit => htwo (r :: past) s s' more (by rw [hsplit]; rfl)) hrest
          rw [hafter] at hround
          refine ⟨σ, es ++ es', ?_, ?_⟩
          · rw [timed, List.map_append, ← timed, ← timed]
            exact Transducer.run_append_ok_iff.mpr ⟨_, es, es', hround, hrests, rfl⟩
          · rw [List.map_append, hevents, hevents']
            rfl

/-! ### Cutting the stream into writes -/

/-- A stream that decodes as a whole decodes in pieces; the markers reach the
execution state in order, each at the time of its write. -/
theorem run_writes {protocol protocol' : CommandProtocol} {markers : List CommandMarker}
    {writes : List (Bytes × UInt64)}
    (h : protocol.consume (writes.flatMap Prod.fst) = .ok (protocol', markers)) :
    ∃ pairs : List (CommandMarker × UInt64), pairs.map Prod.fst = markers ∧
      ∀ σ σ' es, Transducer.run notify σ (timed root pairs) = .ok (σ', es) →
        Transducer.run (SessionState.step root) ⟨protocol, σ⟩
          (writes.map fun w => .write w.1 w.2) = .ok (⟨protocol', σ'⟩, es) := by
  induction writes generalizing protocol markers with
  | nil =>
      simp only [List.flatMap_nil, consume, Transducer.run_nil, Except.ok.injEq,
        Prod.mk.injEq] at h
      obtain ⟨rfl, rfl⟩ := h
      refine ⟨[], rfl, fun σ σ' es hrun => ?_⟩
      simp only [timed, List.map_nil, Transducer.run_nil, Except.ok.injEq, Prod.mk.injEq] at hrun
      obtain ⟨rfl, rfl⟩ := hrun
      rfl
  | cons w writes ih =>
      obtain ⟨middle, first, rest, hfirst, hrest, rfl⟩ := Transducer.run_append_ok_iff.mp h
      obtain ⟨pairs, hpairs, hruns⟩ := ih hrest
      refine ⟨first.map (fun m => (m, w.2)) ++ pairs, by simp [hpairs, Function.comp_def],
        fun σ σ' es hrun => ?_⟩
      rw [timed, List.map_append, ← timed, ← timed] at hrun
      obtain ⟨τ, o, o', hhead, htail, rfl⟩ := Transducer.run_append_ok_iff.mp hrun
      rw [timed, List.map_map] at hhead
      refine Transducer.run_cons_ok_iff.mpr ⟨⟨middle, τ⟩, o, o', ?_, hruns τ σ' o' htail, rfl⟩
      have hconsume : protocol.consume w.1 = .ok (middle, first) := hfirst
      simp only [SessionState.step, SessionState.consumeMarkers, hconsume, Bind.bind,
        Except.bind]
      rw [show (first.map fun m => Notification.marker root m w.2) =
        first.map ((fun p => Notification.marker root p.1 p.2) ∘ fun m => (m, w.2)) from rfl,
        hhead]

end follow

theorem afterPrompts_zero : AfterPrompts {} 0 := ⟨rfl, rfl⟩

/-- For fewer than 2⁶³ prompts the decoder and the execution state accept the
bytes of the shell functions, however they are cut into writes, and emit
exactly the start and end events of the rounds. -/
theorem shell_agreement {calls : List ShellCall} (hprompt : StartsWithPrompt calls)
    (htwo : TwoStartsBetween calls) (hfits : ∀ call ∈ calls, call.Fits)
    (hcount : promptCount calls < 2 ^ 63) (root : Pid) (cwd : Bytes) (startNs : UInt64)
    {writes : List (Bytes × UInt64)} (hcut : writes.flatMap Prod.fst = (shellRun {} calls).2) :
    ∃ session es, Transducer.run (SessionState.step root)
        { execution := initialState root cwd none startNs }
        (writes.map fun w => .write w.1 w.2) = .ok (session, es) ∧
      es.map Event.untimed = roundsEvents root 0 (splitRounds calls).2 ∧
      session.protocol.finish = .ok () := by
  rw [promptCount] at hcount
  have hcalls := flatMap_rounds hprompt
  generalize (splitRounds calls).2 = rounds at hcalls hcount ⊢
  subst hcalls
  obtain ⟨shell, hshell, -⟩ := shellRun_rounds afterPrompts_zero rounds (by omega)
  have hconsume : consume {} (writes.flatMap Prod.fst) = .ok ({}, roundsMarkers 0 rounds) := by
    rw [hcut, hshell]
    exact consume_roundsText (by omega) hfits
  obtain ⟨pairs, hpairs, hruns⟩ := run_writes root hconsume
  obtain ⟨σ, es, hrun, hevents⟩ := run_rounds root cwd (j := 0)
    (fun past r r' rest hsplit => two_le_starts htwo hsplit) hpairs
  exact ⟨_, es, hruns _ σ es hrun, hevents, rfl⟩

/-! ### The last id -/

theorem splitRounds_startCalls (starts : List (Bytes × Bytes × Bytes))
    (calls : List ShellCall) :
    splitRounds (startCalls starts ++ calls) =
      (starts ++ (splitRounds calls).1, (splitRounds calls).2) := by
  induction starts with
  | nil => rfl
  | cons s starts ih =>
      rw [startCalls, List.map_cons, ← startCalls, List.cons_append, splitRounds, ih]
      rfl

theorem splitRounds_flatMap (rounds : List Round) :
    splitRounds (rounds.flatMap Round.calls) = ([], rounds) := by
  induction rounds with
  | nil => rfl
  | cons r rs ih =>
      rw [List.flatMap_cons, Round.calls, List.cons_append, splitRounds, splitRounds_startCalls,
        ih]
      simp

theorem splitRounds_append (past : List ShellCall) (status : UInt8) (pwd : Bytes)
    (rest : List ShellCall) :
    ∃ rounds, (splitRounds (past ++ .prompt status pwd :: rest)).2 =
      rounds ++ (splitRounds (.prompt status pwd :: rest)).2 := by
  induction past with
  | nil => exact ⟨[], rfl⟩
  | cons call past ih =>
      obtain ⟨rounds, hrounds⟩ := ih
      cases call with
      | prompt status' pwd' =>
          refine ⟨⟨status', pwd',
            (splitRounds (past ++ .prompt status pwd :: rest)).1⟩ :: rounds, ?_⟩
          rw [List.cons_append, List.cons_append, ← hrounds]
          rfl
      | start pwd' before text => exact ⟨rounds, hrounds⟩

/-- Rounds with two start calls each satisfy the condition on calls. -/
theorem twoStartsBetween_flatMap {rounds : List Round}
    (h : ∀ r ∈ rounds, 2 ≤ r.starts.length) : TwoStartsBetween (rounds.flatMap Round.calls) := by
  intro past status pwd starts status' pwd' rest hsplit
  have hrounds := congrArg (fun calls => (splitRounds calls).2) hsplit
  obtain ⟨before, hbefore⟩ := splitRounds_append past status pwd
    (startCalls starts ++ .prompt status' pwd' :: rest)
  simp only [splitRounds_flatMap, hbefore, splitRounds, splitRounds_startCalls,
    List.append_nil] at hrounds
  exact h ⟨status, pwd, starts⟩ (by rw [hrounds]; simp)

theorem consume_last_field_error (fields : List Bytes) {text : Bytes} {e : Failure}
    (hfits : FieldFits text) (hfields : fields.length + 1 = kProtocolFields)
    (hdecode : decodeRecord (fields ++ [text]) = .error e) :
    consume ⟨[], fields⟩ (field text) = .error e := by
  rw [field, consume_append_of_ok [0] (consume_bytes _ hfits.1 (by simpa using hfits.2))]
  simp [consume, Transducer.run, consumeByte, hfields, hdecode, Except.map]

/-- The sign of a wrapped id is no digit: the arm record is rejected. -/
theorem consume_wrapped_arm (pwd rest : Bytes) (hpwd : FieldFits pwd) :
    consume {} (field (lit "A") ++ field (decimal (-(2 ^ 63))) ++ field pwd ++ field [] ++ rest) =
      .error "invalid command marker id" := by
  have hid : FieldFits (decimal (-(2 ^ 63))) := by
    refine ⟨fun hzero => ne_zero_of_mem_decimal hzero rfl, ?_⟩
    rw [decimal, if_pos (by norm_num), List.length_cons]
    have hlength := length_decimalNat_le (n := (-(2 ^ 63) : ℤ).natAbs) (k := 19) (by omega)
      (by norm_num)
    exact (Nat.succ_le_succ hlength).trans (by decide)
  have hdecode : decodeRecord [lit "A", decimal (-(2 ^ 63)), pwd, []] =
      .error "invalid command marker id" := by
    have hparse : parseId (decimal (-(2 ^ 63))) = .error "invalid command marker id" := by
      rw [parseId, fromCharsUnsigned_decimal_neg _ (by norm_num)]
    simp only [decodeRecord, List.getD_cons_succ, List.getD_cons_zero, hparse, Bind.bind,
      Except.bind]
  have hfirst : consume {} (field (lit "A")) = .ok (⟨[], [lit "A"]⟩, []) :=
    consume_field [] (by decide) (by simp [kProtocolFields])
  have hsecond : consume ⟨[], [lit "A"]⟩ (field (decimal (-(2 ^ 63)))) =
      .ok (⟨[], [lit "A", decimal (-(2 ^ 63))]⟩, []) :=
    consume_field [lit "A"] hid (by simp [kProtocolFields])
  have hthird : consume ⟨[], [lit "A", decimal (-(2 ^ 63))]⟩ (field pwd) =
      .ok (⟨[], [lit "A", decimal (-(2 ^ 63)), pwd]⟩, []) :=
    consume_field [lit "A", decimal (-(2 ^ 63))] hpwd (by simp [kProtocolFields])
  have hlast : consume ⟨[], [lit "A", decimal (-(2 ^ 63)), pwd]⟩ (field []) =
      .error "invalid command marker id" :=
    consume_last_field_error [lit "A", decimal (-(2 ^ 63)), pwd]
      ⟨by simp, by simp⟩ rfl hdecode
  simp only [List.append_assoc]
  rw [consume_append_of_ok _ hfirst, consume_append_of_ok _ hsecond,
    consume_append_of_ok _ hthird, consume, Transducer.run_append_of_error rest hlast]
  rfl

/-- What the prompt prints when the sequence number wraps around. -/
theorem shellStep_wraps {shell : ShellState} (h : AfterPrompts shell (2 ^ 63 - 1))
    (status : UInt8) (pwd : Bytes) :
    (shellStep shell (.prompt status pwd)).2 = endRecord (2 ^ 63 - 1) status pwd ++
      (field (lit "A") ++ field (decimal (-(2 ^ 63))) ++ field pwd ++ field []) := by
  have hactive : shell.activeCommand.toInt = (2 ^ 63 - 1 : ℕ) := by
    rw [h.active]
    exact Int64.toInt_ofNat_of_lt (by norm_num)
  have hnext : (shell.sequence + 1).toInt = -(2 ^ 63) := by
    rw [h.sequence]
    decide
  have hpositive : 0 < shell.activeCommand := by
    rw [h.active]
    decide
  simp only [shellStep, whyrunPrompt, hnext, hactive, if_pos hpositive, endRecord,
    List.append_assoc]

/-- At the 2⁶³rd prompt the decoder throws. -/
theorem consume_wraps {rounds : List Round} (hlength : rounds.length = 2 ^ 63 - 1) {r : Round}
    (hfits : ∀ call ∈ (rounds ++ [r]).flatMap Round.calls, call.Fits) :
    consume {} (shellRun {} ((rounds ++ [r]).flatMap Round.calls)).2 =
      .error "invalid command marker id" := by
  rw [List.flatMap_append] at hfits ⊢
  have hpwd : FieldFits r.pwd :=
    hfits (.prompt r.status r.pwd) (List.mem_append_right _ (by simp [Round.calls]))
  have hbound : 0 + rounds.length < 2 ^ 63 := by omega
  obtain ⟨shell, hshell, hafter⟩ := shellRun_rounds afterPrompts_zero rounds hbound
  rw [Nat.zero_add, hlength] at hafter
  have hrounds := consume_roundsText hbound fun call hcall =>
    hfits call (List.mem_append_left _ hcall)
  have hended : consume {} (endRecord (2 ^ 63 - 1) r.status r.pwd) = .ok ({}, _) :=
    consume_record (by decide) (fieldFits_decimal (by omega))
      (fieldFits_decimal (by have := r.status.toNat_lt; omega)) hpwd
      (decode_end (by omega) (by omega) _ _)
  rw [shellRun_append, hshell, List.flatMap_singleton, Round.calls]
  simp only [shellRun, shellStep_wraps hafter, List.append_assoc]
  rw [consume_append_of_ok _ hrounds, consume_append_of_ok _ hended]
  have harm := consume_wrapped_arm r.pwd (shellRun (shellStep shell
    (.prompt r.status r.pwd)).1 (startCalls r.starts)).2 hpwd
  simp only [List.append_assoc] at harm
  rw [harm]
  rfl

/-- A prompt at `/` and two start calls of the same command. -/
def sampleRound : Round :=
  ⟨0, lit "/", [(lit "/", lit "1  ", lit "ls"), (lit "/", lit "1  ", lit "ls")]⟩

theorem sampleRound_fits : ∀ call ∈ sampleRound.calls, call.Fits := by
  have hpwd : FieldFits (lit "/") := ⟨by decide, by decide⟩
  have hstart : ShellCall.Fits (.start (lit "/") (lit "1  ") (lit "ls")) :=
    ⟨hpwd, ⟨by decide, by decide⟩, by decide⟩
  intro call hcall
  simp only [Round.calls, sampleRound, startCalls, List.map_cons, List.map_nil, List.mem_cons,
    List.not_mem_nil, or_false] at hcall
  rcases hcall with rfl | rfl | rfl
  · exact hpwd
  · exact hstart
  · exact hstart

theorem sampleRounds {n : ℕ} (hpos : 0 < n) :
    StartsWithPrompt ((List.replicate n sampleRound).flatMap Round.calls) ∧
      TwoStartsBetween ((List.replicate n sampleRound).flatMap Round.calls) ∧
      (∀ call ∈ (List.replicate n sampleRound).flatMap Round.calls, call.Fits) ∧
      promptCount ((List.replicate n sampleRound).flatMap Round.calls) = n := by
  refine ⟨?_, ?_, ?_, ?_⟩
  · obtain ⟨m, rfl⟩ := Nat.exists_eq_succ_of_ne_zero hpos.ne'
    rw [List.replicate_succ, List.flatMap_cons, Round.calls, List.cons_append]
    exact ⟨_, _, _, rfl⟩
  · refine twoStartsBetween_flatMap fun r hr => ?_
    rw [List.eq_of_mem_replicate hr]
    decide
  · intro call hcall
    obtain ⟨r, hr, hcall⟩ := List.mem_flatMap.mp hcall
    rw [List.eq_of_mem_replicate hr] at hcall
    exact sampleRound_fits call hcall
  · rw [promptCount, splitRounds_flatMap, List.length_replicate]

/-- Without a bound on the prompts the decoder can throw: the shell's
sequence number wraps around. -/
theorem shell_wraps :
    ∃ calls, StartsWithPrompt calls ∧ TwoStartsBetween calls ∧ (∀ call ∈ calls, call.Fits) ∧
      Transducer.run (SessionState.step 7) { execution := initialState 7 (lit "/") none 0 }
        [.write (shellRun {} calls).2 0] = .error "invalid command marker id" := by
  -- the number of rounds stays a variable: nothing may unfold the replicate
  obtain ⟨n, hn⟩ : ∃ n, n = 2 ^ 63 - 1 := ⟨_, rfl⟩
  obtain ⟨hprompt, htwo, hfits, -⟩ := sampleRounds (Nat.succ_pos n)
  refine ⟨_, hprompt, htwo, hfits, ?_⟩
  rw [List.replicate_succ'] at hfits ⊢
  have herror := consume_wraps (List.length_replicate.trans hn) hfits
  simp only [Transducer.run_singleton, SessionState.step, SessionState.consumeMarkers, herror,
    Bind.bind, Except.bind]

theorem shell_agreement_sample :
    ∃ session es, Transducer.run (SessionState.step 7)
        { execution := initialState 7 (lit "/") none 0 }
        [.write (shellRun {} ((List.replicate 2 sampleRound).flatMap Round.calls)).2 5] =
          .ok (session, es) ∧
      es.map Event.untimed = roundsEvents 7 0
        (splitRounds ((List.replicate 2 sampleRound).flatMap Round.calls)).2 ∧
      session.protocol.finish = .ok () := by
  obtain ⟨hprompt, htwo, hfits, hcount⟩ := sampleRounds (n := 2) (by omega)
  have hcut : [((shellRun {} ((List.replicate 2 sampleRound).flatMap Round.calls)).2,
      (5 : UInt64))].flatMap Prod.fst =
        (shellRun {} ((List.replicate 2 sampleRound).flatMap Round.calls)).2 :=
    List.flatMap_singleton _ _
  exact shell_agreement hprompt htwo hfits (by rw [hcount]; norm_num) 7 (lit "/") 0 hcut

end Whyrun
