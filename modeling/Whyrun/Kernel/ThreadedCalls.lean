import Whyrun.Kernel.DescriptorTracking

/-!
Threads that share a descriptor table. A call takes effect in the kernel at
some moment before its exit stop is reported, so effects and reports can
come in different orders. Calls that do not touch a common descriptor
commute in the tracker, which therefore ends with the kernel's table as long
as no two calls that do are reported in the opposite order.
-/

namespace Whyrun

open ByteText ExecutionState

/-! ### Effects and reports -/

/-- A call that has taken effect, with its number among all effects and the
memory that is read at its exit stop. -/
structure Executed where
  index : ℕ
  memory : TraceeMemory
  call : RawSyscall

inductive ThreadStep
  | effect (memory : TraceeMemory) (call : RawSyscall)
  | report (tid : Pid)

/-- The calls in the order of their effects, those that are reported in the
order of the reports, and those in progress. -/
structure Schedule where
  effects : List Executed := []
  reports : List Executed := []
  pending : List Executed := []

/-- Effects are numbered from `first` on. -/
def Schedule.step (first : ℕ) (s : Schedule) : ThreadStep → Schedule
  | .effect memory call =>
      let executed : Executed := ⟨first + s.effects.length, memory, call⟩
      { s with effects := s.effects ++ [executed], pending := s.pending ++ [executed] }
  | .report tid =>
      { s with
        reports := s.reports ++ s.pending.filter fun x => x.call.tid = tid
        pending := s.pending.filter fun x => !(x.call.tid = tid) }

def scheduleOf (first : ℕ) (steps : List ThreadStep) : Schedule :=
  steps.foldl (Schedule.step first) {}

theorem scheduleOf_snoc (first : ℕ) (past : List ThreadStep) (step : ThreadStep) :
    scheduleOf first (past ++ [step]) = (scheduleOf first past).step first step := by
  simp [scheduleOf]

/-- The kernel's table after some effects. -/
def tableOf (table : FdTable) (effects : List Executed) : FdTable :=
  effects.foldl (fun table x => table.after x.index x.call) table

/-- A thread has one call in progress at a time, and the kernel's result is
one for the table at the effect. -/
def ThreadAdmits (isThread : Pid → Prop) (table : FdTable) (first : ℕ) (past : List ThreadStep) :
    ThreadStep → Prop
  | .effect _ call =>
      isThread call.tid ∧ (∀ x ∈ (scheduleOf first past).pending, x.call.tid ≠ call.tid) ∧
        CallAdmits (tableOf table (scheduleOf first past).effects) call
  | .report tid => ∃ x ∈ (scheduleOf first past).pending, x.call.tid = tid

/-! ### Calls on different descriptors -/

namespace RawSyscall

/-- The number that a call sets or closes. -/
def sets (call : RawSyscall) : Option Int32 :=
  if call.result < 0 then none
  else if isOpenCall call.number || call.number = nrSocket || isDupCall call.number then
    some call.returned
  else if call.number = nrClose then some call.source
  else none

/-- The number that a call looks up: the source of a copy or of a transfer,
the directory of an `openat`. -/
def looksUp (call : RawSyscall) : Option Int32 :=
  if call.number = nrOpen ∨ call.number = nrSocket ∨ call.number = nrClose then none
  else some call.source

/-- Neither call sets or closes a number that the other one uses. -/
def Independent (call call' : RawSyscall) : Prop :=
  ∀ fd, (call.sets = some fd → call'.sets ≠ some fd ∧ call'.looksUp ≠ some fd) ∧
    (call'.sets = some fd → call.looksUp ≠ some fd)

end RawSyscall

variable {P : ProcessState} {call call' : RawSyscall} {memory : TraceeMemory} {fd fd' : Int32}

theorem setFd_comm (P : ProcessState) (r r' : Option Resource) (h : fd ≠ fd') :
    (P.setFd fd r).setFd fd' r' = (P.setFd fd' r').setFd fd r := by
  simp only [ProcessState.setFd, Function.update_comm h]

theorem setFd_fdTable_of_ne (P : ProcessState) (r : Option Resource) (h : fd' ≠ fd) :
    (P.setFd fd r).fdTable fd' = P.fdTable fd' :=
  Function.update_of_ne h _ _

/-- How a decoded call is dispatched. -/
inductive CallKind (call : RawSyscall) : Prop
  | openCall (number : isOpenCall call.number = true)
  | socket (number : call.number = nrSocket)
  | dup (number : isDupCall call.number = true)
  | close (number : call.number = nrClose)
  | transfer (number : isTransferCall call.number = true)

theorem DecodedCall.kind (h : DecodedCall call) : CallKind call := by
  rcases h.listed with hopen | hsocket | hdup | hclose | htransfer
  · exact .openCall hopen
  · exact .socket hsocket
  · exact .dup hdup
  · exact .close hclose
  · exact .transfer htransfer

theorem sets_of_installs (h : 0 ≤ call.result)
    (hkind : isOpenCall call.number = true ∨ call.number = nrSocket ∨
      isDupCall call.number = true) : call.sets = some call.returned := by
  rw [RawSyscall.sets, if_neg (Int64.not_lt.mpr h), if_pos (by simpa [or_assoc] using hkind)]

theorem sets_of_close (h : 0 ≤ call.result) (hclose : call.number = nrClose) :
    call.sets = some call.source := by
  rw [RawSyscall.sets, if_neg (Int64.not_lt.mpr h), if_neg (by rw [hclose]; decide), if_pos hclose]

/-- `P'` is `P` with at most the entry of the given number changed. -/
def ChangesAt (P : ProcessState) (fd : Option Int32) (P' : ProcessState) : Prop :=
  P' = P ∨ ∃ k r, fd = some k ∧ P' = P.setFd k r

/-- A call changes at most the entry of the number that it sets or closes. -/
theorem syscallExit_changesAt (hcall : DecodedCall call) (memory : TraceeMemory)
    (P : ProcessState) : ChangesAt P call.sets (syscallExit memory P call).1 := by
  by_cases hfailed : call.result < 0
  · refine .inl ?_
    have hnonneg : ¬ 0 ≤ call.result := Int64.not_le.mpr hfailed
    cases hcall.kind with
    | openCall number =>
        obtain ⟨path, flags, metadata, heq⟩ := syscallExit_open memory P number
        rw [heq, installFile, if_neg hnonneg]
    | socket number => rw [syscallExit_socket number, socketExit, if_neg hnonneg]
    | dup number => rw [syscallExit_dup (isDupCall_iff.mp number), dupExit, if_pos hfailed]
    | close number =>
        rw [syscallExit_close number, closeExit, if_neg (by rintro h0; simp [h0] at hfailed)]
    | transfer number =>
        rw [syscallExit_transfer number, transferExit]
        dsimp only
        repeat' split
        all_goals rfl
  · have hresult : 0 ≤ call.result := Int64.not_lt.mp hfailed
    cases hcall.kind with
    | openCall number =>
        obtain ⟨path, flags, metadata, heq⟩ := syscallExit_open memory P number
        rw [heq, installFile, if_pos hresult]
        exact .inr ⟨_, _, sets_of_installs hresult (.inl number), rfl⟩
    | socket number =>
        rw [syscallExit_socket number, socketExit, if_pos hresult]
        exact .inr ⟨_, _, sets_of_installs hresult (.inr (.inl number)), rfl⟩
    | dup number =>
        rw [syscallExit_dup (isDupCall_iff.mp number), dupExit, if_neg hfailed]
        exact .inr ⟨_, _, sets_of_installs hresult (.inr (.inr number)), rfl⟩
    | close number =>
        rw [syscallExit_close number, closeExit, if_pos (hcall.closed hresult number)]
        exact .inr ⟨_, _, sets_of_close hresult number, rfl⟩
    | transfer number =>
        rw [syscallExit_transfer number, transferExit]
        dsimp only
        repeat' split
        all_goals exact .inl rfl

theorem resolvePath_setFd (P : ProcessState) (r : Option Resource) {dirfd : Int32} (path : Bytes)
    (h : dirfd ≠ fd) : resolvePath (P.setFd fd r) dirfd path = resolvePath P dirfd path := by
  unfold resolvePath
  rw [setFd_fdTable_of_ne P r h]
  rfl

theorem resolvePath_cwd_setFd (P : ProcessState) (r : Option Resource) (path : Bytes) :
    resolvePath (P.setFd fd r) atFdcwd path = resolvePath P atFdcwd path := by
  unfold resolvePath
  simp only [if_true]
  rfl

theorem installFile_setFd (P : ProcessState) (r : Option Resource) {result : Int64} (path : Bytes)
    (flags : UInt64) (h : 0 ≤ result → fd ≠ result.toInt32) :
    installFile (P.setFd fd r) result path flags =
      (installFile P result path flags).setFd fd r := by
  unfold installFile
  split
  · rename_i hresult
    exact setFd_comm P r _ (h hresult)
  · rfl

/-- A change of a number that a call does not use commutes with the call. -/
theorem syscallExit_setFd (hcall : DecodedCall call) (memory : TraceeMemory) (P : ProcessState)
    (r : Option Resource) (hset : call.sets ≠ some fd) (hlook : call.looksUp ≠ some fd) :
    syscallExit memory (P.setFd fd r) call =
      ((syscallExit memory P call).1.setFd fd r, (syscallExit memory P call).2) := by
  have hreturned : 0 ≤ call.result → isOpenCall call.number = true ∨ call.number = nrSocket ∨
      isDupCall call.number = true → fd ≠ call.returned := by
    intro hresult hkind heq
    rw [sets_of_installs hresult hkind, heq] at hset
    exact hset rfl
  have hsource : call.number ≠ nrOpen → call.number ≠ nrSocket → call.number ≠ nrClose →
      asInt (arg0 call.args) ≠ fd := by
    intro hopen hsocket hclose heq
    rw [RawSyscall.looksUp, if_neg (by simp [hopen, hsocket, hclose]), RawSyscall.source, heq]
      at hlook
    exact hlook rfl
  cases hcall.kind with
  | openCall number =>
      have hinstall : ∀ path flags, installFile (P.setFd fd r) call.result path flags =
          (installFile P call.result path flags).setFd fd r := fun path flags =>
        installFile_setFd P r path flags fun hresult => hreturned hresult (.inl number)
      by_cases hopen : call.number = nrOpen
      · simp only [syscallExit, if_pos hopen, openExit, resolvePath_cwd_setFd, hinstall]
        rfl
      · have hopenat : call.number = nrOpenat ∨ call.number = nrOpenat2 := by
          simpa [isOpenCall, hopen] using number
        have hdirfd : asInt (arg0 call.args) ≠ fd := by
          refine hsource hopen ?_ ?_ <;> rcases hopenat with h | h <;> rw [h] <;> decide
        simp only [syscallExit, if_neg hopen, if_pos hopenat, openatExit,
          resolvePath_setFd P r _ hdirfd, hinstall]
        rfl
  | socket number =>
      rw [syscallExit_socket number, syscallExit_socket number, socketExit, socketExit]
      split
      · rename_i hresult
        exact Prod.ext (setFd_comm P r _ (hreturned hresult (.inr (.inl number)))) rfl
      · rfl
  | dup number =>
      have hdup : asInt (arg0 call.args) ≠ fd := by
        refine hsource ?_ ?_ ?_ <;>
          rcases isDupCall_iff.mp number with h | h | h <;> rw [h] <;> decide
      rw [syscallExit_dup (isDupCall_iff.mp number), syscallExit_dup (isDupCall_iff.mp number),
        dupExit, dupExit]
      split
      · rfl
      · rename_i hresult
        rw [setFd_fdTable_of_ne P r hdup]
        exact Prod.ext
          (setFd_comm P r _ (hreturned (Int64.not_lt.mp hresult) (.inr (.inr number)))) rfl
  | close number =>
      rw [syscallExit_close number, syscallExit_close number, closeExit, closeExit]
      split
      · rename_i hzero
        have hclosed : fd ≠ asInt (arg0 call.args) := by
          rintro rfl
          rw [sets_of_close (by rw [hzero]; decide) number] at hset
          exact hset rfl
        rw [setFd_comm P r _ hclosed]
      · rfl
  | transfer number =>
      have htransfer : asInt (arg0 call.args) ≠ fd := by
        have hnumber := number
        simp only [isTransferCall, Bool.or_eq_true, decide_eq_true_eq] at hnumber
        refine hsource ?_ ?_ ?_ <;> rcases hnumber with h | h <;> rw [h] <;> decide
      rw [syscallExit_transfer number, syscallExit_transfer number, transferExit, transferExit,
        setFd_fdTable_of_ne P r htransfer]
      dsimp only
      cases P.fdTable (asInt (arg0 call.args)) with
      | none => rfl
      | some resource =>
          dsimp only
          split <;> rfl

/-- Independent calls have the same outcome in either order. -/
theorem RawSyscall.Independent.diamond (h : call.Independent call') (hcall : DecodedCall call)
    (hcall' : DecodedCall call') (memory memory' : TraceeMemory) (P : ProcessState) :
    ∃ Q, syscallExit memory' (syscallExit memory P call).1 call' =
        (Q, (syscallExit memory' P call').2) ∧
      syscallExit memory (syscallExit memory' P call').1 call =
        (Q, (syscallExit memory P call).2) := by
  have hfirst : ∀ fd r, call.sets = some fd → syscallExit memory' (P.setFd fd r) call' =
      ((syscallExit memory' P call').1.setFd fd r, (syscallExit memory' P call').2) := by
    intro fd r hfd
    obtain ⟨hset, hlook⟩ := (h fd).1 hfd
    exact syscallExit_setFd hcall' memory' P r hset hlook
  have hsecond : ∀ fd r, call'.sets = some fd → syscallExit memory (P.setFd fd r) call =
      ((syscallExit memory P call).1.setFd fd r, (syscallExit memory P call).2) := by
    intro fd r hfd
    exact syscallExit_setFd hcall memory P r (fun hset => ((h fd).1 hset).1 hfd) ((h fd).2 hfd)
  rcases syscallExit_changesAt hcall memory P with hP | ⟨k, r, hk, hP⟩
  · rcases syscallExit_changesAt hcall' memory' P with hP' | ⟨k', r', hk', hP'⟩
    · refine ⟨P, ?_, ?_⟩
      · rw [hP]
        exact Prod.ext hP' rfl
      · rw [hP']
        exact Prod.ext hP rfl
    · refine ⟨P.setFd k' r', ?_, ?_⟩
      · rw [hP]
        exact Prod.ext hP' rfl
      · rw [hP', hsecond k' r' hk', hP]
  · rcases syscallExit_changesAt hcall' memory' P with hP' | ⟨k', r', hk', hP'⟩
    · refine ⟨P.setFd k r, ?_, ?_⟩
      · rw [hP, hfirst k r hk, hP']
      · rw [hP']
        exact Prod.ext hP rfl
    · have hne : k ≠ k' := by
        rintro rfl
        exact ((h k).1 hk).1 hk'
      refine ⟨(P.setFd k r).setFd k' r', ?_, ?_⟩
      · rw [hP, hfirst k r hk, hP', setFd_comm P r' r hne.symm]
      · rw [hP', hsecond k' r' hk', hP]

/-! ### The tracker in two orders -/

/-- The tracked process and the event of each call. -/
abbrev TrackState := ProcessState × (ℕ → Option Event)

def track (s : TrackState) (x : Executed) : TrackState :=
  ((syscallExit x.memory s.1 x.call).1,
    Function.update s.2 x.index (syscallExit x.memory s.1 x.call).2)

theorem track_commutes : Traces.Commutes track fun x y =>
    x.index ≠ y.index ∧ DecodedCall x.call ∧ DecodedCall y.call ∧ x.call.Independent y.call := by
  rintro ⟨P, seen⟩ x y ⟨hne, hx, hy, hindep⟩
  obtain ⟨Q, hxy, hyx⟩ := hindep.diamond hx hy x.memory y.memory P
  simp only [track, hxy, hyx, Function.update_comm hne]

theorem seen_of_other {xs : List Executed} (s : TrackState) {k : ℕ}
    (hother : ∀ y ∈ xs, y.index ≠ k) : (xs.foldl track s).2 k = s.2 k := by
  induction xs generalizing s with
  | nil => rfl
  | cons y xs ih =>
      rw [List.foldl_cons, ih _ fun z hz => hother z (by simp [hz])]
      exact Function.update_of_ne (hother y (by simp)).symm _ _

/-- The event of a call is the one of its own step. -/
theorem seen_of_split {before after : List Executed} {x : Executed} (s : TrackState)
    (hfresh : ∀ y ∈ after, y.index ≠ x.index) :
    ((before ++ x :: after).foldl track s).2 x.index =
      (syscallExit x.memory (before.foldl track s).1 x.call).2 := by
  rw [List.foldl_append, List.foldl_cons, seen_of_other _ hfresh]
  exact Function.update_self _ _ _

/-! ### Schedules -/

variable {isThread : Pid → Prop} {table : FdTable} {first : ℕ} {steps : List ThreadStep}

/-- What holds of the lists of a schedule. -/
structure ScheduleHolds (isThread : Pid → Prop) (first : ℕ) (s : Schedule) : Prop where
  perm : s.effects.Perm (s.reports ++ s.pending)
  indices : s.effects.map Executed.index = List.range' first s.effects.length
  decoded : ∀ x ∈ s.effects, DecodedCall x.call ∧ isThread x.call.tid

theorem scheduleHolds (legal : Transducer.Legal (ThreadAdmits isThread table first) steps) :
    ScheduleHolds isThread first (scheduleOf first steps) := by
  induction steps using List.reverseRecOn with
  | nil => exact ⟨.nil, rfl, nofun⟩
  | append_singleton past step ih =>
      have hpast := ih legal.init
      have hadmits := legal.last
      rw [scheduleOf_snoc]
      cases step with
      | effect memory call =>
          obtain ⟨hthread, -, hcall⟩ := hadmits
          refine ⟨?_, ?_, fun x hx => ?_⟩
          · simp only [Schedule.step]
            rw [← List.append_assoc]
            exact hpast.perm.append_right _
          · simp only [Schedule.step, List.map_append, hpast.indices, List.length_append,
              List.map_singleton, List.length_singleton]
            rw [List.range'_1_concat]
          · rcases List.mem_append.mp hx with hx | hx
            · exact hpast.decoded x hx
            · rw [List.mem_singleton.mp hx]
              exact ⟨hcall.decoded, hthread⟩
      | report tid =>
          refine ⟨?_, hpast.indices, hpast.decoded⟩
          simp only [Schedule.step]
          rw [List.append_assoc]
          exact hpast.perm.trans ((List.filter_append_perm _ _).symm.append_left _)

/-- Numbered calls have different numbers. -/
theorem index_ne_of_split {xs before after : List Executed} {x : Executed}
    (hnodup : (xs.map Executed.index).Nodup) (hsplit : xs = before ++ x :: after) :
    ∀ y ∈ after, y.index ≠ x.index := by
  rintro y hy heq
  rw [hsplit, List.map_append, List.map_cons] at hnodup
  have hlast := (List.nodup_cons.mp (List.nodup_append.mp hnodup).2.1).1
  exact hlast (heq ▸ List.mem_map_of_mem hy)

theorem ScheduleHolds.nodup {s : Schedule} (h : ScheduleHolds isThread first s) :
    (s.effects.map Executed.index).Nodup := by
  rw [h.indices]
  exact List.nodup_range'

theorem ScheduleHolds.index_eq {s : Schedule} (h : ScheduleHolds isThread first s)
    {before after : List Executed} {x : Executed} (hsplit : s.effects = before ++ x :: after) :
    first ≤ x.index := by
  have hmem : x.index ∈ List.range' first s.effects.length := by
    rw [← h.indices, hsplit]
    simp
  exact (List.mem_range'_1.mp hmem).1

/-! ### The kernel's order -/

/-- The path of an open before the run, or of one that the run has seen. -/
def OpenedBy (opened : ℕ → Bytes → Prop) (first : ℕ) (seen : ℕ → Option Event) (k : ℕ)
    (path : Bytes) : Prop :=
  if k < first then opened k path
  else ∃ e, seen k = some e ∧ e.type = .fileOpen ∧ e.resource = path

theorem tableOf_snoc (table : FdTable) (xs : List Executed) (x : Executed) :
    tableOf table (xs ++ [x]) = (tableOf table xs).after x.index x.call := by
  simp [tableOf]

/-- A tracker that sees the calls in the order of their effects agrees with
the kernel throughout. -/
theorem ScheduleHolds.agrees {opened : ℕ → Bytes → Prop} {s : Schedule}
    (h : ScheduleHolds isThread first s) (hagrees : TableAgrees opened table P)
    (hbelow : ∀ fd k, table fd = some (.opened k) → k < first) {before after : List Executed}
    (hsplit : s.effects = before ++ after) :
    TableAgrees (OpenedBy opened first (s.effects.foldl track (P, fun _ => none)).2)
      (tableOf table before) (before.foldl track (P, fun _ => none)).1 := by
  induction before using List.reverseRecOn generalizing after with
  | nil =>
      intro fd
      have hfd := hagrees fd
      show EntryAgrees _ (table fd) (P.fdTable fd)
      match hd : table fd, hr : P.fdTable fd with
      | some (.opened k), some resource =>
          rw [hd, hr] at hfd
          exact ⟨hfd.1, by simpa [OpenedBy, hbelow fd k hd] using hfd.2⟩
      | some (.opened k), none => simp [hd, hr, EntryAgrees] at hfd
      | some (.socket k), entry =>
          rw [hd, hr] at hfd
          cases entry <;> exact hfd
      | some .inherited, entry =>
          rw [hd, hr] at hfd
          cases entry <;> exact hfd
      | none, entry =>
          rw [hd, hr] at hfd
          cases entry <;> exact hfd
  | append_singleton before x ih =>
      have hsplit' : s.effects = before ++ x :: after := by simp [hsplit]
      have hmem : x ∈ s.effects := by simp [hsplit']
      have hdecoded := (h.decoded x hmem).1
      rw [tableOf_snoc, List.foldl_append]
      refine (ih hsplit').call hdecoded fun hopen e he => ?_
      have hseen : ((before ++ x :: after).foldl track (P, fun _ => none)).2 x.index =
          (syscallExit x.memory (before.foldl track (P, fun _ => none)).1 x.call).2 :=
        seen_of_split (P, fun _ => none) (index_ne_of_split h.nodup hsplit')
      rw [← hsplit'] at hseen
      obtain ⟨path, flags, metadata, heq⟩ := syscallExit_open x.memory
        (before.foldl track (P, fun _ => none)).1 hopen
      rw [heq] at he hseen
      obtain rfl := Option.some.inj he
      rw [OpenedBy, if_neg (not_lt.mpr (h.index_eq hsplit'))]
      exact ⟨_, hseen, rfl, rfl⟩

/-! ### The order of the reports -/

def Executed.notification (x : Executed) : Notification := .syscall x.memory x.call

section reports

variable {σ τ : ExecutionState} {p : Pid} {es o : List Event} {xs : List Executed}
  {opened : ℕ → Bytes → Prop}

/-- The reported calls reach the record of the process. -/
theorem run_reports (hP : σ.processes p = some P) (seen : ℕ → Option Event)
    (hthreads : ∀ x ∈ xs, σ.processForThread x.call.tid = p) :
    ∃ τ es, Transducer.run notify σ (xs.map Executed.notification) = .ok (τ, es) ∧
      τ.processForThread = σ.processForThread ∧
      τ.processes p = some (xs.foldl track (P, seen)).1 := by
  induction xs generalizing σ P seen with
  | nil => exact ⟨σ, [], rfl, rfl, hP⟩
  | cons x xs ih =>
      have hself := hthreads x (by simp)
      have hstep : σ.notify x.notification =
          .ok (σ.setProcess p (syscallExit x.memory P x.call).1,
            (syscallExit x.memory P x.call).2.toList.map σ.emit) := by
        simp only [Executed.notification, notify, onSyscallExit, hself, hP]
      have hnext : (σ.setProcess p (syscallExit x.memory P x.call).1).processes p =
          some (syscallExit x.memory P x.call).1 := by simp
      obtain ⟨τ, es, hrun, hthread, hprocess⟩ := ih hnext
        (Function.update seen x.index (syscallExit x.memory P x.call).2)
        fun y hy => hthreads y (by simp [hy])
      exact ⟨τ, _, Transducer.run_cons_ok_iff.mpr ⟨_, _, es, hstep, hrun, rfl⟩, hthread, hprocess⟩

/-- Call `k` was opened before the run or is reported as an open of the path. -/
def RecordedAs (opened : ℕ → Bytes → Prop) (first : ℕ) (σ : ExecutionState)
    (reports : List Executed) (k : ℕ) (path : Bytes) : Prop :=
  if k < first then opened k path
  else ∃ before x after σ₁ es₁ σ₂ e, reports = before ++ x :: after ∧ x.index = k ∧
    Transducer.run notify σ (before.map Executed.notification) = .ok (σ₁, es₁) ∧
    σ₁.notify x.notification = .ok (σ₂, [e]) ∧ e.type = .fileOpen ∧ e.resource = path

/-- One report: the event of the call goes out. -/
theorem report_step {before after : List Executed} {x : Executed}
    (hP : σ.processes p = some P) (hthreads : ∀ y ∈ xs, σ.processForThread y.call.tid = p)
    (hnodup : (xs.map Executed.index).Nodup) (hsplit : xs = before ++ x :: after) :
    ∃ σ₁ es₁ σ₂ Q, Transducer.run notify σ (before.map Executed.notification) = .ok (σ₁, es₁) ∧
      σ₁.notify x.notification =
        .ok (σ₂, ((xs.foldl track (P, fun _ => none)).2 x.index).toList.map (σ₁.attributed Q)) := by
  have hbefore : ∀ y ∈ before, σ.processForThread y.call.tid = p :=
    fun y hy => hthreads y (by simp [hsplit, hy])
  obtain ⟨σ₁, es₁, hrun, hthread, hprocess⟩ := run_reports hP (fun _ => none) hbefore
  have hself : σ₁.processForThread x.call.tid = p := by
    rw [hthread]
    exact hthreads x (by simp [hsplit])
  obtain ⟨σ₂, o, hstep⟩ : ∃ σ₂ o, σ₁.notify x.notification = .ok (σ₂, o) := ⟨_, _, rfl⟩
  refine ⟨σ₁, es₁, σ₂, (before.foldl track (P, fun _ => none)).1, hrun, ?_⟩
  rw [hsplit, seen_of_split (P, fun _ => none) (index_ne_of_split hnodup hsplit), hstep]
  cases notify_effect hstep with
  | syscallUnknown unknown =>
      rw [hself, hprocess] at unknown
      contradiction
  | syscall found =>
      rw [hself, hprocess] at found
      obtain rfl := Option.some.inj found
      rfl

/-- What the tracker has seen is what was reported. -/
theorem recordedAs_of_openedBy {k : ℕ} {path : Bytes} (hP : σ.processes p = some P)
    (hthreads : ∀ x ∈ xs, σ.processForThread x.call.tid = p)
    (hnodup : (xs.map Executed.index).Nodup)
    (h : OpenedBy opened first (xs.foldl track (P, fun _ => none)).2 k path) :
    RecordedAs opened first σ xs k path := by
  unfold OpenedBy at h
  unfold RecordedAs
  split
  · rename_i hk
    rwa [if_pos hk] at h
  · rename_i hk
    rw [if_neg hk] at h
    obtain ⟨e, hseen, htype, hresource⟩ := h
    have hmem : ∃ x ∈ xs, x.index = k := by
      by_contra hnone
      have hother : ∀ y ∈ xs, y.index ≠ k := fun y hy heq => hnone ⟨y, hy, heq⟩
      rw [seen_of_other _ hother] at hseen
      contradiction
    obtain ⟨x, hx, rfl⟩ := hmem
    obtain ⟨before, after, hsplit⟩ := List.append_of_mem hx
    obtain ⟨σ₁, es₁, σ₂, Q, hrun, hstep⟩ := report_step hP hthreads hnodup hsplit
    rw [hseen] at hstep
    exact ⟨before, x, after, σ₁, es₁, σ₂, σ₁.attributed Q e, hsplit, rfl, hrun, hstep, htype,
      hresource⟩

/-- Threads of one process that share its table: if no two calls that use a
common descriptor, one of them setting or closing it, are reported in the
opposite order to their effects, then the tracked table refines the kernel's
once no call is in progress, and every read or write is recorded for the file
that it used. -/
theorem threads_keep_table (hP : σ.processes p = some P)
    (hthreads : ∀ tid, isThread tid → σ.processForThread tid = p)
    (hagrees : TableAgrees opened table P)
    (hbelow : ∀ fd k, table fd = some (.opened k) → k < first)
    (legal : Transducer.Legal (ThreadAdmits isThread table first) steps)
    (hquiet : (scheduleOf first steps).pending = [])
    (horder : ∀ x y, [x, y].Sublist (scheduleOf first steps).effects →
      [y, x].Sublist (scheduleOf first steps).reports → x.call.Independent y.call) :
    (∃ τ es P', Transducer.run notify σ
        ((scheduleOf first steps).reports.map Executed.notification) = .ok (τ, es) ∧
      τ.processes p = some P' ∧
      TableRefines (RecordedAs opened first σ (scheduleOf first steps).reports)
        (tableOf table (scheduleOf first steps).effects) P') ∧
    ∀ earlier x later before after, (scheduleOf first steps).effects = earlier ++ x :: later →
      (scheduleOf first steps).reports = before ++ x :: after →
      ∃ σ₁ es₁ σ₂ o, Transducer.run notify σ (before.map Executed.notification) = .ok (σ₁, es₁) ∧
        σ₁.notify x.notification = .ok (σ₂, o) ∧
        TransferEvents (RecordedAs opened first σ (scheduleOf first steps).reports)
          (tableOf table earlier) x.call o := by
  have hholds := scheduleHolds legal
  have hperm : (scheduleOf first steps).effects.Perm (scheduleOf first steps).reports := by
    simpa [hquiet] using hholds.perm
  have hnodup : ((scheduleOf first steps).reports.map Executed.index).Nodup :=
    (hperm.map _).nodup_iff.mp hholds.nodup
  have hreported : ∀ x ∈ (scheduleOf first steps).reports,
      σ.processForThread x.call.tid = p := fun x hx =>
    hthreads _ (hholds.decoded x (hperm.mem_iff.mpr hx)).2
  -- the tracker ends as if the calls had been reported in the order of their effects
  have hsame : (scheduleOf first steps).reports.foldl track (P, fun _ => none) =
      (scheduleOf first steps).effects.foldl track (P, fun _ => none) := by
    refine track_commutes.foldl_perm hperm (List.Nodup.of_map _ hholds.nodup) ?_ _
    intro x y hxy hyx
    have hx := hxy.subset (List.mem_cons_self : x ∈ [x, y])
    have hy := hxy.subset (List.mem_cons_of_mem x List.mem_cons_self : y ∈ [x, y])
    refine ⟨?_, (hholds.decoded x hx).1, (hholds.decoded y hy).1, horder x y hxy hyx⟩
    have hpair := (hxy.map Executed.index).nodup hholds.nodup
    simpa using hpair
  have hrecorded : ∀ k path,
      OpenedBy opened first
        ((scheduleOf first steps).effects.foldl track (P, fun _ => none)).2 k path →
      RecordedAs opened first σ (scheduleOf first steps).reports k path := by
    intro k path hk
    rw [← hsame] at hk
    exact recordedAs_of_openedBy hP hreported hnodup hk
  constructor
  · obtain ⟨τ, es, hrun, -, hprocess⟩ := run_reports hP (fun _ => none) hreported
    refine ⟨τ, es, _, hrun, hprocess, ?_⟩
    rw [hsame]
    have hfinal := hholds.agrees hagrees hbelow
      (List.append_nil (scheduleOf first steps).effects).symm
    exact TableAgrees.refines fun fd => (hfinal fd).mono hrecorded
  · intro earlier x later before after hearlier hbefore
    obtain ⟨σ₁, es₁, σ₂, Q, hrun, hstep⟩ := report_step hP hreported hnodup hbefore
    refine ⟨σ₁, es₁, σ₂, _, hrun, hstep, ?_⟩
    have hmem : x ∈ (scheduleOf first steps).effects := by simp [hearlier]
    have hseen : ((scheduleOf first steps).effects.foldl track (P, fun _ => none)).2 x.index =
        (syscallExit x.memory (earlier.foldl track (P, fun _ => none)).1 x.call).2 := by
      rw [hearlier]
      exact seen_of_split _ (index_ne_of_split hholds.nodup hearlier)
    rw [hsame, hseen]
    have htable := hholds.agrees hagrees hbelow hearlier
    exact TableAgrees.transferEvents (fun fd => (htable fd).mono hrecorded)
      (hholds.decoded x hmem).1

end reports

/-! ### A close that is reported late -/

/-- The root has a second thread. -/
def sampleThreadState : ExecutionState := (initialState 7 (lit "/") none 0).setThread 8 (some 7)

def sampleInherited : FdTable := fun fd => if 0 ≤ fd ∧ fd ≤ 3 then some .inherited else none

/-- Thread 7 closes descriptor 3. -/
def sampleCloseStep : ThreadStep :=
  .effect sampleMemory
    { pid := 7, tid := 7, number := nrClose, args := #v[3, 0, 0, 0, 0, 0], result := 0
      timestampNs := 1 }

/-- Thread 8 opens a file. -/
def sampleOpenStep (result : Int64) : ThreadStep :=
  .effect sampleMemory
    { pid := 7, tid := 8, number := nrOpen, args := #v[0, 0, 0, 0, 0, 0], result, timestampNs := 1 }

abbrev SampleAdmits : List ThreadStep → ThreadStep → Prop :=
  ThreadAdmits (fun tid => tid = 7 ∨ tid = 8) sampleInherited 0

theorem sampleThreadState_threads (tid : Pid) (h : tid = 7 ∨ tid = 8) :
    sampleThreadState.processForThread tid = 7 := by
  rcases h with rfl | rfl <;> rfl

theorem sampleInherited_agrees :
    TableAgrees (fun _ _ => False) sampleInherited { pid := 7, cwd := lit "/" } := by
  intro fd
  unfold sampleInherited
  split <;> trivial

theorem sampleInherited_below (fd : Int32) (k : ℕ) (h : sampleInherited fd = some (.opened k)) :
    k < 0 := by
  unfold sampleInherited at h
  split at h <;> simp at h

/-- The close takes effect before an open that gets its number, and is
reported after it. -/
theorem late_close_corrupts :
    ¬ ∀ (σ : ExecutionState) (p : Pid) (P : ProcessState) (isThread : Pid → Prop)
      (table : FdTable) (first : ℕ) (opened : ℕ → Bytes → Prop) (steps : List ThreadStep),
      σ.processes p = some P → (∀ tid, isThread tid → σ.processForThread tid = p) →
      TableAgrees opened table P → (∀ fd k, table fd = some (.opened k) → k < first) →
      Transducer.Legal (ThreadAdmits isThread table first) steps →
      (scheduleOf first steps).pending = [] →
      ∃ τ es P', Transducer.run notify σ
          ((scheduleOf first steps).reports.map Executed.notification) = .ok (τ, es) ∧
        τ.processes p = some P' ∧
        TableRefines (RecordedAs opened first σ (scheduleOf first steps).reports)
          (tableOf table (scheduleOf first steps).effects) P' := by
  intro h
  have hclose : SampleAdmits [] sampleCloseStep :=
    ⟨.inl rfl, nofun, ⟨by decide, by decide, by decide, by decide, by decide⟩⟩
  have hopen : SampleAdmits [sampleCloseStep] (sampleOpenStep 3) :=
    ⟨.inr rfl, by decide, ⟨by decide, by decide, by decide, by decide, by decide⟩⟩
  have hfirst : SampleAdmits [sampleCloseStep, sampleOpenStep 3] (.report 8) :=
    ⟨_, List.mem_cons_of_mem _ List.mem_cons_self, rfl⟩
  have hsecond : SampleAdmits [sampleCloseStep, sampleOpenStep 3, .report 8] (.report 7) :=
    ⟨_, List.mem_cons_self, rfl⟩
  obtain ⟨τ, es, P', hrun, hP', hrefines⟩ := h sampleThreadState 7 _ _ sampleInherited 0 _ _ rfl
    sampleThreadState_threads sampleInherited_agrees sampleInherited_below
    (((((Transducer.legal_nil _).snoc hclose).snoc hopen).snoc hfirst).snoc hsecond) rfl
  obtain ⟨rfl, rfl⟩ := Prod.mk.inj (Except.ok.inj hrun)
  obtain rfl := Option.some.inj hP'
  -- the kernel's entry is the opened file, the tracked one is gone
  obtain ⟨resource, hresource, -⟩ := (hrefines.file 3).mpr ⟨1, rfl⟩
  have hgone : (none : Option Resource) = some resource := hresource
  simp at hgone

/-- The open takes effect before a close of another number and is reported
after it. -/
theorem threads_keep_table_sample :
    ∃ τ es P', Transducer.run notify sampleThreadState
        ((scheduleOf 0 [sampleOpenStep 4, sampleCloseStep, .report 7, .report 8]).reports.map
          Executed.notification) = .ok (τ, es) ∧
      τ.processes 7 = some P' ∧
      TableRefines
        (RecordedAs (fun _ _ => False) 0 sampleThreadState
          (scheduleOf 0 [sampleOpenStep 4, sampleCloseStep, .report 7, .report 8]).reports)
        (tableOf sampleInherited
          (scheduleOf 0 [sampleOpenStep 4, sampleCloseStep, .report 7, .report 8]).effects) P' := by
  have hopen : SampleAdmits [] (sampleOpenStep 4) :=
    ⟨.inr rfl, nofun, ⟨by decide, by decide, by decide, by decide, by decide⟩⟩
  have hclose : SampleAdmits [sampleOpenStep 4] sampleCloseStep :=
    ⟨.inl rfl, by decide, ⟨by decide, by decide, by decide, by decide, by decide⟩⟩
  have hfirst : SampleAdmits [sampleOpenStep 4, sampleCloseStep] (.report 7) :=
    ⟨_, List.mem_cons_of_mem _ List.mem_cons_self, rfl⟩
  have hsecond : SampleAdmits [sampleOpenStep 4, sampleCloseStep, .report 7] (.report 8) :=
    ⟨_, List.mem_cons_self, rfl⟩
  have legal := ((((Transducer.legal_nil SampleAdmits).snoc hopen).snoc hclose).snoc hfirst).snoc
    hsecond
  refine (threads_keep_table rfl sampleThreadState_threads sampleInherited_agrees
    sampleInherited_below legal rfl fun x y hxy _ => ?_).1
  -- the only two calls use descriptors 4 and 3
  have hpair := hxy.eq_of_length rfl
  obtain ⟨rfl, hrest⟩ := List.cons.inj hpair
  obtain ⟨rfl, -⟩ := List.cons.inj hrest
  intro fd
  refine ⟨fun hsets => ?_, fun _ => by simp [RawSyscall.looksUp]⟩
  have hfour : fd = 4 := (Option.some.inj hsets).symm
  subst hfour
  exact ⟨by decide, by decide⟩

end Whyrun
