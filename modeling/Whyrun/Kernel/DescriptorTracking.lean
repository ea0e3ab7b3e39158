import Whyrun.Execution.Runs
import Whyrun.Kernel.Descriptors

/-!
The descriptor tables of the execution state refine those of the reference
kernel: an entry is a file exactly when the kernel's entry refers to a
description that was opened inside the run, under the path that was recorded
when it was opened.
-/

namespace Whyrun

open ByteText ExecutionState

/-! ### Agreeing tables -/

/-- An entry of the kernel and the tracked entry; `opened k path` says that
call `k` was recorded with the path. -/
def EntryAgrees (opened : ℕ → Bytes → Prop) : Option Description → Option Resource → Prop
  | some (.opened k), some resource => resource.type = .file ∧ opened k resource.name
  | some (.socket _), some resource => resource.type = .socket
  | some .inherited, none | none, none => True
  | _, _ => False

def TableAgrees (opened : ℕ → Bytes → Prop) (table : FdTable) (process : ProcessState) : Prop :=
  ∀ fd, EntryAgrees opened (table fd) (process.fdTable fd)

variable {opened : ℕ → Bytes → Prop} {table : FdTable} {P : ProcessState}

theorem EntryAgrees.mono {opened' : ℕ → Bytes → Prop}
    (hle : ∀ k path, opened k path → opened' k path) {d : Option Description}
    {r : Option Resource} (h : EntryAgrees opened d r) : EntryAgrees opened' d r := by
  match d, r with
  | some (.opened k), some resource => exact ⟨h.1, hle _ _ h.2⟩
  | some (.socket _), some resource => exact h
  | some .inherited, none | none, none => trivial
  | some .inherited, some _ | none, some _ => exact h.elim
  | some (.opened _), none | some (.socket _), none => exact h.elim

theorem TableAgrees.setFd (h : TableAgrees opened table P) {fd : Int32} {d : Option Description}
    {r : Option Resource} (hentry : EntryAgrees opened d r) :
    TableAgrees opened (Function.update table fd d) (P.setFd fd r) := by
  intro fd'
  by_cases hfd : fd' = fd
  · subst hfd
    simpa [ProcessState.setFd] using hentry
  · simpa [ProcessState.setFd, Function.update_of_ne hfd] using h fd'

/-- A file is tracked exactly where a description was opened in the run. -/
theorem TableAgrees.file_iff (h : TableAgrees opened table P) (fd : Int32) :
    (∃ r, P.fdTable fd = some r ∧ r.type = .file) ↔ ∃ k, table fd = some (.opened k) := by
  have hentry := h fd
  rcases htable : table fd with _ | d
  · cases hfd : P.fdTable fd <;> simp_all [EntryAgrees]
  · cases d <;> cases hfd : P.fdTable fd <;> simp_all [EntryAgrees]

theorem TableAgrees.socket_iff (h : TableAgrees opened table P) (fd : Int32) :
    (∃ r, P.fdTable fd = some r ∧ r.type = .socket) ↔ ∃ k, table fd = some (.socket k) := by
  have hentry := h fd
  rcases htable : table fd with _ | d
  · cases hfd : P.fdTable fd <;> simp_all [EntryAgrees]
  · cases d <;> cases hfd : P.fdTable fd <;> simp_all [EntryAgrees]

/-! ### One call -/

theorem TableAgrees.installFile (h : TableAgrees opened table P) {k : ℕ} {result : Int64}
    {path : Bytes} {flags : UInt64} (hresult : 0 ≤ result) (hopened : opened k path) :
    TableAgrees opened (Function.update table result.toInt32 (some (.opened k)))
      (Whyrun.installFile P result path flags) := by
  rw [Whyrun.installFile, if_pos hresult]
  exact h.setFd ⟨rfl, hopened⟩

section dispatch

variable {memory : TraceeMemory} {call : RawSyscall}

theorem syscallExit_open (memory : TraceeMemory) (P : ProcessState)
    (h : isOpenCall call.number = true) :
    ∃ path flags metadata, syscallExit memory P call =
      (Whyrun.installFile P call.result path flags,
        some (makeEvent P call .fileOpen path metadata)) := by
  simp only [isOpenCall, Bool.or_eq_true, decide_eq_true_eq] at h
  rcases h with (h | h) | h
  · exact ⟨_, _, _, by rw [syscallExit, if_pos h]; rfl⟩
  · exact ⟨_, _, _, by rw [syscallExit, if_neg (by rw [h]; decide), if_pos (.inl h)]; rfl⟩
  · exact ⟨_, _, _, by rw [syscallExit, if_neg (by rw [h]; decide), if_pos (.inr h)]; rfl⟩

theorem syscallExit_transfer (h : isTransferCall call.number = true) :
    syscallExit memory P call = transferExit P call := by
  simp only [isTransferCall, Bool.or_eq_true, decide_eq_true_eq] at h
  rw [syscallExit, if_neg, if_neg, if_pos h]
  all_goals rcases h with h | h <;> rw [h] <;> decide

end dispatch

/-- What the tracker relies on: the call is one that it decodes, and a close
that does not fail returns zero. -/
structure DecodedCall (call : RawSyscall) : Prop where
  listed : isOpenCall call.number ∨ call.number = nrSocket ∨ isDupCall call.number ∨
    call.number = nrClose ∨ isTransferCall call.number
  closed : 0 ≤ call.result → call.number = nrClose → call.result = 0

theorem CallAdmits.decoded {call : RawSyscall} (h : CallAdmits table call) : DecodedCall call :=
  ⟨h.listed, h.closed⟩

/-- A call of the kernel keeps the tables in agreement. -/
theorem TableAgrees.call {memory : TraceeMemory} {call : RawSyscall} {k : ℕ}
    (h : TableAgrees opened table P) (admits : DecodedCall call)
    (hopened : isOpenCall call.number = true →
      ∀ e ∈ (syscallExit memory P call).2, opened k e.resource) :
    TableAgrees opened (table.after k call) (syscallExit memory P call).1 := by
  by_cases hfailed : call.result < 0
  · -- a failed call changes neither table
    have hnonneg : ¬ 0 ≤ call.result := Int64.not_le.mpr hfailed
    rw [FdTable.after, if_pos hfailed]
    rcases admits.listed with hopen | hsocket | hdup | hclose | htransfer
    · obtain ⟨path, flags, metadata, heq⟩ := syscallExit_open memory P hopen
      rwa [heq, Whyrun.installFile, if_neg hnonneg]
    · rwa [syscallExit_socket hsocket, socketExit, if_neg hnonneg]
    · rwa [syscallExit_dup (isDupCall_iff.mp hdup), dupExit, if_pos hfailed]
    · rwa [syscallExit_close hclose, closeExit, if_neg (by rintro h0; simp [h0] at hfailed)]
    · rw [syscallExit_transfer htransfer, transferExit]
      dsimp only
      repeat' split
      all_goals exact h
  · have hresult : 0 ≤ call.result := Int64.not_lt.mp hfailed
    rw [FdTable.after, if_neg hfailed]
    rcases admits.listed with hopen | hsocket | hdup | hclose | htransfer
    · obtain ⟨path, flags, metadata, heq⟩ := syscallExit_open memory P hopen
      have hpath := hopened hopen
      rw [heq] at hpath ⊢
      rw [if_pos hopen]
      exact h.installFile hresult (hpath _ rfl)
    · rw [syscallExit_socket hsocket, socketExit, if_pos hresult, if_neg (by rw [hsocket]; decide),
        if_pos hsocket]
      exact h.setFd rfl
    · have hkinds : isOpenCall call.number = false ∧ call.number ≠ nrSocket := by
        rcases isDupCall_iff.mp hdup with h | h | h <;> rw [h] <;> decide
      rw [syscallExit_dup (isDupCall_iff.mp hdup), dupExit, if_neg hfailed,
        if_neg (by rw [hkinds.1]; decide), if_neg hkinds.2, if_pos hdup]
      exact h.setFd (h call.source)
    · rw [syscallExit_close hclose, closeExit, if_pos (admits.closed hresult hclose),
        if_neg (by rw [hclose]; decide), if_neg (by rw [hclose]; decide),
        if_neg (by rw [hclose]; decide), if_pos hclose]
      exact h.setFd trivial
    · have hkinds : isOpenCall call.number = false ∧ call.number ≠ nrSocket ∧
          isDupCall call.number = false ∧ call.number ≠ nrClose := by
        simp only [isTransferCall, Bool.or_eq_true, decide_eq_true_eq] at htransfer
        rcases htransfer with h | h <;> rw [h] <;> decide
      rw [syscallExit_transfer htransfer, transferExit, if_neg (by rw [hkinds.1]; decide),
        if_neg hkinds.2.1, if_neg (by rw [hkinds.2.2.1]; decide), if_neg hkinds.2.2.2]
      dsimp only
      repeat' split
      all_goals exact h

/-- The tracked table of a process refines the kernel's. -/
structure TableRefines (opened : ℕ → Bytes → Prop) (table : FdTable) (P : ProcessState) :
    Prop where
  file : ∀ fd, (∃ r, P.fdTable fd = some r ∧ r.type = .file) ↔ ∃ k, table fd = some (.opened k)
  path : ∀ fd k r, table fd = some (.opened k) → P.fdTable fd = some r → opened k r.name
  socket : ∀ fd, (∃ r, P.fdTable fd = some r ∧ r.type = .socket) ↔
    ∃ k, table fd = some (.socket k)

theorem TableAgrees.refines (h : TableAgrees opened table P) : TableRefines opened table P := by
  refine ⟨h.file_iff, fun fd k r hd hr => ?_, h.socket_iff⟩
  have hentry := h fd
  rw [hd, hr] at hentry
  exact hentry.2

/-- The reads and writes among the events of a call: exactly one when the
descriptor refers to a description opened in the run, and it names the path
recorded at the open. -/
structure TransferEvents (opened : ℕ → Bytes → Prop) (table : FdTable) (call : RawSyscall)
    (es : List Event) : Prop where
  one : isTransferCall call.number = true → ∀ k, table call.source = some (.opened k) →
    ∃ e, es = [e] ∧ e.type = (if call.number = nrRead then .fileRead else .fileWrite) ∧
      opened k e.resource
  named : ∀ e ∈ es, e.type = .fileRead ∨ e.type = .fileWrite →
    isTransferCall call.number = true ∧
      ∃ k, table call.source = some (.opened k) ∧ opened k e.resource

theorem TableAgrees.transferEvents {σ : ExecutionState} {memory : TraceeMemory}
    {call : RawSyscall} {Q : ProcessState} (h : TableAgrees opened table P)
    (admits : DecodedCall call) :
    TransferEvents opened table call
      ((syscallExit memory P call).2.toList.map (σ.attributed Q)) := by
  have hentry := h call.source
  constructor
  · intro htransfer k hk
    rw [hk] at hentry
    cases hfd : P.fdTable call.source with
    | none => simp [hfd, EntryAgrees] at hentry
    | some r =>
        rw [hfd] at hentry
        have hexit : ∃ metadata, transferExit P call =
            (P, some (makeEvent P call (if call.number = nrRead then .fileRead else .fileWrite)
              r.name metadata)) := by
          rw [RawSyscall.source] at hfd
          exact ⟨_, by simp [transferExit, hfd, hentry.1]; rfl⟩
        obtain ⟨metadata, hexit⟩ := hexit
        rw [syscallExit_transfer htransfer, hexit]
        exact ⟨_, rfl, rfl, hentry.2⟩
  · intro e he htype
    obtain ⟨raw, hraw, rfl⟩ := List.mem_map.mp he
    rw [Option.mem_toList] at hraw
    rcases admits.listed with hopen | hsocket | hdup | hclose | htransfer
    · obtain ⟨path, flags, metadata, heq⟩ := syscallExit_open memory P hopen
      rw [heq] at hraw
      obtain rfl := Option.some.inj hraw
      rcases htype with htype | htype <;> contradiction
    · rw [syscallExit_socket hsocket, socketExit] at hraw
      split at hraw <;> contradiction
    · rw [syscallExit_dup (isDupCall_iff.mp hdup), dupExit] at hraw
      split at hraw <;> contradiction
    · rw [syscallExit_close hclose, closeExit] at hraw
      split at hraw <;> contradiction
    · refine ⟨htransfer, ?_⟩
      rw [syscallExit_transfer htransfer, transferExit] at hraw
      dsimp only at hraw
      cases hfd : P.fdTable (asInt (arg0 call.args)) with
      | none => simp [hfd] at hraw
      | some r =>
          by_cases hfile : r.type = .file
          · obtain ⟨k, hk⟩ := (h.file_iff call.source).mp ⟨r, hfd, hfile⟩
            simp only [hfd, hfile, ne_eq, not_true_eq_false, if_false, Option.some.injEq] at hraw
            obtain rfl := hraw
            exact ⟨k, hk, h.refines.path call.source k r hk hfd⟩
          · simp [hfd, hfile] at hraw

/-! ### Runs -/

def KernelAction.notification : KernelAction → Notification
  | .call memory finished => .syscall memory finished
  | .fork parent child isVfork cloneFlags t =>
      .created parent child (if isVfork then ptraceEventVfork else ptraceEventFork) cloneFlags t

section runs

variable (root : Pid) (cwd : Bytes) (rootCommand : Option Bytes) (startNs : UInt64)

/-- The recording of some actions. -/
def recordActions (actions : List KernelAction) : Except Failure (ExecutionState × List Event) :=
  record root cwd rootCommand startNs (actions.map KernelAction.notification)

/-- Call `k` of the run was recorded as an open of the path. -/
def OpenedAs (actions : List KernelAction) (k : ℕ) (path : Bytes) : Prop :=
  ∃ before action after τ out τ' e, actions = before ++ action :: after ∧ before.length = k ∧
    recordActions root cwd rootCommand startNs before = .ok (τ, out) ∧
    τ.notify action.notification = .ok (τ', [e]) ∧ e.type = .fileOpen ∧ e.resource = path

variable {root cwd rootCommand startNs} {isInherited : Int32 → Bool}
  {past actions : List KernelAction} {σ : ExecutionState} {es : List Event}

theorem OpenedAs.append {k : ℕ} {path : Bytes}
    (h : OpenedAs root cwd rootCommand startNs past k path) (rest : List KernelAction) :
    OpenedAs root cwd rootCommand startNs (past ++ rest) k path := by
  obtain ⟨before, action, after, τ, out, τ', e, rfl, h⟩ := h
  exact ⟨before, action, after ++ rest, τ, out, τ', e, by simp, h⟩

/-- Every process of the kernel is in the tables, and its descriptors agree. -/
def KernelTracked (root : Pid) (cwd : Bytes) (rootCommand : Option Bytes) (startNs : UInt64)
    (isInherited : Int32 → Bool) (past : List KernelAction) (σ : ExecutionState) : Prop :=
  ∀ p table, kernelAfter root isInherited past p = some table →
    σ.processForThread p = p ∧ ∃ P, σ.processes p = some P ∧
      TableAgrees (OpenedAs root cwd rootCommand startNs past) table P

theorem kernelTracked_initial :
    KernelTracked root cwd rootCommand startNs isInherited []
      (initialState root cwd rootCommand startNs) := by
  intro p table htable
  by_cases hp : p = root
  · subst hp
    refine ⟨by simp [ExecutionState.processForThread, initialState_threadToProcess], _,
      by rw [initialState_processes, if_pos rfl], fun fd => ?_⟩
    simp only [kernelAfter, Kernel.initial, List.foldl_nil, Function.update_self,
      Option.some.injEq] at htable
    subst htable
    dsimp only
    split <;> trivial
  · simp [kernelAfter, Kernel.initial, Function.update_of_ne hp] at htable

theorem recordActions_snoc {action : KernelAction} {τ : ExecutionState} {out o : List Event}
    (hpast : recordActions root cwd rootCommand startNs past = .ok (σ, out))
    (hstep : σ.notify action.notification = .ok (τ, o)) :
    recordActions root cwd rootCommand startNs (past ++ [action]) = .ok (τ, out ++ o) := by
  rw [recordActions, List.map_append]
  exact (record_append_ok_iff ..).mpr ⟨σ, out, o, hpast,
    by rw [List.map_singleton, Transducer.run_singleton, hstep], rfl⟩

theorem KernelTracked.call {memory : TraceeMemory} {call : RawSyscall} {out o : List Event}
    {τ : ExecutionState} (h : KernelTracked root cwd rootCommand startNs isInherited past σ)
    (hpast : recordActions root cwd rootCommand startNs past = .ok (σ, out))
    (admits : KernelAdmits root isInherited past (.call memory call))
    (hstep : σ.notify (.syscall memory call) = .ok (τ, o)) :
    KernelTracked root cwd rootCommand startNs isInherited (past ++ [.call memory call]) τ := by
  obtain ⟨table, htable, hadmits⟩ := admits
  obtain ⟨hself, P, hP, hagrees⟩ := h call.tid table htable
  have hmono : ∀ k path, OpenedAs root cwd rootCommand startNs past k path →
      OpenedAs root cwd rootCommand startNs (past ++ [.call memory call]) k path :=
    fun k path hk => hk.append _
  have hopened : isOpenCall call.number = true → ∀ e ∈ (syscallExit memory P call).2,
      OpenedAs root cwd rootCommand startNs (past ++ [.call memory call]) past.length
        e.resource := by
    intro hopen e he
    obtain ⟨path, flags, metadata, heq⟩ := syscallExit_open memory P hopen
    have hout : o = [σ.attributed P (makeEvent P call .fileOpen path metadata)] := by
      cases notify_effect hstep with
      | syscallUnknown unknown =>
          rw [hself, hP] at unknown
          contradiction
      | syscall found =>
          rw [hself, hP] at found
          obtain rfl := Option.some.inj found
          rw [heq]
          rfl
    subst hout
    rw [heq] at he
    obtain rfl := Option.some.inj he
    exact ⟨past, .call memory call, [], σ, out, τ, _, rfl, rfl, hpast, hstep, rfl, rfl⟩
  cases notify_effect hstep with
  | syscallUnknown unknown =>
      rw [hself, hP] at unknown
      contradiction
  | @syscall _ _ Q found =>
      rw [hself, hP] at found
      obtain rfl := Option.some.inj found
      intro p table' htable'
      rw [kernelAfter_snoc, Kernel.step] at htable'
      by_cases hp : p = call.tid
      · subst hp
        rw [Function.update_self, htable] at htable'
        obtain rfl := Option.some.inj htable'
        exact ⟨hself, _, by rw [processes_setProcess, if_pos hself.symm],
          TableAgrees.call (fun fd => (hagrees fd).mono hmono) hadmits.decoded hopened⟩
      · rw [Function.update_of_ne hp] at htable'
        obtain ⟨hself', R, hR, hagrees'⟩ := h p table' htable'
        exact ⟨hself', R, by rw [processes_setProcess, if_neg (by rwa [hself]), hR],
          fun fd => (hagrees' fd).mono hmono⟩

theorem KernelTracked.fork {parent child : Pid} {isVfork : Bool} {flags t : UInt64}
    {o : List Event} {τ : ExecutionState}
    (h : KernelTracked root cwd rootCommand startNs isInherited past σ)
    (admits : KernelAdmits root isInherited past (.fork parent child isVfork flags t))
    (hstep : σ.notify (KernelAction.fork parent child isVfork flags t).notification = .ok (τ, o)) :
    KernelTracked root cwd rootCommand startNs isInherited
      (past ++ [.fork parent child isVfork flags t]) τ := by
  have hmono : ∀ k path, OpenedAs root cwd rootCommand startNs past k path →
      OpenedAs root cwd rootCommand startNs (past ++ [.fork parent child isVfork flags t]) k path :=
    fun k path hk => hk.append _
  obtain ⟨table, htable⟩ := Option.ne_none_iff_exists'.mp admits.1
  obtain ⟨hself, P, hP, hagrees⟩ := h parent table htable
  cases notify_effect hstep with
  | createdUnknown unknown =>
      rw [hself, hP] at unknown
      contradiction
  | createdThread _ thread => cases isVfork <;> contradiction
  | @createdProcess _ _ _ _ _ Q found =>
      rw [hself, hP] at found
      obtain rfl := Option.some.inj found
      intro p table' htable'
      rw [kernelAfter_snoc, Kernel.step] at htable'
      by_cases hp : p = child
      · subst hp
        rw [Function.update_self, htable] at htable'
        obtain rfl := Option.some.inj htable'
        exact ⟨by simp, { P with pid := p, parentPid := P.pid }, by simp,
          fun fd => (hagrees fd).mono hmono⟩
      · rw [Function.update_of_ne hp] at htable'
        obtain ⟨hself', R, hR, hagrees'⟩ := h p table' htable'
        exact ⟨by simp [hp, hself'], R, by simp [hp, hR], fun fd => (hagrees' fd).mono hmono⟩

/-- Kernel actions never make the recorder throw. -/
theorem notify_action (σ : ExecutionState) (action : KernelAction) :
    ∃ τ o, σ.notify action.notification = .ok (τ, o) := by
  cases action <;> exact ⟨_, _, rfl⟩

theorem kernelTracked_record
    (legal : Transducer.Legal (KernelAdmits root isInherited) actions) :
    ∃ σ es, recordActions root cwd rootCommand startNs actions = .ok (σ, es) ∧
      KernelTracked root cwd rootCommand startNs isInherited actions σ := by
  induction actions using List.reverseRecOn with
  | nil =>
      exact ⟨_, _, (record_ok_iff ..).mpr ⟨[], rfl, rfl⟩, kernelTracked_initial⟩
  | append_singleton past action ih =>
      obtain ⟨σ, out, hpast, htracked⟩ := ih legal.init
      obtain ⟨τ, o, hstep⟩ := notify_action σ action
      refine ⟨τ, _, recordActions_snoc hpast hstep, ?_⟩
      cases action with
      | call memory call => exact htracked.call hpast legal.last hstep
      | fork parent child isVfork flags t => exact htracked.fork legal.last hstep

/-- The tracked descriptor tables refine the kernel's over every run of its
calls and forks: a process of the kernel has its record, whose files and
sockets are exactly the descriptors of descriptions made in the run, the
files under the path recorded at their open; and a read or write of such a
file emits exactly one event, which names that path. -/
theorem descriptor_tables_refine
    (legal : Transducer.Legal (KernelAdmits root isInherited) actions) :
    (∃ σ es, recordActions root cwd rootCommand startNs actions = .ok (σ, es) ∧
      ∀ p table, kernelAfter root isInherited actions p = some table →
        ∃ P, σ.processes p = some P ∧
          TableRefines (OpenedAs root cwd rootCommand startNs actions) table P) ∧
    (∀ past memory call rest, actions = past ++ .call memory call :: rest →
      ∃ σ es τ o table, recordActions root cwd rootCommand startNs past = .ok (σ, es) ∧
        σ.notify (.syscall memory call) = .ok (τ, o) ∧
        kernelAfter root isInherited past call.tid = some table ∧
        TransferEvents (OpenedAs root cwd rootCommand startNs past) table call o) := by
  constructor
  · obtain ⟨σ, es, hrun, htracked⟩ := kernelTracked_record legal
    refine ⟨σ, es, hrun, fun p table htable => ?_⟩
    obtain ⟨-, P, hP, hagrees⟩ := htracked p table htable
    exact ⟨P, hP, hagrees.refines⟩
  · rintro past memory call rest rfl
    obtain ⟨σ, es, hrun, htracked⟩ := kernelTracked_record legal.of_append
    obtain ⟨table, htable, hadmits⟩ := legal past _ rest rfl
    obtain ⟨hself, P, hP, hagrees⟩ := htracked call.tid table htable
    obtain ⟨τ, o, hstep⟩ : ∃ τ o, σ.notify (.syscall memory call) = .ok (τ, o) := ⟨_, _, rfl⟩
    refine ⟨σ, es, τ, o, table, hrun, hstep, htable, ?_⟩
    cases notify_effect hstep with
    | syscallUnknown unknown =>
        rw [hself, hP] at unknown
        contradiction
    | syscall found =>
        rw [hself, hP] at found
        obtain rfl := Option.some.inj found
        exact hagrees.transferEvents hadmits.decoded

end runs

/-- A finished call of a process with its first two arguments. -/
def sampleFinished (tid : Pid) (number : Int64) (first second : UInt64) (result : Int64) :
    KernelAction :=
  .call sampleMemory
    { pid := tid, tid, number, args := #v[first, second, 0, 0, 0, 0], result, timestampNs := 1 }

/-- The root opens a file, copies the descriptor over standard output, and a
child of it writes there. -/
def sampleActions : List KernelAction :=
  [sampleFinished 7 nrOpen 0 0 3, sampleFinished 7 nrDup2 3 1 1, .fork 7 8 false 0 2,
    sampleFinished 8 nrWrite 1 0 4]

theorem sampleActions_legal :
    Transducer.Legal (KernelAdmits 7 fun fd => fd < 3) sampleActions := by
  have hopen := (Transducer.legal_nil (KernelAdmits 7 fun fd => fd < 3)).snoc
    (i := sampleFinished 7 nrOpen 0 0 3)
    ⟨_, rfl, by decide, by decide, by decide, by decide, by decide⟩
  have hdup := hopen.snoc (i := sampleFinished 7 nrDup2 3 1 1)
    ⟨_, rfl, by decide, by decide, by decide, by decide, by decide⟩
  have hfork := hdup.snoc (i := KernelAction.fork 7 8 false 0 2) ⟨nofun, rfl⟩
  exact hfork.snoc (i := sampleFinished 8 nrWrite 1 0 4)
    ⟨_, rfl, by decide, by decide, by decide, by decide, by decide⟩

theorem descriptor_tables_refine_sample :
    ∃ σ es, recordActions 7 (lit "/") none 0 sampleActions = .ok (σ, es) ∧
      ∀ p table, kernelAfter 7 (fun fd => fd < 3) sampleActions p = some table →
        ∃ P, σ.processes p = some P ∧
          TableRefines (OpenedAs 7 (lit "/") none 0 sampleActions) table P :=
  (descriptor_tables_refine sampleActions_legal).1

end Whyrun
