import Whyrun.Kernel.CloseOnExec
import Whyrun.Kernel.DescriptorTracking

/-!
The descriptor tables of the execution state over exec. An exec leaves the
tracked table as it was, so a process holds what its traced calls have left
behind: every descriptor that the kernel keeps, and beside these the ones
that it lost at an exec or to an untraced call.
-/

namespace Whyrun

open ByteText ExecutionState

variable {opened : ℕ → Bytes → Prop} {files : Files} {P : ProcessState} {call : RawSyscall}

/-! ### One change of the kernel's table -/

theorem descriptions_update (table : OpenTable) (fd : Int32) (entry : Option OpenFd) :
    OpenTable.descriptions (Function.update table fd entry) =
      Function.update table.descriptions fd (entry.map OpenFd.description) := by
  funext k
  by_cases hk : k = fd
  · subst hk
    simp [OpenTable.descriptions]
  · simp [OpenTable.descriptions, hk]

theorem descriptions_after (k : ℕ) (table : OpenTable) (call : RawSyscall) (closeOnExec : Bool) :
    (table.after k call closeOnExec).descriptions = table.descriptions.after k call := by
  unfold OpenTable.after FdTable.after
  split
  · rfl
  split
  · exact descriptions_update _ _ _
  split
  · exact descriptions_update _ _ _
  split
  · split
    · rename_i hself
      -- a descriptor copied onto itself
      rw [← hself, Function.update_eq_self]
    · rw [descriptions_update, Option.map_map]
      rfl
  split
  · exact descriptions_update _ _ _
  · rfl

theorem update_or (lost table : FdTable) (fd : Int32) (d d' : Option Description) (k : Int32) :
    (Function.update lost fd d k).or (Function.update table fd d' k) =
      Function.update (fun k => (lost k).or (table k)) fd (d.or d') k := by
  by_cases hk : k = fd
  · subst hk
    simp
  · simp [hk]

/-- What is held follows the traced calls. -/
theorem held_call (k : ℕ) (files : Files) (call : RawSyscall) (closeOnExec : Bool) :
    (files.call k call closeOnExec).held = files.held.after k call := by
  funext fd
  simp only [Files.held, Files.call, descriptions_after]
  unfold Files.settle FdTable.after
  split
  · rfl
  split
  · rw [update_or]
    rfl
  split
  · rw [update_or]
    rfl
  split
  · rw [update_or]
    rfl
  split
  · rw [update_or]
    rfl
  · rfl

/-- A change without a traced call leaves the tracked table right for what is
held. -/
theorem TableAgrees.becomes {table : OpenTable} (h : TableAgrees opened files.held P)
    (hnew : ∀ fd, table.descriptions fd ≠ files.table.descriptions fd →
      table.descriptions fd = none ∨ table.descriptions fd = some .inherited) :
    TableAgrees opened (files.becomes table).held P := by
  intro fd
  have hfd := h fd
  by_cases hsame : table.descriptions fd = files.table.descriptions fd
  · have hheld : (files.becomes table).held fd = files.held fd := by
      simp only [Files.held, Files.becomes]
      rw [if_pos hsame, hsame]
    rwa [hheld]
  · have hheld : (files.becomes table).held fd = (files.held fd).or (table.descriptions fd) := by
      simp only [Files.held, Files.becomes]
      rw [if_neg hsame]
    rw [hheld]
    cases hbefore : files.held fd with
    | some d =>
        rw [hbefore] at hfd
        rwa [Option.some_or]
    | none =>
        -- the number was free: whatever takes it now is not traced
        rw [hbefore] at hfd
        rw [Option.none_or]
        cases hentry : P.fdTable fd with
        | some r => simp [hentry, EntryAgrees] at hfd
        | none => rcases hnew fd hsame with hnone | hinherited <;> simp [*, EntryAgrees]

theorem descriptions_exec {table : OpenTable} {fd : Int32}
    (h : table.exec.descriptions fd ≠ table.descriptions fd) :
    table.exec.descriptions fd = none ∧ ∃ e, table fd = some e ∧ e.closeOnExec = true := by
  cases hentry : table fd with
  | none => simp [OpenTable.descriptions, OpenTable.exec, hentry] at h
  | some e =>
      cases hflag : e.closeOnExec with
      | false => simp [OpenTable.descriptions, OpenTable.exec, hentry, hflag] at h
      | true =>
          exact ⟨by simp [OpenTable.descriptions, OpenTable.exec, hentry, hflag], e, rfl, hflag⟩

theorem EntryAgrees.rename {d : Option Description} {r : Resource} {name : Bytes}
    (h : EntryAgrees opened d (some r)) (hsocket : r.type = .socket) :
    EntryAgrees opened d (some { r with name }) := by
  match d with
  | some (.socket _) => exact hsocket
  | some (.opened _) =>
      rw [h.1] at hsocket
      contradiction
  | some .inherited | none => exact h.elim

theorem TableAgrees.congr {table : FdTable} {Q : ProcessState} (h : TableAgrees opened table P)
    (hQ : Q.fdTable = P.fdTable) : TableAgrees opened table Q := by
  intro fd
  rw [hQ]
  exact h fd

theorem TableAgrees.connect {table : FdTable} (memory : TraceeMemory) (call : RawSyscall)
    (h : TableAgrees opened table P) :
    TableAgrees opened table (connectExit memory P call).1 := by
  unfold connectExit
  dsimp only
  split
  · exact h
  · rename_i endpoint _
    split
    · exact h
    · rename_i resource hentry
      split
      · rename_i hsocket
        have hfd := h (asInt (arg0 call.args))
        rw [hentry] at hfd
        have hrenamed : EntryAgrees opened (table (asInt (arg0 call.args)))
            (some { resource with name := endpoint.resource }) := hfd.rename hsocket
        rw [← Function.update_eq_self (asInt (arg0 call.args)) table]
        exact h.setFd hrenamed
      · exact h

/-- Calls that are not traced change no entry but the name of a socket. -/
theorem TableAgrees.untraced {table : FdTable} (memory : TraceeMemory)
    (h : TableAgrees opened table P) (huntraced : isTracedCall call.number = false) :
    TableAgrees opened table (syscallExit memory P call).1 := by
  simp only [isTracedCall, isOpenCall, isDupCall, isTransferCall, Bool.or_eq_false_iff,
    decide_eq_false_iff_not] at huntraced
  obtain ⟨⟨⟨⟨⟨⟨hopen, hopenat⟩, hopenat2⟩, hsocket⟩, ⟨hdup, hdup2⟩, hdup3⟩, hclose⟩, hread,
    hwrite⟩ := huntraced
  rw [syscallExit, if_neg hopen, if_neg (not_or.mpr ⟨hopenat, hopenat2⟩),
    if_neg (not_or.mpr ⟨hread, hwrite⟩), if_neg hclose,
    if_neg (not_or.mpr ⟨hdup, not_or.mpr ⟨hdup2, hdup3⟩⟩), if_neg hsocket]
  split
  · exact h.connect memory call
  split
  · -- the working directory is no part of the table
    refine h.congr ?_
    unfold chdirExit
    dsimp only
    split <;> rfl
  split
  · refine h.congr ?_
    unfold fchdirExit
    split
    · rfl
    · split <;> rfl
  · exact h

/-! ### Runs -/

def ExecAction.notification : ExecAction → Notification
  | .traced memory finished _ => .syscall memory finished
  | .untraced memory finished _ => .syscall memory finished
  | .thread parentTid childTid cloneFlags t =>
      .created parentTid childTid ptraceEventClone cloneFlags t
  | .fork parentTid child isVfork cloneFlags t =>
      .created parentTid child (if isVfork then ptraceEventVfork else ptraceEventFork) cloneFlags t
  | .exec tid links t => .exec tid links t
  | .exited tid exitCode termSignal t => .exited tid exitCode termSignal t

/-- A run of the recorder on its root. -/
structure Recording where
  root : Pid
  cwd : Bytes
  rootCommand : Option Bytes
  startNs : UInt64

/-- The recording of some actions. -/
def Recording.of (r : Recording) (actions : List ExecAction) :
    Except Failure (ExecutionState × List Event) :=
  record r.root r.cwd r.rootCommand r.startNs (actions.map ExecAction.notification)

/-- Call `k` of the run was recorded as an open of the path. -/
def Recording.Opened (r : Recording) (actions : List ExecAction) (k : ℕ) (path : Bytes) : Prop :=
  ∃ before action after τ out τ' e, actions = before ++ action :: after ∧ before.length = k ∧
    r.of before = .ok (τ, out) ∧ τ.notify action.notification = .ok (τ', [e]) ∧
    e.type = .fileOpen ∧ e.resource = path

variable {r : Recording} {inherited : Int32 → Option Bool} {past actions : List ExecAction}
  {action : ExecAction} {s : Processes} {σ τ : ExecutionState} {es : List Event}

theorem Recording.Opened.append {k : ℕ} {path : Bytes} (h : r.Opened past k path)
    (rest : List ExecAction) : r.Opened (past ++ rest) k path := by
  obtain ⟨before, action, after, τ, out, τ', e, rfl, h⟩ := h
  exact ⟨before, action, after ++ rest, τ, out, τ', e, by simp, h⟩

/-- The threads of the kernel are known to the tables, and the tracked entries
of a process are those that it holds. -/
structure ExecTracked (opened : ℕ → Bytes → Prop) (s : Processes) (σ : ExecutionState) :
    Prop where
  thread : ∀ tid p, s.owner tid = some p → σ.processForThread tid = p
  files : ∀ p files, s.files p = some files →
    ∃ P, σ.processes p = some P ∧ TableAgrees opened files.held P

theorem ExecTracked.mono {opened' : ℕ → Bytes → Prop} (h : ExecTracked opened s σ)
    (hle : ∀ k path, opened k path → opened' k path) : ExecTracked opened' s σ := by
  refine ⟨h.thread, fun p files hfiles => ?_⟩
  obtain ⟨P, hP, hagrees⟩ := h.files p files hfiles
  exact ⟨P, hP, fun fd => (hagrees fd).mono hle⟩

/-- The record of a thread's process. -/
theorem ExecTracked.find (h : ExecTracked opened s σ) {tid : Pid}
    (hfiles : s.filesOf tid = some files) :
    ∃ p P, s.owner tid = some p ∧ s.files p = some files ∧ σ.processForThread tid = p ∧
      σ.processes p = some P ∧ TableAgrees opened files.held P := by
  obtain ⟨p, hp, hfiles'⟩ := Option.bind_eq_some_iff.mp hfiles
  obtain ⟨P, hP, hagrees⟩ := h.files p files hfiles'
  exact ⟨p, P, hp, hfiles', h.thread tid p hp, hP, hagrees⟩

/-- A change of one process's table on both sides. -/
theorem ExecTracked.change {p : Pid} {Q : ProcessState} {f : Files → Files} {tid : Pid}
    (h : ExecTracked opened s σ) (hp : s.owner tid = some p) (hfiles : s.files p = some files)
    (hQ : TableAgrees opened (f files).held Q) :
    ExecTracked opened (s.change tid f) (σ.setProcess p Q) := by
  have hchange : s.change tid f =
      { s with files := Function.update s.files p (some (f files)) } := by
    simp only [Processes.change, hp, hfiles, Option.map_some]
  rw [hchange]
  refine ⟨fun t q hq => by simpa using h.thread t q hq, fun q files' hfiles' => ?_⟩
  dsimp only at hfiles'
  by_cases hqp : q = p
  · subst hqp
    rw [Function.update_self, Option.some.injEq] at hfiles'
    subst hfiles'
    exact ⟨Q, by simp, hQ⟩
  · rw [Function.update_of_ne hqp] at hfiles'
    obtain ⟨R, hR, hagrees⟩ := h.files q files' hfiles'
    exact ⟨R, by simpa [hqp] using hR, hagrees⟩

/-- The effect of a finished call of a thread that is known. -/
theorem ExecTracked.syscall_effect {p : Pid} {memory : TraceeMemory} {o : List Event}
    (hp : σ.processForThread call.tid = p) (hP : σ.processes p = some P)
    (hstep : σ.notify (.syscall memory call) = .ok (τ, o)) :
    τ = σ.setProcess p (syscallExit memory P call).1 ∧
      o = (syscallExit memory P call).2.toList.map (σ.attributed P) := by
  cases notify_effect hstep with
  | syscallUnknown unknown =>
      rw [hp, hP] at unknown
      contradiction
  | syscall found =>
      rw [hp, hP] at found
      obtain rfl := Option.some.inj found
      rw [hp]
      exact ⟨rfl, rfl⟩

theorem ExecTracked.traced {memory : TraceeMemory} {closeOnExec : Bool} {out o : List Event}
    (h : ExecTracked (r.Opened past) s σ) (hpast : r.of past = .ok (σ, out))
    (hfiles : s.filesOf call.tid = some files) (hdecoded : DecodedCall call)
    (hstep : σ.notify (.syscall memory call) = .ok (τ, o)) :
    ExecTracked (r.Opened (past ++ [.traced memory call closeOnExec]))
      (s.step past.length (.traced memory call closeOnExec)) τ := by
  obtain ⟨p, P, howner, hfiles', hself, hP, hagrees⟩ := h.find hfiles
  obtain ⟨hτ, rfl⟩ := ExecTracked.syscall_effect hself hP hstep
  have hmono := fun k path (hk : r.Opened past k path) =>
    hk.append [.traced memory call closeOnExec]
  have hopened : isOpenCall call.number = true → ∀ e ∈ (syscallExit memory P call).2,
      r.Opened (past ++ [.traced memory call closeOnExec]) past.length e.resource := by
    intro hopen e he
    obtain ⟨path, flags, metadata, heq⟩ := syscallExit_open memory P hopen
    rw [heq] at he
    obtain rfl := Option.some.inj he
    rw [heq] at hstep
    exact ⟨past, .traced memory call closeOnExec, [], σ, out, τ,
      σ.attributed P (makeEvent P call .fileOpen path metadata), rfl, rfl, hpast, hstep, rfl, rfl⟩
  rw [hτ]
  refine (h.mono hmono).change howner hfiles' ?_
  rw [held_call]
  exact TableAgrees.call (fun fd => (hagrees fd).mono hmono) hdecoded hopened

theorem ExecTracked.untraced {memory : TraceeMemory} {table : OpenTable} {o : List Event}
    (h : ExecTracked opened s σ) (hfiles : s.filesOf call.tid = some files)
    (huntraced : isTracedCall call.number = false)
    (hnew : ∀ fd, table.descriptions fd ≠ files.table.descriptions fd →
      table.descriptions fd = none ∨ table.descriptions fd = some .inherited)
    (hstep : σ.notify (.syscall memory call) = .ok (τ, o)) :
    ExecTracked opened (s.change call.tid fun files => files.becomes table) τ := by
  obtain ⟨p, P, howner, hfiles', hself, hP, hagrees⟩ := h.find hfiles
  obtain ⟨rfl, -⟩ := ExecTracked.syscall_effect hself hP hstep
  exact h.change howner hfiles' ((hagrees.untraced memory huntraced).becomes hnew)

theorem ExecTracked.exec {tid : Pid} {links : ProcLinks} {t : UInt64} {o : List Event}
    (h : ExecTracked opened s σ) (hfiles : s.filesOf tid = some files)
    (hstep : σ.notify (.exec tid links t) = .ok (τ, o)) :
    ExecTracked opened (s.change tid fun files => files.becomes files.table.exec) τ := by
  obtain ⟨p, P, howner, hfiles', hself, hP, hagrees⟩ := h.find hfiles
  cases notify_effect hstep with
  | execDiscovered unknown =>
      rw [hself, hP] at unknown
      contradiction
  | exec found =>
      rw [hself, hP] at found
      obtain rfl := Option.some.inj found
      rw [hself]
      refine h.change howner hfiles' (TableAgrees.becomes (hagrees.congr rfl) fun fd hfd => ?_)
      exact .inl (descriptions_exec hfd).1

theorem ExecTracked.created_thread {parentTid childTid : Pid} {flags t : UInt64}
    {o : List Event} (h : ExecTracked opened s σ) (hkeyed : σ.Keyed)
    (hflags : flags &&& cloneThread ≠ 0) (hparent : s.filesOf parentTid = some files)
    (hstep : σ.notify (.created parentTid childTid ptraceEventClone flags t) = .ok (τ, o)) :
    ExecTracked opened
      { s with owner := Function.update s.owner childTid (s.owner parentTid) } τ := by
  obtain ⟨p, P, howner, -, hself, hP, -⟩ := h.find hparent
  have hthread : isThreadCreation ptraceEventClone flags = true := by
    simpa [isThreadCreation] using hflags
  cases notify_effect hstep with
  | createdUnknown unknown =>
      rw [hself, hP] at unknown
      contradiction
  | createdProcess found process =>
      rw [hthread] at process
      contradiction
  | createdThread found thread =>
      rw [hself, hP] at found
      obtain rfl := Option.some.inj found
      refine ⟨fun t' q hq => ?_, fun q files' hfiles' => ?_⟩
      · dsimp only at hq
        by_cases ht : t' = childTid
        · subst ht
          rw [Function.update_self, howner, Option.some.injEq] at hq
          rw [processForThread_setThread, if_pos rfl, hkeyed p P hP, hq]
          rfl
        · rw [Function.update_of_ne ht] at hq
          rw [processForThread_setThread, if_neg ht]
          exact h.thread t' q hq
      · simpa using h.files q files' hfiles'

theorem ExecTracked.forked {parentTid child : Pid} {event : UInt32} {flags t : UInt64}
    {o : List Event} (h : ExecTracked opened s σ) (hparent : s.filesOf parentTid = some files)
    (hprocess : isThreadCreation event flags = false)
    (hstep : σ.notify (.created parentTid child event flags t) = .ok (τ, o)) :
    ExecTracked opened
      { owner := Function.update s.owner child (some child)
        files := Function.update s.files child (some files) } τ := by
  obtain ⟨p, P, -, -, hself, hP, hagrees⟩ := h.find hparent
  cases notify_effect hstep with
  | createdUnknown unknown =>
      rw [hself, hP] at unknown
      contradiction
  | createdThread found thread =>
      rw [hprocess] at thread
      contradiction
  | createdProcess found process =>
      rw [hself, hP] at found
      obtain rfl := Option.some.inj found
      refine ⟨fun t' q hq => ?_, fun q files' hfiles' => ?_⟩
      · dsimp only at hq
        rw [processForThread_noteFirstProcess, processForThread_setThread]
        by_cases ht : t' = child
        · subst ht
          rw [Function.update_self, Option.some.injEq] at hq
          rw [if_pos rfl, hq]
          rfl
        · rw [Function.update_of_ne ht] at hq
          rw [if_neg ht, processForThread_setProcess]
          exact h.thread t' q hq
      · dsimp only at hfiles'
        rw [processes_noteFirstProcess, processes_setThread, processes_setProcess]
        by_cases hq : q = child
        · subst hq
          rw [Function.update_self, Option.some.injEq] at hfiles'
          subst hfiles'
          exact ⟨_, if_pos rfl, hagrees.congr rfl⟩
        · rw [Function.update_of_ne hq] at hfiles'
          rw [if_neg hq]
          exact h.files q files' hfiles'

/-- An exit touches nothing that belongs to another tid. -/
theorem exited_frame {tid : Pid} {code signal : Int32} {t : UInt64} {o : List Event}
    (hstep : σ.notify (.exited tid code signal t) = .ok (τ, o)) {q : Pid} (hq : q ≠ tid) :
    τ.processForThread q = σ.processForThread q ∧ τ.processes q = σ.processes q := by
  have hclear : ∀ ρ : ExecutionState, ρ.threadToProcess = σ.threadToProcess →
      (ρ.setThread tid none).processForThread q = σ.processForThread q := by
    intro ρ hρ
    rw [processForThread_setThread, if_neg hq, ExecutionState.processForThread, hρ]
    rfl
  cases notify_effect hstep with
  | exitedThread thread => exact ⟨hclear _ rfl, rfl⟩
  | exitedUnknown leader unknown => exact ⟨rfl, rfl⟩
  | exited leader found notRoot => exact ⟨hclear _ rfl, by simp [hq]⟩
  | exitedRunning leader found root started held => exact ⟨hclear _ rfl, by simp [setProcess, hq]⟩
  | exitedIdle leader found root idle => exact ⟨hclear _ rfl, by simp [setProcess, hq]⟩

theorem ExecTracked.exited {tid : Pid} {code signal : Int32} {t : UInt64} {o : List Event}
    (h : ExecTracked opened s σ) (howner : s.owner tid ≠ none) (k : ℕ)
    (hstep : σ.notify (.exited tid code signal t) = .ok (τ, o)) :
    ExecTracked opened (s.step k (.exited tid code signal t)) τ := by
  obtain ⟨p, hp⟩ := Option.ne_none_iff_exists'.mp howner
  have hthreads : ∀ t' q, Function.update s.owner tid none t' = some q →
      τ.processForThread t' = q := by
    intro t' q hq
    by_cases ht : t' = tid
    · simp [ht] at hq
    · rw [Function.update_of_ne ht] at hq
      rw [(exited_frame hstep ht).1]
      exact h.thread t' q hq
  by_cases hleader : p = tid
  · subst hleader
    have hs : s.step k (.exited p code signal t) =
        { owner := Function.update s.owner p none, files := Function.update s.files p none } := by
      simp [Processes.step, hp]
    rw [hs]
    refine ⟨hthreads, fun q files' hfiles' => ?_⟩
    by_cases hq : q = p
    · simp [hq] at hfiles'
    · simp only [Function.update_of_ne hq] at hfiles'
      rw [(exited_frame hstep hq).2]
      exact h.files q files' hfiles'
  · have hs : s.step k (.exited tid code signal t) =
        { s with owner := Function.update s.owner tid none } := by
      simp [Processes.step, hp, hleader]
    rw [hs]
    refine ⟨hthreads, ?_⟩
    have hthread : σ.processForThread tid ≠ tid := by
      rw [h.thread tid p hp]
      exact hleader
    cases notify_effect hstep with
    | exitedThread thread => exact h.files
    | exitedUnknown leader => exact absurd leader hthread
    | exited leader => exact absurd leader hthread
    | exitedRunning leader => exact absurd leader hthread
    | exitedIdle leader => exact absurd leader hthread

/-- Each action that the kernel admits keeps the tables tracked. -/
theorem ExecTracked.step {out o : List Event}
    (h : ExecTracked (r.Opened past) (processTablesAfter r.root inherited past) σ)
    (hkeyed : σ.Keyed) (hpast : r.of past = .ok (σ, out))
    (hadmits : ExecAdmits r.root inherited past action)
    (hstep : σ.notify action.notification = .ok (τ, o)) :
    ExecTracked (r.Opened (past ++ [action]))
      (processTablesAfter r.root inherited (past ++ [action])) τ := by
  rw [processTablesAfter_snoc]
  have h' := h.mono fun k path hk => hk.append [action]
  cases action with
  | traced memory call closeOnExec =>
      obtain ⟨files, hfiles, hcall, -⟩ := hadmits
      exact h.traced hpast hfiles hcall.decoded hstep
  | untraced memory call table =>
      obtain ⟨huntraced, files, hfiles, hnew⟩ := hadmits
      exact h'.untraced hfiles huntraced hnew hstep
  | thread parentTid childTid flags t =>
      obtain ⟨hflags, hparent, -, -⟩ := hadmits
      obtain ⟨files, hfiles⟩ := Option.ne_none_iff_exists'.mp hparent
      exact h'.created_thread hkeyed hflags hfiles hstep
  | fork parentTid child isVfork flags t =>
      obtain ⟨hparent, -, -⟩ := hadmits
      obtain ⟨files, hfiles⟩ := Option.ne_none_iff_exists'.mp hparent
      have hprocess : isThreadCreation (if isVfork then ptraceEventVfork else ptraceEventFork)
          flags = false := by
        cases isVfork <;> rfl
      rw [Processes.step, hfiles]
      exact h'.forked hfiles hprocess hstep
  | exec tid links t =>
      obtain ⟨files, hfiles⟩ := Option.ne_none_iff_exists'.mp hadmits
      exact h'.exec hfiles hstep
  | exited tid code signal t => exact h'.exited hadmits.1 past.length hstep

theorem TransferEvents.congr {table table' : FdTable} (h : TransferEvents opened table call es)
    (hsource : table call.source = table' call.source) : TransferEvents opened table' call es := by
  constructor
  · intro htransfer k hk
    exact h.one htransfer k (hsource.trans hk)
  · intro e he htype
    obtain ⟨htransfer, k, hk, hopened⟩ := h.named e he htype
    exact ⟨htransfer, k, hsource.symm.trans hk, hopened⟩

end Whyrun
