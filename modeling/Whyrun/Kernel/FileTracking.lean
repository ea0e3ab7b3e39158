import Whyrun.Kernel.DescriptorTracking
import Whyrun.Kernel.Files
import Whyrun.Naming.ConnectEvents

/-!
The execution state refines the reference kernel for files: the tracked
working directories and descriptors carry the paths of the kernel's nodes, and
the recorded opens, reads and writes are those of the kernel, in order, each
under the path of its node.
-/

namespace Whyrun

open ByteText LexicalPath DirectoryTree ExecutionState

variable {ν : Type} {nodes : Nodes ν}

/-! ### What is compared -/

/-- An entry of the kernel and the tracked entry. -/
def FileAgrees (nodes : Nodes ν) : Option (OpenFile ν) → Option Resource → Prop
  | some (.node node directory), r => r = some ⟨.file, nodes.path node, directory⟩
  | some .socket, r => ∃ resource, r = some resource ∧ resource.type = .socket
  | some .inherited, r | none, r => r = none

/-- A process of the kernel and its record. -/
structure TaskAgrees (nodes : Nodes ν) (p : Pid) (task : FileTask ν) (P : ProcessState) :
    Prop where
  pid : P.pid = p
  cwd : P.cwd = nodes.path task.cwd
  fds : ∀ fd, FileAgrees nodes (task.fds fd) (P.fdTable fd)

/-- A recorded access: a read or a write, or an open that succeeded. -/
def Event.access (e : Event) : Option (Pid × EventType × Bytes × Int64) :=
  if e.type = .fileRead ∨ e.type = .fileWrite ∨ (e.type = .fileOpen ∧ 0 ≤ e.result) then
    some (e.pid, e.type, e.resource, e.result)
  else none

/-- An access of the kernel as it is to be recorded. -/
def Access.shown (nodes : Nodes ν) (a : Access ν) : Pid × EventType × Bytes × Int64 :=
  (a.pid, a.type, nodes.path a.node, a.result)

/-- A call leaves the process in agreement and emits the accesses of the call. -/
structure CallAgrees (nodes : Nodes ν) (p : Pid) (task : FileTask ν) (log : List (Access ν))
    (r : ProcessState × Option Event) : Prop where
  process : TaskAgrees nodes p task r.1
  events : r.2.toList.filterMap Event.access = log.map (Access.shown nodes)

section calls

variable {p : Pid} {task : FileTask ν} {P : ProcessState} {tree : Tree nodes} {path : Bytes}
  {c : FinishedCall}

theorem TaskAgrees.setFd (h : TaskAgrees nodes p task P) {fd : Int32}
    {file : Option (OpenFile ν)} {r : Option Resource} (hentry : FileAgrees nodes file r) :
    TaskAgrees nodes p (task.setFd fd file) (P.setFd fd r) := by
  refine ⟨h.pid, h.cwd, fun fd' => ?_⟩
  by_cases hfd : fd' = fd
  · subst hfd
    simpa [ProcessState.setFd, FileTask.setFd] using hentry
  · simpa [ProcessState.setFd, FileTask.setFd, Function.update_of_ne hfd] using h.fds fd'

theorem TaskAgrees.node (h : TaskAgrees nodes p task P) {fd : Int32} {node : ν} {directory : Bool}
    (hfd : task.fds fd = some (.node node directory)) :
    P.fdTable fd = some ⟨.file, nodes.path node, directory⟩ := by
  have hentry := h.fds fd
  rw [hfd] at hentry
  exact hentry

/-- A call that emits nothing and is none that the kernel logs. -/
theorem TaskAgrees.silent (h : TaskAgrees nodes p task P) :
    CallAgrees nodes p task [] (P, none) := ⟨h, rfl⟩

/-! ### Paths -/

/-- The recorder gives a path that resolves the name of its node. -/
theorem TaskAgrees.resolvePath_target (h : TaskAgrees nodes p task P) {node : ν}
    (hpath : path ≠ []) (htarget : task.target tree path c.call = some node)
    (hdirectory : isAbsolute path = false → c.call.directory ≠ atFdcwd →
      ∃ node, task.fds c.call.directory = some (.node node true)) :
    resolvePath P c.call.directory path = nodes.path node := by
  cases habsolute : isAbsolute path with
  | true =>
      rw [resolvePath_of_isAbsolute habsolute, normalizePath_of_isAbsolute habsolute,
        Tree.path_resolve_absolute habsolute htarget]
  | false =>
      obtain ⟨start, hstart, hnode⟩ := Tree.path_resolve_relative habsolute htarget
      have hjoin : normalizePath (join (nodes.path start) path) = nodes.path node := by
        rw [hnode]
        exact normalizePath_of_isAbsolute (isAbsolute_join (isAbsolute_rootedText _) path)
      rw [FileTask.base] at hstart
      by_cases hcwd : c.call.directory = atFdcwd
      · rw [if_pos hcwd] at hstart
        rw [hcwd, resolvePath_atFdcwd hpath habsolute, h.cwd, Option.some.inj hstart, hjoin]
      · obtain ⟨base, hbase⟩ := hdirectory habsolute hcwd
        rw [if_neg hcwd, hbase] at hstart
        rw [resolvePath_directory hpath habsolute hcwd (h.node hbase), Option.some.inj hstart,
          hjoin]

theorem opens_of_isOpenCall (hopen : isOpenCall c.call.number = true)
    (hread : c.pathText = path) : c.Opens c.call.directory path := by
  simp only [isOpenCall, Bool.or_eq_true, decide_eq_true_eq, or_assoc] at hopen
  rcases hopen with hnumber | hnumber
  · have hother : isOpenatCall c.call.number = false := by rw [hnumber]; decide
    refine .open hnumber ?_ ?_
    · rw [RawSyscall.directory, hother]
      rfl
    · rwa [FinishedCall.pathText, hother] at hread
  · have hopenat : isOpenatCall c.call.number = true := by
      simpa [isOpenatCall] using hnumber
    refine .openat hnumber ?_ ?_
    · rw [RawSyscall.directory, hopenat, if_pos rfl]
    · rwa [FinishedCall.pathText, hopenat] at hread

/-! ### One call -/

theorem TaskAgrees.opens (h : TaskAgrees nodes p task P) (htid : c.call.tid = p)
    (hopen : isOpenCall c.call.number = true) (admits : FileCallAdmits task tree path c) :
    CallAgrees nodes p (task.after tree path c) (task.accesses tree path c) (c.exit P) := by
  by_cases hfailed : c.call.result < 0
  · have hnonneg : ¬ 0 ≤ c.call.result := Int64.not_le.mpr hfailed
    obtain ⟨name, flags, metadata, hexit⟩ := syscallExit_open c.memory P hopen
    rw [FileTask.after, if_pos hfailed, FileTask.accesses, if_pos hopen, if_pos hfailed,
      FinishedCall.exit, hexit, installFile, if_neg hnonneg]
    refine ⟨h, ?_⟩
    simp [Event.access, makeEvent, hnonneg]
  · have hresult : 0 ≤ c.call.result := Int64.not_lt.mp hfailed
    have hpath : isPathCall c.call.number = true := by simp [isPathCall, hopen]
    obtain ⟨hne, hresolves⟩ := admits.resolves hresult hpath
    obtain ⟨node, hnode⟩ := Option.ne_none_iff_exists'.mp hresolves
    have hname : resolvePath P c.call.directory path = nodes.path node :=
      h.resolvePath_target hne hnode (admits.directory hresult hpath)
    obtain ⟨flags, metadata, hflags, hexit⟩ := FinishedCall.exit_opens
      (opens_of_isOpenCall hopen (admits.readable hresult hpath)) hne P
    rw [FileTask.after, if_neg hfailed, if_pos hopen, FileTask.accesses, if_pos hopen,
      if_neg hfailed, hnode, hexit, hname, installFile, if_pos hresult, hflags]
    refine ⟨h.setFd rfl, ?_⟩
    simp [Event.access, makeEvent, hresult, Access.shown, h.pid, htid]

theorem TaskAgrees.transfers (h : TaskAgrees nodes p task P) (htid : c.call.tid = p)
    (htransfer : isTransferCall c.call.number = true) :
    CallAgrees nodes p (task.after tree path c) (task.accesses tree path c) (c.exit P) := by
  have hkinds : isOpenCall c.call.number = false ∧ c.call.number ≠ nrSocket ∧
      isDupCall c.call.number = false ∧ c.call.number ≠ nrClose ∧ c.call.number ≠ nrChdir ∧
      c.call.number ≠ nrFchdir := by
    simp only [isTransferCall, Bool.or_eq_true, decide_eq_true_eq] at htransfer
    rcases htransfer with h | h <;> rw [h] <;> decide
  obtain ⟨hopen, hsocket, hdup, hclose, hchdir, hfchdir⟩ := hkinds
  have hafter : task.after tree path c = task := by
    simp [FileTask.after, hopen, hsocket, hdup, hclose, hchdir, hfchdir]
  have hexit : c.exit P = transferExit P c.call := syscallExit_transfer htransfer
  rw [hafter, hexit, FileTask.accesses, hopen, if_neg Bool.false_ne_true, if_pos htransfer,
    transferExit]
  dsimp only
  have hentry := h.fds c.call.source
  cases hkernel : task.fds c.call.source with
  | none =>
      rw [hkernel] at hentry
      have hfd : P.fdTable (asInt (arg0 c.call.args)) = none := hentry
      simp only [hfd]
      exact h.silent
  | some file =>
      rw [hkernel] at hentry
      cases file with
      | inherited =>
          have hfd : P.fdTable (asInt (arg0 c.call.args)) = none := hentry
          simp only [hfd]
          exact h.silent
      | socket =>
          obtain ⟨resource, hfd, htype⟩ := hentry
          rw [RawSyscall.source] at hfd
          simp only [hfd, htype]
          exact h.silent
      | node node directory =>
          have hfd : P.fdTable (asInt (arg0 c.call.args)) =
              some ⟨.file, nodes.path node, directory⟩ := h.node hkernel
          simp only [hfd, ne_eq, not_true_eq_false, if_false]
          refine ⟨h, ?_⟩
          by_cases hread : c.call.number = nrRead <;>
            simp [Event.access, makeEvent, hread, Access.shown, h.pid, htid]

/-- A call that is logged only where a path or a node is involved. -/
theorem accesses_of_silent (hopen : isOpenCall c.call.number = false)
    (htransfer : isTransferCall c.call.number = false) : task.accesses tree path c = [] := by
  rw [FileTask.accesses, hopen, htransfer]
  rfl

theorem TaskAgrees.dups (h : TaskAgrees nodes p task P)
    (hdup : isDupCall c.call.number = true) :
    CallAgrees nodes p (task.after tree path c) (task.accesses tree path c) (c.exit P) := by
  have hkinds : isOpenCall c.call.number = false ∧ isTransferCall c.call.number = false ∧
      c.call.number ≠ nrSocket := by
    rcases isDupCall_iff.mp hdup with h | h | h <;> rw [h] <;> decide
  obtain ⟨hopen, htransfer, hsocket⟩ := hkinds
  rw [accesses_of_silent hopen htransfer, FinishedCall.exit,
    syscallExit_dup (isDupCall_iff.mp hdup), dupExit, FileTask.after]
  by_cases hfailed : c.call.result < 0
  · rw [if_pos hfailed, if_pos hfailed]
    exact h.silent
  · rw [if_neg hfailed, if_neg hfailed, if_neg (by simp [hopen]), if_neg hsocket, if_pos hdup]
    exact (h.setFd (h.fds c.call.source)).silent

theorem TaskAgrees.closes (h : TaskAgrees nodes p task P) (hclose : c.call.number = nrClose)
    (hzero : 0 ≤ c.call.result → c.call.result = 0) :
    CallAgrees nodes p (task.after tree path c) (task.accesses tree path c) (c.exit P) := by
  rw [accesses_of_silent (by rw [hclose]; decide) (by rw [hclose]; decide), FinishedCall.exit,
    syscallExit_close hclose, closeExit, FileTask.after]
  by_cases hfailed : c.call.result < 0
  · have hnonzero : c.call.result ≠ 0 := fun hz => by simp [hz] at hfailed
    rw [if_pos hfailed, if_neg hnonzero]
    exact h.silent
  · rw [if_neg hfailed, if_pos (hzero (Int64.not_lt.mp hfailed)), if_neg (by rw [hclose]; decide),
      if_neg (by rw [hclose]; decide), if_neg (by rw [hclose]; decide), if_pos hclose]
    have hentry : FileAgrees nodes (none : Option (OpenFile ν)) none := rfl
    exact (h.setFd hentry).silent

theorem TaskAgrees.sockets (h : TaskAgrees nodes p task P) (hsocket : c.call.number = nrSocket) :
    CallAgrees nodes p (task.after tree path c) (task.accesses tree path c) (c.exit P) := by
  rw [accesses_of_silent (by rw [hsocket]; decide) (by rw [hsocket]; decide), FinishedCall.exit,
    syscallExit_socket hsocket, socketExit, FileTask.after]
  by_cases hfailed : c.call.result < 0
  · rw [if_pos hfailed, if_neg (Int64.not_le.mpr hfailed)]
    exact h.silent
  · rw [if_neg hfailed, if_pos (Int64.not_lt.mp hfailed), if_neg (by rw [hsocket]; decide),
      if_pos hsocket]
    have hentry : FileAgrees nodes (some (OpenFile.socket : OpenFile ν))
        (some ⟨.socket, lit "<socket>", false⟩) := ⟨_, rfl, rfl⟩
    exact (h.setFd hentry).silent

/-- A connect renames a socket at most, and its event is no access. -/
theorem TaskAgrees.connects (h : TaskAgrees nodes p task P)
    (hconnect : c.call.number = nrConnect) :
    CallAgrees nodes p (task.after tree path c) (task.accesses tree path c) (c.exit P) := by
  have hafter : task.after tree path c = task := by
    simp [FileTask.after, hconnect, isOpenCall, isDupCall, nrConnect, nrOpen, nrOpenat, nrOpenat2,
      nrSocket, nrDup, nrDup2, nrDup3, nrClose, nrChdir, nrFchdir]
  rw [hafter, accesses_of_silent (by rw [hconnect]; decide) (by rw [hconnect]; decide),
    FinishedCall.exit, syscallExit_connect P hconnect, connectExit]
  dsimp only
  split
  · exact h.silent
  · rename_i endpoint hendpoint
    have hquiet : ∀ metadata, (makeEvent P c.call endpoint.eventType endpoint.resource
        metadata).access = none := by
      intro metadata
      rcases socketEndpoint_isIo hendpoint with htype | htype <;>
        simp [Event.access, makeEvent, htype]
    split
    · exact ⟨h, by simp [hquiet]⟩
    · rename_i resource hfd
      split
      · rename_i hsocket
        refine ⟨?_, by simp [hquiet]⟩
        have hentry := h.fds (asInt (arg0 c.call.args))
        have hkernel : task.fds (asInt (arg0 c.call.args)) = some .socket := by
          cases hcase : task.fds (asInt (arg0 c.call.args)) with
          | none =>
              rw [hcase, hfd] at hentry
              exact absurd hentry (Option.some_ne_none _)
          | some file =>
              rw [hcase, hfd] at hentry
              cases file with
              | inherited => exact absurd hentry (Option.some_ne_none _)
              | socket => rfl
              | node node directory =>
                  rw [Option.some.inj hentry] at hsocket
                  contradiction
        have hsame : task.setFd (asInt (arg0 c.call.args)) (some .socket) = task := by
          rw [FileTask.setFd, ← hkernel, Function.update_eq_self]
        rw [← hsame]
        have hsocketEntry : FileAgrees nodes (some (OpenFile.socket : OpenFile ν))
            (some { resource with name := endpoint.resource }) := ⟨_, rfl, hsocket⟩
        exact h.setFd hsocketEntry
      · exact ⟨h, by simp [hquiet]⟩

theorem TaskAgrees.chdirs (h : TaskAgrees nodes p task P) (hchdir : c.call.number = nrChdir)
    (admits : FileCallAdmits task tree path c) :
    CallAgrees nodes p (task.after tree path c) (task.accesses tree path c) (c.exit P) := by
  rw [accesses_of_silent (by rw [hchdir]; decide) (by rw [hchdir]; decide), FinishedCall.exit,
    FileTask.after]
  by_cases hfailed : c.call.result < 0
  · have hnonzero : c.call.result ≠ 0 := fun hz => by simp [hz] at hfailed
    have hexit : syscallExit c.memory P c.call = (P, none) := by
      simp [syscallExit, hchdir, hnonzero, nrChdir, nrFchdir, nrDup, nrDup2, nrDup3, nrClose,
        nrOpen, nrOpenat, nrOpenat2, nrRead, nrWrite, nrSocket, nrConnect]
    rw [if_pos hfailed, hexit]
    exact h.silent
  · have hresult : 0 ≤ c.call.result := Int64.not_lt.mp hfailed
    have hpath : isPathCall c.call.number = true := by simp [isPathCall, hchdir]
    have hother : isOpenatCall c.call.number = false := by rw [hchdir]; decide
    have hcwd : c.call.directory = atFdcwd := by rw [RawSyscall.directory, hother]; rfl
    obtain ⟨hne, hresolves⟩ := admits.resolves hresult hpath
    obtain ⟨node, hnode⟩ := Option.ne_none_iff_exists'.mp hresolves
    have hname := h.resolvePath_target hne hnode (admits.directory hresult hpath)
    have hread : c.memory.readString c.call.tid (arg0 c.call.args) = path := by
      have htext := admits.readable hresult hpath
      rwa [FinishedCall.pathText, hother] at htext
    rw [hcwd] at hname
    rw [if_neg hfailed, if_neg (by rw [hchdir]; decide), if_neg (by rw [hchdir]; decide),
      if_neg (by rw [hchdir]; decide), if_neg (by rw [hchdir]; decide), if_pos hchdir, hnode,
      syscallExit_chdir hchdir (admits.zero hresult (.inr (.inl hchdir))), chdirExit, hread,
      if_pos hne, hname]
    have hmoved : TaskAgrees nodes p { task with cwd := node } { P with cwd := nodes.path node } :=
      ⟨h.pid, rfl, h.fds⟩
    exact hmoved.silent

theorem TaskAgrees.fchdirs (h : TaskAgrees nodes p task P) (hfchdir : c.call.number = nrFchdir)
    (admits : FileCallAdmits task tree path c) :
    CallAgrees nodes p (task.after tree path c) (task.accesses tree path c) (c.exit P) := by
  rw [accesses_of_silent (by rw [hfchdir]; decide) (by rw [hfchdir]; decide), FinishedCall.exit,
    FileTask.after]
  by_cases hfailed : c.call.result < 0
  · have hnonzero : c.call.result ≠ 0 := fun hz => by simp [hz] at hfailed
    have hexit : syscallExit c.memory P c.call = (P, none) := by
      simp [syscallExit, hfchdir, hnonzero, nrChdir, nrFchdir, nrDup, nrDup2, nrDup3, nrClose,
        nrOpen, nrOpenat, nrOpenat2, nrRead, nrWrite, nrSocket, nrConnect]
    rw [if_pos hfailed, hexit]
    exact h.silent
  · have hresult : 0 ≤ c.call.result := Int64.not_lt.mp hfailed
    obtain ⟨node, directory, hkernel⟩ := admits.entered hresult hfchdir
    have hfd : P.fdTable (asInt (arg0 c.call.args)) =
        some ⟨.file, nodes.path node, directory⟩ := h.node hkernel
    rw [if_neg hfailed, if_neg (by rw [hfchdir]; decide), if_neg (by rw [hfchdir]; decide),
      if_neg (by rw [hfchdir]; decide), if_neg (by rw [hfchdir]; decide),
      if_neg (by rw [hfchdir]; decide), if_pos hfchdir, hkernel,
      syscallExit_fchdir hfchdir (admits.zero hresult (.inr (.inr hfchdir))), fchdirExit, hfd]
    have hmoved : TaskAgrees nodes p { task with cwd := node } { P with cwd := nodes.path node } :=
      ⟨h.pid, rfl, h.fds⟩
    exact hmoved.silent

theorem TaskAgrees.call (h : TaskAgrees nodes p task P) (htid : c.call.tid = p)
    (admits : FileCallAdmits task tree path c) :
    CallAgrees nodes p (task.after tree path c) (task.accesses tree path c) (c.exit P) := by
  have hlisted := admits.listed
  simp only [isFileCall, Bool.or_eq_true, decide_eq_true_eq, or_assoc] at hlisted
  rcases hlisted with hopen | htransfer | hdup | hclose | hsocket | hconnect | hchdir | hfchdir
  · exact h.opens htid hopen admits
  · exact h.transfers htid htransfer
  · exact h.dups hdup
  · exact h.closes hclose fun hresult => admits.zero hresult (.inl hclose)
  · exact h.sockets hsocket
  · exact h.connects hconnect
  · exact h.chdirs hchdir admits
  · exact h.fchdirs hfchdir admits

end calls

/-! ### Runs -/

def FileAction.notification : FileAction nodes → Notification
  | .call _ _ c => c.notification
  | .fork parent child isVfork cloneFlags t =>
      .created parent child (if isVfork then ptraceEventVfork else ptraceEventFork) cloneFlags t
  | .exec task links t => .exec task links t
  | .exit task exitCode termSignal t => .exited task exitCode termSignal t
  | .marker task m t => .marker task m t

/-- Every process of the kernel has its record. -/
def FilesTracked (nodes : Nodes ν) (tasks : FileTasks ν) (σ : ExecutionState) : Prop :=
  ∀ p task, tasks p = some task →
    σ.processForThread p = p ∧ ∃ P, σ.processes p = some P ∧ TaskAgrees nodes p task P

section steps

variable {tasks : FileTasks ν} {σ τ : ExecutionState} {o : List Event}

/-- A record that changes neither its directory nor its descriptors. -/
theorem TaskAgrees.frame {p : Pid} {task : FileTask ν} {P Q : ProcessState}
    (h : TaskAgrees nodes p task P) (hpid : Q.pid = P.pid) (hcwd : Q.cwd = P.cwd)
    (hfds : Q.fdTable = P.fdTable) : TaskAgrees nodes p task Q :=
  ⟨hpid.trans h.pid, hcwd.trans h.cwd, fun fd => by rw [hfds]; exact h.fds fd⟩

/-- One record changes, and the process keeps its place in the table. -/
theorem FilesTracked.setProcess {p : Pid} {task : FileTask ν} {Q : ProcessState}
    (h : FilesTracked nodes tasks σ) (hself : σ.processForThread p = p)
    (hQ : TaskAgrees nodes p task Q) :
    FilesTracked nodes (Function.update tasks p (some task)) (σ.setProcess p Q) := by
  intro p' task' htask'
  by_cases hp : p' = p
  · subst hp
    rw [Function.update_self] at htask'
    obtain rfl := Option.some.inj htask'
    exact ⟨hself, Q, by simp, hQ⟩
  · rw [Function.update_of_ne hp] at htask'
    obtain ⟨hself', P, hP, hagrees⟩ := h p' task' htask'
    exact ⟨hself', P, by simp [hp, hP], hagrees⟩

/-- Processes may end, and the other fields of their records may change. -/
theorem FilesTracked.frame {tasks' : FileTasks ν} (h : FilesTracked nodes tasks σ)
    (hsub : ∀ p task, tasks' p = some task → tasks p = some task)
    (hthreads : ∀ p task, tasks' p = some task → σ.processForThread p = p →
      τ.processForThread p = p)
    (hrecords : ∀ p P, σ.processes p = some P → ∃ Q, τ.processes p = some Q ∧ Q.pid = P.pid ∧
      Q.cwd = P.cwd ∧ Q.fdTable = P.fdTable) :
    FilesTracked nodes tasks' τ := by
  intro p task htask
  obtain ⟨hself, P, hP, hagrees⟩ := h p task (hsub p task htask)
  obtain ⟨Q, hQ, hpid, hcwd, hfds⟩ := hrecords p P hP
  exact ⟨hthreads p task htask hself, Q, hQ, hagrees.frame hpid hcwd hfds⟩

/-- The records after one of them has changed in other fields. -/
theorem records_setProcess {key : Pid} {P Q : ProcessState} (hP : σ.processes key = some P)
    (hpid : Q.pid = P.pid) (hcwd : Q.cwd = P.cwd) (hfds : Q.fdTable = P.fdTable) (p : Pid)
    (R : ProcessState) (hR : σ.processes p = some R) :
    ∃ S, (σ.setProcess key Q).processes p = some S ∧ S.pid = R.pid ∧ S.cwd = R.cwd ∧
      S.fdTable = R.fdTable := by
  by_cases hp : p = key
  · subst hp
    rw [hP] at hR
    obtain rfl := Option.some.inj hR
    exact ⟨Q, by simp, hpid, hcwd, hfds⟩
  · exact ⟨R, by simp [hp, hR], rfl, rfl, rfl⟩

theorem FilesTracked.call {tree : Tree nodes} {path : Bytes} {c : FinishedCall}
    {task : FileTask ν} (h : FilesTracked nodes tasks σ) (htask : tasks c.call.tid = some task)
    (admits : FileCallAdmits task tree path c) (hstep : σ.notify c.notification = .ok (τ, o)) :
    FilesTracked nodes (Function.update tasks c.call.tid (some (task.after tree path c))) τ ∧
      o.filterMap Event.access = (task.accesses tree path c).map (Access.shown nodes) := by
  obtain ⟨hself, P, hP, hagrees⟩ := h _ _ htask
  have hcall := hagrees.call rfl admits
  rw [notify_call hself hP] at hstep
  obtain ⟨rfl, rfl⟩ := Prod.mk.inj (Except.ok.inj hstep)
  refine ⟨h.setProcess hself hcall.process, ?_⟩
  rw [← hcall.events, List.filterMap_map]
  congr 1
  funext e
  unfold Function.comp emit
  repeat' split
  all_goals rfl

theorem FilesTracked.fork {parent child : Pid} {isVfork : Bool} {flags t : UInt64}
    (h : FilesTracked nodes tasks σ) (hparent : tasks parent ≠ none)
    (hstep : σ.notify (FileAction.notification
      (.fork parent child isVfork flags t : FileAction nodes)) = .ok (τ, o)) :
    FilesTracked nodes (Function.update tasks child (tasks parent)) τ ∧
      o.filterMap Event.access = [] := by
  obtain ⟨task, htask⟩ := Option.ne_none_iff_exists'.mp hparent
  obtain ⟨hself, P, hP, hagrees⟩ := h parent task htask
  cases notify_effect hstep with
  | createdUnknown unknown =>
      rw [hself, hP] at unknown
      contradiction
  | createdThread _ thread => cases isVfork <;> contradiction
  | @createdProcess _ _ _ _ _ Q found =>
      rw [hself, hP] at found
      obtain rfl := Option.some.inj found
      refine ⟨?_, rfl⟩
      intro p task' htask'
      by_cases hp : p = child
      · subst hp
        rw [Function.update_self, htask] at htask'
        obtain rfl := Option.some.inj htask'
        exact ⟨by simp, { P with pid := p, parentPid := P.pid }, by simp, rfl, hagrees.cwd,
          hagrees.fds⟩
      · rw [Function.update_of_ne hp] at htask'
        obtain ⟨hself', R, hR, hagrees'⟩ := h p task' htask'
        exact ⟨by simp [hp, hself'], R, by simp [hp, hR], hagrees'⟩

theorem FilesTracked.exec {p : Pid} {links : ProcLinks} {t : UInt64}
    (h : FilesTracked nodes tasks σ) (hp : tasks p ≠ none)
    (hstep : σ.notify (.exec p links t) = .ok (τ, o)) :
    FilesTracked nodes tasks τ ∧ o.filterMap Event.access = [] := by
  obtain ⟨task, htask⟩ := Option.ne_none_iff_exists'.mp hp
  obtain ⟨hself, P, hP, -⟩ := h p task htask
  cases notify_effect hstep with
  | exec found =>
      exact ⟨h.frame (fun _ _ htask => htask) (fun _ _ _ hself => hself)
        (records_setProcess found rfl rfl rfl), rfl⟩
  | execDiscovered unknown =>
      rw [hself, hP] at unknown
      contradiction

theorem FilesTracked.exit {p : Pid} {code signal : Int32} {t : UInt64}
    (h : FilesTracked nodes tasks σ) (hstep : σ.notify (.exited p code signal t) = .ok (τ, o)) :
    FilesTracked nodes (Function.update tasks p none) τ ∧ o.filterMap Event.access = [] := by
  have hsub : ∀ q task, Function.update tasks p none q = some task →
      q ≠ p ∧ tasks q = some task := by
    intro q task hq
    by_cases hp : q = p
    · subst hp
      simp at hq
    · rw [Function.update_of_ne hp] at hq
      exact ⟨hp, hq⟩
  have hframe : ∀ σ' : ExecutionState,
      (∀ q R, σ.processes q = some R → ∃ S, σ'.processes q = some S ∧ S.pid = R.pid ∧
        S.cwd = R.cwd ∧ S.fdTable = R.fdTable) → σ'.threadToProcess = σ.threadToProcess →
      FilesTracked nodes (Function.update tasks p none) (σ'.setThread p none) := by
    intro σ' hrecords hthreads
    refine h.frame (fun q task hq => (hsub q task hq).2) (fun q task hq hself => ?_) hrecords
    have hother : σ'.processForThread q = σ.processForThread q := by
      rw [processForThread, hthreads]
      rfl
    simp [(hsub q task hq).1, hother, hself]
  cases notify_effect hstep with
  | exitedThread => exact ⟨hframe σ (fun _ R hR => ⟨R, hR, rfl, rfl, rfl⟩) rfl, rfl⟩
  | exitedUnknown =>
      exact ⟨h.frame (fun q task hq => (hsub q task hq).2) (fun _ _ _ hself => hself)
        fun _ R hR => ⟨R, hR, rfl, rfl, rfl⟩, rfl⟩
  | exited _ found => exact ⟨hframe _ (records_setProcess found rfl rfl rfl) rfl, rfl⟩
  | @exitedRunning _ _ _ _ P _ _ found =>
      exact ⟨hframe { σ.setProcess p { P with commandId := none } with activeCommand := none }
        (records_setProcess found rfl rfl rfl) rfl, rfl⟩
  | @exitedIdle _ _ _ _ P _ found =>
      exact ⟨hframe { σ.setProcess p (if σ.isArmed then { P with commandId := none } else P) with
          activeCommand := none }
        (records_setProcess found (by split <;> rfl) (by split <;> rfl) (by split <;> rfl)) rfl,
        rfl⟩

theorem FilesTracked.marker {p : Pid} {m : CommandMarker} {t : UInt64}
    (h : FilesTracked nodes tasks σ) (hstep : σ.notify (.marker p m t) = .ok (τ, o)) :
    FilesTracked nodes tasks τ ∧ o.filterMap Event.access = [] := by
  have hframe : ∀ σ' : ExecutionState,
      (∀ q R, σ.processes q = some R → ∃ S, σ'.processes q = some S ∧ S.pid = R.pid ∧
        S.cwd = R.cwd ∧ S.fdTable = R.fdTable) → σ'.threadToProcess = σ.threadToProcess →
      FilesTracked nodes tasks σ' := by
    intro σ' hrecords hthreads
    refine h.frame (fun _ _ htask => htask) (fun q _ _ hself => ?_) hrecords
    rw [processForThread, hthreads]
    exact hself
  cases notify_effect hstep with
  | markerIgnored => exact ⟨h, rfl⟩
  | @arm _ _ _ P found =>
      exact ⟨hframe { σ.setProcess (σ.processForThread p) { P with commandId := some m.id } with
          activeCommand := some ⟨m.id, none, false⟩ }
        (records_setProcess found rfl rfl rfl) rfl, rfl⟩
  | @start _ _ _ _ a =>
      exact ⟨hframe { σ with activeCommand := some { a with started := true } }
        (fun _ R hR => ⟨R, hR, rfl, rfl, rfl⟩) rfl, rfl⟩
  | @stop _ _ _ P _ found =>
      exact ⟨hframe { σ.setProcess (σ.processForThread p) { P with commandId := none } with
          activeCommand := none }
        (records_setProcess found rfl rfl rfl) rfl, rfl⟩

end steps

theorem filesTracked_initial (root : Pid) (directory : ν) (isInherited : Int32 → Bool)
    (rootCommand : Option Bytes) (startNs : UInt64) :
    FilesTracked nodes (FileTasks.initial root directory isInherited)
      (initialState root (nodes.path directory) rootCommand startNs) := by
  intro p task htask
  by_cases hp : p = root
  · subst hp
    rw [FileTasks.initial, Function.update_self] at htask
    rw [← Option.some.inj htask]
    refine ⟨by simp [ExecutionState.processForThread, initialState_threadToProcess], _,
      by rw [initialState_processes, if_pos rfl], rfl, rfl, fun fd => ?_⟩
    show FileAgrees nodes (if isInherited fd then some .inherited else none) none
    split <;> rfl
  · rw [FileTasks.initial, Function.update_of_ne hp] at htask
    contradiction

/-- A recording follows the kernel. -/
theorem files_tracked {root : Pid} {directory : ν} {isInherited : Int32 → Bool}
    {rootCommand : Option Bytes} {startNs : UInt64} {actions : List (FileAction nodes)}
    {σ : ExecutionState} {es : List Event}
    (legal : Transducer.Legal (FileAdmits root directory isInherited) actions)
    (hrecord : record root (nodes.path directory) rootCommand startNs
      (actions.map FileAction.notification) = .ok (σ, es)) :
    ∃ tasks log, fileRun root directory isInherited actions = .ok (tasks, log) ∧
      FilesTracked nodes tasks σ ∧ es.filterMap Event.access = log.map (Access.shown nodes) := by
  obtain ⟨es', hrun, rfl⟩ := (record_ok_iff ..).mp hrecord
  have hrefines : ∃ tasks log, fileRun root directory isInherited actions = .ok (tasks, log) ∧
      FilesTracked nodes tasks σ ∧ es'.filterMap Event.access = log.map (Access.shown nodes) := by
    refine Transducer.run_refines ?_
      (filesTracked_initial root directory isInherited rootCommand startNs) legal hrun
    intro past action tasks σ τ log o hpast htracked hadmits hstep
    have hadmitted := hadmits tasks log hpast
    cases action with
    | call tree path c =>
        obtain ⟨task, htask, hcall⟩ := hadmitted
        obtain ⟨hnext, hevents⟩ := htracked.call htask hcall hstep
        refine ⟨_, task.accesses tree path c, ?_, hnext, hevents⟩
        rw [FileTasks.step, htask]
    | fork parent child isVfork flags t =>
        obtain ⟨hnext, hevents⟩ := htracked.fork hadmitted.1 hstep
        exact ⟨_, [], rfl, hnext, hevents⟩
    | exec p links t =>
        obtain ⟨hnext, hevents⟩ := htracked.exec hadmitted hstep
        exact ⟨_, [], rfl, hnext, hevents⟩
    | exit p code signal t =>
        obtain ⟨hnext, hevents⟩ := htracked.exit hstep
        exact ⟨_, [], rfl, hnext, hevents⟩
    | marker p m t =>
        obtain ⟨hnext, hevents⟩ := htracked.marker hstep
        exact ⟨_, [], rfl, hnext, hevents⟩
  obtain ⟨tasks, log, hspec, htracked, hobserved⟩ := hrefines
  refine ⟨tasks, log, hspec, htracked, ?_⟩
  rw [List.filterMap_append, hobserved, initialEvents_eq, List.filterMap_map]
  cases rootCommand <;> rfl

/-- The recording refines the kernel: it has the working directory and the
descriptors of every process by the paths of their nodes, and its reads,
writes and successful opens are those of the kernel, in order, each under the
path of the node that it used. -/
theorem files_refine {root : Pid} {directory : ν} {isInherited : Int32 → Bool}
    {rootCommand : Option Bytes} {startNs : UInt64} {actions : List (FileAction nodes)}
    {σ : ExecutionState} {es : List Event}
    (legal : Transducer.Legal (FileAdmits root directory isInherited) actions)
    (hrecord : record root (nodes.path directory) rootCommand startNs
      (actions.map FileAction.notification) = .ok (σ, es)) :
    ∃ tasks log, fileRun root directory isInherited actions = .ok (tasks, log) ∧
      (∀ p task, tasks p = some task →
        ∃ P, σ.processes p = some P ∧ TaskAgrees nodes p task P) ∧
      es.filterMap Event.access = log.map (Access.shown nodes) := by
  obtain ⟨tasks, log, hspec, htracked, hobserved⟩ := files_tracked legal hrecord
  exact ⟨tasks, log, hspec, fun p task htask => (htracked p task htask).2, hobserved⟩

/-- A directory is opened and entered by its descriptor, a file next to it is
opened from there, and a child of the process reads it. -/
def sampleFiles : List (FileAction allNodes) :=
  [.call fullTree (lit "/srv/./a/") (pathCall nrOpen 1 oDirectory 3),
    .call fullTree [] (pathCall nrFchdir 3 0 0),
    .call fullTree (lit "../b//c/") (pathCall nrOpen 2 0 4),
    .fork 7 8 false 0 2,
    .call fullTree [] ⟨pathMemory, { (pathCall nrRead 4 0 5).call with pid := 8, tid := 8 }⟩]

theorem sampleFiles_legal :
    Transducer.Legal (FileAdmits 7 fullTree.root fun _ => false) sampleFiles := by
  have admitted : ∀ {past : List (FileAction allNodes)} {action : FileAction allNodes}
      {tasks : FileTasks _} {log : List (Access _)},
      fileRun 7 fullTree.root (fun _ => false) past = .ok (tasks, log) → tasks.Admits action →
      FileAdmits 7 fullTree.root (fun _ => false) past action := by
    intro past action tasks log hrun h tasks' log' hrun'
    obtain ⟨rfl, -⟩ := Prod.mk.inj (Except.ok.inj (hrun.symm.trans hrun'))
    exact h
  refine (((((Transducer.legal_nil _).snoc ?_).snoc ?_).snoc ?_).snoc ?_).snoc ?_
  · refine admitted rfl ⟨_, rfl, rfl, fun _ _ => ⟨by decide, fun h => ?_⟩, fun _ _ => rfl,
      fun _ _ h => ?_, fun _ h => ?_, fun _ h => ?_, fun _ h => ?_⟩
    · contradiction
    · contradiction
    · contradiction
    · contradiction
    · exact absurd h (by decide)
  · refine admitted rfl ⟨_, rfl, rfl, fun _ h => ?_, fun _ h => ?_, fun _ h => ?_, fun _ h => ?_,
      fun _ _ => ⟨_, _, rfl⟩, fun _ _ => rfl⟩
    all_goals contradiction
  · refine admitted rfl ⟨_, rfl, rfl, fun _ _ => ⟨by decide, fun h => ?_⟩, fun _ _ => rfl,
      fun _ _ _ h => ?_, fun _ h => ?_, fun _ h => ?_, fun _ h => ?_⟩
    · contradiction
    · exact absurd rfl h
    · contradiction
    · contradiction
    · exact absurd h (by decide)
  · exact admitted rfl ⟨fun h => by contradiction, rfl⟩
  · refine admitted rfl ⟨_, rfl, rfl, fun _ h => ?_, fun _ h => ?_, fun _ h => ?_, fun _ h => ?_,
      fun _ h => ?_, fun _ h => ?_⟩
    · contradiction
    · contradiction
    · contradiction
    · contradiction
    · contradiction
    · exact absurd h (by decide)

theorem files_refine_sample :
    ∃ σ es, record 7 (lit "/") none 0 (sampleFiles.map FileAction.notification) = .ok (σ, es) ∧
      es.filterMap Event.access =
        [(7, .fileOpen, lit "/srv/a", 3), (7, .fileOpen, lit "/srv/b/c", 4),
          (8, .fileRead, lit "/srv/b/c", 5)] := by
  obtain ⟨σ, es, hrecord⟩ : ∃ σ es, record 7 (lit "/") none 0
      (sampleFiles.map FileAction.notification) = .ok (σ, es) := ⟨_, _, rfl⟩
  obtain ⟨tasks, log, hspec, -, hobserved⟩ := files_refine sampleFiles_legal hrecord
  refine ⟨σ, es, hrecord, ?_⟩
  obtain ⟨-, rfl⟩ := Prod.mk.inj (Except.ok.inj hspec)
  rw [hobserved]
  rfl

end Whyrun
