import Whyrun.Kernel.Descriptors
import Whyrun.Library.DirectoryTree
import Whyrun.Naming.PathRoutes

/-!
A reference kernel for files. A process has a working directory and a
descriptor table, both of nodes of a directory tree; a path is resolved in the
tree as it stands at the call. The kernel knows nothing of the recorder: it
says which nodes the calls of a run open, read and write.
-/

namespace Whyrun

open ByteText LexicalPath DirectoryTree

/-- What a descriptor refers to: a description inherited at the start, a node
opened in the run with or without `O_DIRECTORY`, or a socket. -/
inductive OpenFile (ν : Type)
  | inherited
  | node (node : ν) (directory : Bool)
  | socket

structure FileTask (ν : Type) where
  cwd : ν
  fds : Int32 → Option (OpenFile ν)

abbrev FileTasks (ν : Type) := Pid → Option (FileTask ν)

/-- A finished call of a process, with the tree and the path of the call; a
fork or vfork; an exec that closes no descriptor; the end of a process; a
marker of a shell, of which the kernel takes no notice. -/
inductive FileAction {ν : Type} (nodes : Nodes ν)
  | call (tree : Tree nodes) (path : Bytes) (finished : FinishedCall)
  | fork (parent child : Pid) (isVfork : Bool) (cloneFlags timestampNs : UInt64)
  | exec (task : Pid) (links : ProcLinks) (timestampNs : UInt64)
  | exit (task : Pid) (exitCode termSignal : Int32) (timestampNs : UInt64)
  | marker (task : Pid) (marker : CommandMarker) (timestampNs : UInt64)

/-- A node that a process opens, reads or writes, and what the call returns. -/
structure Access (ν : Type) where
  pid : Pid
  type : EventType
  node : ν
  result : Int64

/-! ### Calls -/

def isOpenatCall (number : Int64) : Bool := number = nrOpenat || number = nrOpenat2

def isFileCall (number : Int64) : Bool :=
  isOpenCall number || isTransferCall number || isDupCall number || number = nrClose ||
    number = nrSocket || number = nrConnect || number = nrChdir || number = nrFchdir

/-- The call is made on a path. -/
def isPathCall (number : Int64) : Bool := isOpenCall number || number = nrChdir

/-- The descriptor of the directory from which a relative path starts. -/
def RawSyscall.directory (call : RawSyscall) : Int32 :=
  if isOpenatCall call.number then asInt (arg0 call.args) else atFdcwd

/-- The path as the collector reads it at the exit of the call. -/
def FinishedCall.pathText (c : FinishedCall) : Bytes :=
  c.memory.readString c.call.tid
    (if isOpenatCall c.call.number then arg1 c.call.args else arg0 c.call.args)

section kernel

variable {ν : Type} {nodes : Nodes ν}

namespace FileTask

def base (task : FileTask ν) (dirfd : Int32) : Option ν :=
  if dirfd = atFdcwd then some task.cwd
  else
    match task.fds dirfd with
    | some (.node node _) => some node
    | _ => none

/-- The node of the path of a call. -/
def target (task : FileTask ν) (tree : Tree nodes) (path : Bytes) (call : RawSyscall) :
    Option ν :=
  tree.resolve (task.base call.directory) path

def setFd (task : FileTask ν) (fd : Int32) (file : Option (OpenFile ν)) : FileTask ν :=
  { task with fds := Function.update task.fds fd file }

/-- The process after a call; a failed call changes nothing. -/
def after (task : FileTask ν) (tree : Tree nodes) (path : Bytes) (c : FinishedCall) :
    FileTask ν :=
  if c.call.result < 0 then task
  else if isOpenCall c.call.number then
    match task.target tree path c.call with
    | some node => task.setFd c.call.returned (some (.node node (c.openFlags &&& oDirectory ≠ 0)))
    | none => task
  else if c.call.number = nrSocket then task.setFd c.call.returned (some .socket)
  else if isDupCall c.call.number then task.setFd c.call.returned (task.fds c.call.source)
  else if c.call.number = nrClose then task.setFd c.call.source none
  else if c.call.number = nrChdir then
    match task.target tree path c.call with
    | some node => { task with cwd := node }
    | none => task
  else if c.call.number = nrFchdir then
    match task.fds c.call.source with
    | some (.node node _) => { task with cwd := node }
    | _ => task
  else task

/-- The nodes that a call uses: an open that succeeds, and every read or write
through a descriptor of a node. -/
def accesses (task : FileTask ν) (tree : Tree nodes) (path : Bytes) (c : FinishedCall) :
    List (Access ν) :=
  if isOpenCall c.call.number then
    if c.call.result < 0 then []
    else
      (task.target tree path c.call).toList.map fun node =>
        ⟨c.call.tid, .fileOpen, node, c.call.result⟩
  else if isTransferCall c.call.number then
    match task.fds c.call.source with
    | some (.node node _) =>
        [⟨c.call.tid, if c.call.number = nrRead then .fileRead else .fileWrite, node,
          c.call.result⟩]
    | _ => []
  else []

end FileTask

/-- The processes after an action, and the nodes it uses. -/
def FileTasks.step (tasks : FileTasks ν) :
    FileAction nodes → Except Failure (FileTasks ν × List (Access ν))
  | .call tree path c =>
      match tasks c.call.tid with
      | none => .ok (tasks, [])
      | some task =>
          .ok (Function.update tasks c.call.tid (some (task.after tree path c)),
            task.accesses tree path c)
  | .fork parent child _ _ _ => .ok (Function.update tasks child (tasks parent), [])
  | .exec _ _ _ | .marker _ _ _ => .ok (tasks, [])
  | .exit task _ _ _ => .ok (Function.update tasks task none, [])

/-- The root starts in a directory, with inherited descriptors. -/
def FileTasks.initial (root : Pid) (directory : ν) (isInherited : Int32 → Bool) : FileTasks ν :=
  Function.update (fun _ => none) root
    (some { cwd := directory, fds := fun fd => if isInherited fd then some .inherited else none })

def fileRun (root : Pid) (directory : ν) (isInherited : Int32 → Bool)
    (actions : List (FileAction nodes)) : Except Failure (FileTasks ν × List (Access ν)) :=
  Transducer.run FileTasks.step (FileTasks.initial root directory isInherited) actions

/-! ### What the kernel can do -/

/-- The call is one that the collector decodes, and the kernel returns what it
can. A call on a path succeeds when the path resolves, and the collector reads
the path that the kernel has read; a relative path starts from the working
directory or from a descriptor opened with `O_DIRECTORY` in the run, and its
resolution is not moved to another root with `RESOLVE_IN_ROOT`. -/
structure FileCallAdmits (task : FileTask ν) (tree : Tree nodes) (path : Bytes)
    (c : FinishedCall) : Prop where
  listed : isFileCall c.call.number = true
  resolves : 0 ≤ c.call.result → isPathCall c.call.number = true →
    path ≠ [] ∧ task.target tree path c.call ≠ none
  readable : 0 ≤ c.call.result → isPathCall c.call.number = true → c.pathText = path
  directory : 0 ≤ c.call.result → isPathCall c.call.number = true → isAbsolute path = false →
    c.call.directory ≠ atFdcwd → ∃ node, task.fds c.call.directory = some (.node node true)
  unmoved : 0 ≤ c.call.result → c.call.number = nrOpenat2 →
    ∃ how, c.memory.readBytes c.call.tid (arg2 c.call.args) 24 = some how ∧
      (littleEndian (how.drop 16)).testBit 4 = false
  entered : 0 ≤ c.call.result → c.call.number = nrFchdir →
    ∃ node directory, task.fds c.call.source = some (.node node directory)
  zero : 0 ≤ c.call.result →
    c.call.number = nrClose ∨ c.call.number = nrChdir ∨ c.call.number = nrFchdir →
    c.call.result = 0

/-- A process that is alive makes a call, execs or ends; a fork gives a new
process its pid. -/
def FileTasks.Admits (tasks : FileTasks ν) : FileAction nodes → Prop
  | .call tree path c => ∃ task, tasks c.call.tid = some task ∧ FileCallAdmits task tree path c
  | .fork parent child _ _ _ => tasks parent ≠ none ∧ tasks child = none
  | .exec task _ _ | .exit task _ _ _ | .marker task _ _ => tasks task ≠ none

def FileAdmits (root : Pid) (directory : ν) (isInherited : Int32 → Bool)
    (past : List (FileAction nodes)) (action : FileAction nodes) : Prop :=
  ∀ tasks log, fileRun root directory isInherited past = .ok (tasks, log) → tasks.Admits action

end kernel

end Whyrun
