import Whyrun.Kernel.Descriptors

/-!
A reference kernel for descriptors over exec. Processes have threads, a
descriptor may be close-on-exec, and calls that are not traced change the
tables as well. Beside the table of a process stands what it has lost
without a traced call: the descriptions that were closed or replaced by an
exec or by an untraced call.
-/

namespace Whyrun

/-- A descriptor. From the side of the traced calls a description that an
untraced call has made is inherited. -/
structure OpenFd where
  description : Description
  closeOnExec : Bool := false
  deriving DecidableEq

abbrev OpenTable := Int32 → Option OpenFd

def isTracedCall (number : Int64) : Bool :=
  isOpenCall number || number = nrSocket || isDupCall number || number = nrClose ||
    isTransferCall number

namespace OpenTable

def descriptions (table : OpenTable) : FdTable := fun fd => (table fd).map OpenFd.description

/-- The table after a traced call; a descriptor copied onto itself keeps its
flag. -/
def after (k : ℕ) (table : OpenTable) (call : RawSyscall) (closeOnExec : Bool) : OpenTable :=
  if call.result < 0 then table
  else if isOpenCall call.number then
    Function.update table call.returned (some ⟨.opened k, closeOnExec⟩)
  else if call.number = nrSocket then
    Function.update table call.returned (some ⟨.socket k, closeOnExec⟩)
  else if isDupCall call.number then
    if call.source = call.returned then table
    else Function.update table call.returned
      ((table call.source).map fun fd => { fd with closeOnExec })
  else if call.number = nrClose then Function.update table call.source none
  else table

/-- A successful exec. -/
def exec (table : OpenTable) : OpenTable := fun fd => (table fd).filter fun e => !e.closeOnExec

end OpenTable

/-- The descriptors of a process. -/
structure Files where
  table : OpenTable
  lost : FdTable

namespace Files

/-- What the traced calls have left behind, whatever else has happened. -/
def held (files : Files) : FdTable := fun fd => (files.lost fd).or (files.table.descriptions fd)

/-- A traced call settles the numbers it sets or closes; a copy of a number
is lost if that number is. -/
def settle (lost : FdTable) (call : RawSyscall) : FdTable :=
  if call.result < 0 then lost
  else if isOpenCall call.number then Function.update lost call.returned none
  else if call.number = nrSocket then Function.update lost call.returned none
  else if isDupCall call.number then Function.update lost call.returned (lost call.source)
  else if call.number = nrClose then Function.update lost call.source none
  else lost

def call (k : ℕ) (files : Files) (call : RawSyscall) (closeOnExec : Bool) : Files :=
  ⟨files.table.after k call closeOnExec, settle files.lost call⟩

/-- The table changes without a traced call. -/
def becomes (files : Files) (table : OpenTable) : Files where
  table
  lost fd :=
    if table.descriptions fd = files.table.descriptions fd then files.lost fd else files.held fd

end Files

/-! ### Processes and threads -/

inductive ExecAction
  | traced (memory : TraceeMemory) (call : RawSyscall) (closeOnExec : Bool)
  | untraced (memory : TraceeMemory) (call : RawSyscall) (table : OpenTable)
  | thread (parentTid childTid : Pid) (cloneFlags timestampNs : UInt64)
  | fork (parentTid child : Pid) (isVfork : Bool) (cloneFlags timestampNs : UInt64)
  | exec (tid : Pid) (links : ProcLinks) (timestampNs : UInt64)
  | exited (tid : Pid) (exitCode termSignal : Int32) (timestampNs : UInt64)

/-- The process of each thread, and the descriptors of each process. -/
structure Processes where
  owner : Pid → Option Pid
  files : Pid → Option Files

namespace Processes

def filesOf (s : Processes) (tid : Pid) : Option Files := (s.owner tid).bind s.files

def change (s : Processes) (tid : Pid) (f : Files → Files) : Processes :=
  match s.owner tid with
  | none => s
  | some p => { s with files := Function.update s.files p ((s.files p).map f) }

def step (k : ℕ) (s : Processes) : ExecAction → Processes
  | .traced _ call closeOnExec => s.change call.tid fun files => files.call k call closeOnExec
  | .untraced _ call table => s.change call.tid fun files => files.becomes table
  | .thread parentTid childTid _ _ =>
      { s with owner := Function.update s.owner childTid (s.owner parentTid) }
  | .fork parentTid child _ _ _ =>
      { owner := Function.update s.owner child (some child)
        files := Function.update s.files child (s.filesOf parentTid) }
  | .exec tid _ _ => s.change tid fun files => files.becomes files.table.exec
  | .exited tid _ _ _ =>
      if s.owner tid = some tid then
        { owner := Function.update s.owner tid none, files := Function.update s.files tid none }
      else { s with owner := Function.update s.owner tid none }

/-- The root starts with inherited descriptors. -/
def initial (root : Pid) (inherited : Int32 → Option Bool) : Processes where
  owner := Function.update (fun _ => none) root (some root)
  files := Function.update (fun _ => none) root (some
    { table := fun fd => (inherited fd).map fun closeOnExec => ⟨.inherited, closeOnExec⟩
      lost := fun _ => none })

end Processes

def processTablesAfter (root : Pid) (inherited : Int32 → Option Bool) (actions : List ExecAction) :
    Processes :=
  (actions.foldl (fun r action => (r.1 + 1, r.2.step r.1 action))
    (0, Processes.initial root inherited)).2

theorem processTablesAfter_snoc (root : Pid) (inherited : Int32 → Option Bool)
    (past : List ExecAction) (action : ExecAction) :
    processTablesAfter root inherited (past ++ [action]) =
      (processTablesAfter root inherited past).step past.length action :=
  Traces.foldl_numbered_snoc Processes.step _ past action

/-- What the kernel can do. The numbers that an untraced call takes or gives
up change hands without a traced description. -/
def ExecAdmits (root : Pid) (inherited : Int32 → Option Bool) (past : List ExecAction) :
    ExecAction → Prop
  | .traced _ call closeOnExec =>
      ∃ files, (processTablesAfter root inherited past).filesOf call.tid = some files ∧
        CallAdmits files.table.descriptions call ∧
        (call.number = nrDup ∨ call.number = nrDup2 → closeOnExec = false)
  | .untraced _ call table =>
      isTracedCall call.number = false ∧
        ∃ files, (processTablesAfter root inherited past).filesOf call.tid = some files ∧
          ∀ fd, table.descriptions fd ≠ files.table.descriptions fd →
            table.descriptions fd = none ∨ table.descriptions fd = some .inherited
  | .thread parentTid childTid cloneFlags _ =>
      cloneFlags &&& cloneThread ≠ 0 ∧
        (processTablesAfter root inherited past).filesOf parentTid ≠ none ∧
        (processTablesAfter root inherited past).owner childTid = none ∧
        (processTablesAfter root inherited past).files childTid = none
  | .fork parentTid child _ _ _ =>
      (processTablesAfter root inherited past).filesOf parentTid ≠ none ∧
        (processTablesAfter root inherited past).owner child = none ∧
        (processTablesAfter root inherited past).files child = none
  | .exec tid _ _ => (processTablesAfter root inherited past).filesOf tid ≠ none
  | .exited tid _ _ _ =>
      (processTablesAfter root inherited past).owner tid ≠ none ∧
        ∀ t, (processTablesAfter root inherited past).owner t = some tid → t = tid

end Whyrun
