import Whyrun.Library.Traces
import Whyrun.Model.Syscalls

/-!
A reference kernel for descriptors. Every process has one thread and its own
descriptor table; an entry refers to an open file description, which is
named after the call that made it. The kernel knows nothing of the recorder:
it says what the calls of a run do to the tables of the processes.
-/

namespace Whyrun

open ByteText

/-- What a descriptor refers to: a description inherited at the start, or
one made by the call with this number in the run. -/
inductive Description
  | inherited
  | opened (call : ℕ)
  | socket (call : ℕ)
  deriving DecidableEq

abbrev FdTable := Int32 → Option Description

/-- The tables of the processes. -/
abbrev Kernel := Pid → Option FdTable

/-- A finished call of a process, or a fork or vfork. -/
inductive KernelAction
  | call (memory : TraceeMemory) (call : RawSyscall)
  | fork (parent child : Pid) (isVfork : Bool) (cloneFlags timestampNs : UInt64)

/-! ### Kinds of calls -/

def isOpenCall (number : Int64) : Bool :=
  number = nrOpen || number = nrOpenat || number = nrOpenat2

def isDupCall (number : Int64) : Bool :=
  number = nrDup || number = nrDup2 || number = nrDup3

theorem isDupCall_iff {number : Int64} :
    isDupCall number = true ↔ number = nrDup ∨ number = nrDup2 ∨ number = nrDup3 := by
  simp [isDupCall, or_assoc]

def isTransferCall (number : Int64) : Bool := number = nrRead || number = nrWrite

/-- The descriptor in the first argument of a call. -/
def RawSyscall.source (call : RawSyscall) : Int32 := asInt (arg0 call.args)

/-- The descriptor that a successful call returns. -/
def RawSyscall.returned (call : RawSyscall) : Int32 := call.result.toInt32

/-! ### The tables -/

/-- The table after the call with number `k` in the run; a failed call
changes nothing. -/
def FdTable.after (k : ℕ) (table : FdTable) (call : RawSyscall) : FdTable :=
  if call.result < 0 then table
  else if isOpenCall call.number then
    Function.update table call.returned (some (.opened k))
  else if call.number = nrSocket then
    Function.update table call.returned (some (.socket k))
  else if isDupCall call.number then
    Function.update table call.returned (table call.source)
  else if call.number = nrClose then Function.update table call.source none
  else table

def Kernel.step (k : ℕ) (kernel : Kernel) : KernelAction → Kernel
  | .call _ call =>
      Function.update kernel call.tid
        ((kernel call.tid).map fun table => table.after k call)
  | .fork parent child _ _ _ => Function.update kernel child (kernel parent)

/-- The root starts with inherited descriptors. -/
def Kernel.initial (root : Pid) (isInherited : Int32 → Bool) : Kernel :=
  Function.update (fun _ => none) root
    (some fun fd => if isInherited fd then some .inherited else none)

def kernelAfter (root : Pid) (isInherited : Int32 → Bool) (actions : List KernelAction) : Kernel :=
  (actions.foldl (fun r action => (r.1 + 1, r.2.step r.1 action))
    (0, Kernel.initial root isInherited)).2

theorem kernelAfter_snoc (root : Pid) (isInherited : Int32 → Bool) (past : List KernelAction)
    (action : KernelAction) :
    kernelAfter root isInherited (past ++ [action]) =
      (kernelAfter root isInherited past).step past.length action :=
  Traces.foldl_numbered_snoc Kernel.step _ past action

/-! ### What the kernel can do -/

/-- The result is one that the kernel can give: opens, sockets and `dup`
return an unused number, `dup2` and `dup3` the requested one, and `close`
returns zero. -/
structure CallAdmits (table : FdTable) (call : RawSyscall) : Prop where
  listed : isOpenCall call.number ∨ call.number = nrSocket ∨ isDupCall call.number ∨
    call.number = nrClose ∨ isTransferCall call.number
  unused : 0 ≤ call.result →
    isOpenCall call.number ∨ call.number = nrSocket ∨ call.number = nrDup →
    table call.returned = none
  requested : 0 ≤ call.result → call.number = nrDup2 ∨ call.number = nrDup3 →
    call.returned = asInt (arg1 call.args)
  source : 0 ≤ call.result → isDupCall call.number ∨ call.number = nrClose →
    table call.source ≠ none
  closed : 0 ≤ call.result → call.number = nrClose → call.result = 0

/-- A call is made by a process; a fork gives a new process its pid. -/
def KernelAdmits (root : Pid) (isInherited : Int32 → Bool) (past : List KernelAction) :
    KernelAction → Prop
  | .call _ call => ∃ table, kernelAfter root isInherited past call.tid = some table ∧
      CallAdmits table call
  | .fork parent child _ _ _ => kernelAfter root isInherited past parent ≠ none ∧
      kernelAfter root isInherited past child = none

end Whyrun
