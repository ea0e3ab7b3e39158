import Whyrun.Library.Spans
import Whyrun.Model.Syscalls

/-!
`LinuxTraceeMemory` of `src/ptrace_collector.cpp`. Both readers ask
`process_vm_readv` first and fetch words with `PTRACE_PEEKDATA` where that
delivers too little. Sizes are those of C++ objects, which `ssize_t` can count.
-/

namespace Whyrun

open ByteText Spans

/-- The memory of tracees at one stop: which bytes can be read, and what
`process_vm_readv` leaves in a buffer of the size asked for (`none` when it fails). -/
structure LinuxTraceeMemory where
  content : Pid → UInt64 → Option UInt8
  processVmReadv : Pid → UInt64 → ℕ → Option Bytes
  copies_prefix : ∀ {tid address size bytes}, processVmReadv tid address size = some bytes →
    bytes.length ≤ size ∧
      span (fun i => content tid (address + UInt64.ofNat i)) 0 bytes.length = some bytes

namespace LinuxTraceeMemory

/-- The bytes from an address on. -/
def bytesFrom (memory : LinuxTraceeMemory) (tid : Pid) (address : UInt64) : ℕ → Option UInt8 :=
  fun i => memory.content tid (address + UInt64.ofNat i)

/-- `sizeof(long)`. -/
def wordSize : ℕ := 8

/-- `ptrace(PTRACE_PEEKDATA, …)`: the bytes of one word in memory order. -/
def peekData (memory : LinuxTraceeMemory) (tid : Pid) (address : UInt64) : Option Bytes :=
  span (memory.bytesFrom tid address) 0 wordSize

/-- The loop over the bytes of one word in `read_string`; true when it returns. -/
def takeBytes (maxLength : ℕ) : Bytes → Bytes → Bytes × Bool
  | result, [] => (result, false)
  | result, byte :: rest =>
      if byte = 0 ∨ result.length = maxLength then (result, true)
      else takeBytes maxLength (result ++ [byte]) rest

/-- The loop over words in `read_string`. -/
def peekString (memory : LinuxTraceeMemory) (tid : Pid) (address : UInt64) (maxLength offset : ℕ)
    (result : Bytes) : Bytes :=
  if offset < maxLength then
    match memory.peekData tid (address + UInt64.ofNat offset) with
    | none => result
    | some word =>
        match takeBytes maxLength result word with
        | (result, true) => result
        | (result, false) =>
            memory.peekString tid address maxLength (offset + wordSize) result
  else result
termination_by maxLength - offset
decreasing_by simp only [wordSize]; omega

def readString (memory : LinuxTraceeMemory) (tid : Pid) (address : UInt64) (maxLength : ℕ) :
    Bytes :=
  if address = 0 ∨ maxLength = 0 then []
  else
    let buffer := (memory.processVmReadv tid address maxLength).getD []
    if 0 < buffer.length ∧ (0 ∈ buffer ∨ buffer.length = maxLength) then
      buffer.takeWhile (· ≠ 0)
    else memory.peekString tid address maxLength 0 []

/-- The loop over words in `read_bytes`. -/
def peekBytes (memory : LinuxTraceeMemory) (tid : Pid) (address : UInt64) (size offset : ℕ)
    (output : Bytes) : Option Bytes :=
  if offset < size then
    match memory.peekData tid (address + UInt64.ofNat offset) with
    | none => none
    | some word =>
        let copySize := min wordSize (size - offset)
        memory.peekBytes tid address size (offset + copySize) (output ++ word.take copySize)
  else some output
termination_by size - offset
decreasing_by simp only [wordSize]; omega

/-- What stands at `destination` where the code returns true. -/
def readBytes (memory : LinuxTraceeMemory) (tid : Pid) (address : UInt64) (size : ℕ) :
    Option Bytes :=
  if address = 0 ∨ size = 0 then none
  else
    match memory.processVmReadv tid address size with
    | some bytes =>
        if bytes.length = size then some bytes else memory.peekBytes tid address size 0 []
    | none => memory.peekBytes tid address size 0 []

/-- The default of `max_length`. -/
def defaultMaxLength : ℕ := 4096

end LinuxTraceeMemory

end Whyrun
