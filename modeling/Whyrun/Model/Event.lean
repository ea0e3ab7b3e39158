import Whyrun.Library.ByteText

/-!
The recorded events: `include/whyrun/event.hpp` and `src/event.cpp`.
-/

namespace Whyrun

open ByteText

/-- `pid_t`. -/
abbrev Pid := Int32

/-- The `what()` text of a thrown exception. -/
abbrev Failure := String

inductive EventType
  | commandStart
  | commandEnd
  | processExec
  | processFork
  | processExit
  | fileOpen
  | fileRead
  | fileWrite
  | networkConnect
  | localIpcConnect
  deriving DecidableEq, Repr

/-- The name stored in the `type` column. -/
def eventTypeName : EventType → Bytes
  | .commandStart => lit "command_start"
  | .commandEnd => lit "command_end"
  | .processExec => lit "process_exec"
  | .processFork => lit "process_fork"
  | .processExit => lit "process_exit"
  | .fileOpen => lit "file_open"
  | .fileRead => lit "file_read"
  | .fileWrite => lit "file_write"
  | .networkConnect => lit "network_connect"
  | .localIpcConnect => lit "local_ipc_connect"

theorem eventTypeName_injective : Function.Injective eventTypeName := by
  intro a b h
  cases a <;> cases b <;> first | rfl | exact absurd h (by decide)

@[simp] theorem eventTypeName_inj {a b : EventType} :
    eventTypeName a = eventTypeName b ↔ a = b :=
  eventTypeName_injective.eq_iff

/-- One recorded event. `metadata` lists the entries of the source's map in
the order in which the code sets them, with distinct keys. -/
structure Event where
  timestampNs : UInt64
  pid : Pid
  tid : Pid
  type : EventType
  resource : Bytes
  result : Int64
  errnoValue : Int32
  metadata : List (Bytes × Bytes)
  commandId : Option UInt64
  deriving DecidableEq

/-- `metadata_value`: the entry of a key, or the fallback. -/
def metadataValue (event : Event) (key fallback : Bytes) : Bytes :=
  (event.metadata.lookup key).getD fallback

def Event.isCommandMark (event : Event) : Bool :=
  event.type = .commandStart || event.type = .commandEnd

/-- The event without its time, for statements about runs whose times vary. -/
def Event.untimed (event : Event) : Event := { event with timestampNs := 0 }

end Whyrun
