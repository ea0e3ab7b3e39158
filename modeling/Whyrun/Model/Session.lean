import Whyrun.Library.Transducer
import Whyrun.Model.Event

/-!
The command-marker protocol of `src/bash_session.cpp`: the two shell
functions that write it and `CommandProtocol`, which reads it back.
-/

namespace Whyrun

open ByteText

inductive CommandMarkerType
  | arm
  | start
  | stop
  deriving DecidableEq, Repr

structure CommandMarker where
  type : CommandMarkerType
  id : UInt64
  text : Bytes := []
  cwd : Bytes := []
  exitCode : Int32 := 0
  deriving DecidableEq

/-! ### The decoder -/

def kProtocolFields : ℕ := 4

def kMaximumFieldBytes : ℕ := 64 * 1024

/-- The separator that `HISTTIMEFORMAT` puts before the command text. -/
def historyPrefix : UInt8 := 0x1c

def parseId (text : Bytes) : Except Failure UInt64 :=
  match fromCharsUnsigned (2 ^ 64) text with
  | some (value, []) =>
      if value = 0 then .error "invalid command marker id" else .ok (UInt64.ofNat value)
  | _ => .error "invalid command marker id"

def parseStatus (text : Bytes) : Except Failure Int32 :=
  match fromCharsSigned (2 ^ 31) text with
  | some (value, []) => .ok (Int32.ofInt value)
  | _ => .error "invalid command marker exit status"

/-- Drop one trailing newline. -/
def chomp (text : Bytes) : Bytes :=
  if text.getLast? = some 10 then text.dropLast else text

/-- `CommandProtocol::decode_record` on the fields of a complete record. -/
def decodeRecord (fields : List Bytes) : Except Failure CommandMarker := do
  let id ← parseId (fields.getD 1 [])
  if fields.getD 0 [] = lit "A" then
    if fields.getD 3 [] ≠ [] then
      .error "command arm marker has unexpected data"
    else
      .ok { type := .arm, id, cwd := fields.getD 2 [] }
  else if fields.getD 0 [] = lit "S" then
    match (fields.getD 3 []).dropWhile (· ≠ historyPrefix) with
    | [] => .error "command marker is missing its history prefix"
    | _ :: text => .ok { type := .start, id, cwd := fields.getD 2 [], text := chomp text }
  else if fields.getD 0 [] = lit "E" then
    let exitCode ← parseStatus (fields.getD 2 [])
    .ok { type := .stop, id, exitCode, cwd := fields.getD 3 [] }
  else .error "unknown command marker type"

structure CommandProtocol where
  pendingField : Bytes := []
  fields : List Bytes := []
  deriving DecidableEq

/-- The loop body of `CommandProtocol::consume`. -/
def CommandProtocol.consumeByte (protocol : CommandProtocol) (byte : UInt8) :
    Except Failure (CommandProtocol × List CommandMarker) :=
  if byte ≠ 0 then
    if protocol.pendingField.length = kMaximumFieldBytes then
      .error "command marker field exceeds 64 KiB"
    else
      .ok ({ protocol with pendingField := protocol.pendingField ++ [byte] }, [])
  else
    let fields := protocol.fields ++ [protocol.pendingField]
    if fields.length = kProtocolFields then
      match decodeRecord fields with
      | .error e => .error e
      | .ok marker => .ok ({ pendingField := [], fields := [] }, [marker])
    else .ok ({ pendingField := [], fields }, [])

def CommandProtocol.consume (protocol : CommandProtocol) (bytes : Bytes) :
    Except Failure (CommandProtocol × List CommandMarker) :=
  Transducer.run consumeByte protocol bytes

def CommandProtocol.finish (protocol : CommandProtocol) : Except Failure Unit :=
  if protocol.pendingField ≠ [] ∨ protocol.fields ≠ [] then
    .error "incomplete command marker"
  else .ok ()

/-! ### The shell functions

The four `__whyrun_` variables are shell integers; `BashSession` puts them
in the environment as `0`. Bash computes with signed 64-bit numbers that
wrap around, and `%s` prints their decimal text. -/

structure ShellState where
  atPrompt : Int64 := 0
  skipDebug : Int64 := 0
  sequence : Int64 := 0
  activeCommand : Int64 := 0
  deriving DecidableEq

/-- A field and its terminator. -/
def field (text : Bytes) : Bytes := text ++ [0]

/-- `kPromptFunction`, called with the last exit status in a working
directory: the new variables and the bytes printed to the channel. -/
def whyrunPrompt (shell : ShellState) (status : UInt8) (pwd : Bytes) :
    ShellState × Bytes :=
  let ended :=
    if 0 < shell.activeCommand then
      field (lit "E") ++ field (decimal shell.activeCommand.toInt) ++
        field (decimal status.toNat) ++ field pwd
    else []
  let sequence := shell.sequence + 1
  ({ shell with sequence, activeCommand := sequence, atPrompt := 1, skipDebug := 1 },
    ended ++ field (lit "A") ++ field (decimal sequence.toInt) ++ field pwd ++ field [])

/-- `kStartFunction`, run by the `DEBUG` trap: `history` is what
`history 1` prints. -/
def whyrunStart (shell : ShellState) (pwd history : Bytes) : ShellState × Bytes :=
  if 0 < shell.skipDebug then
    ({ shell with skipDebug := shell.skipDebug - 1 }, [])
  else if shell.atPrompt ≠ 0 then
    ({ shell with atPrompt := 0 },
      field (lit "S") ++ field (decimal shell.activeCommand.toInt) ++ field pwd ++
        field history)
  else (shell, [])

/-- What `history 1` prints for a command text after its prefix. -/
def historyLine (before text : Bytes) : Bytes := before ++ historyPrefix :: (text ++ [10])

/-- A call of one of the two functions. -/
inductive ShellCall
  | prompt (status : UInt8) (pwd : Bytes)
  | start (pwd before text : Bytes)
  deriving DecidableEq

def shellStep (shell : ShellState) : ShellCall → ShellState × Bytes
  | .prompt status pwd => whyrunPrompt shell status pwd
  | .start pwd before text => whyrunStart shell pwd (historyLine before text)

/-- The variables after some calls, and all the bytes that these printed. -/
def shellRun : ShellState → List ShellCall → ShellState × Bytes
  | shell, [] => (shell, [])
  | shell, call :: calls =>
      let (shell', printed) := shellStep shell call
      let (shell'', rest) := shellRun shell' calls
      (shell'', printed ++ rest)

end Whyrun
