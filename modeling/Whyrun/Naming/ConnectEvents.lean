import Whyrun.Execution.Calls
import Whyrun.Execution.Runs

/-!
The events of finished `connect` calls. The kernel takes IPv6 addresses without
the scope field, 24 bytes long; the code decodes none below the full 28 bytes,
and no IPv4 address below 16 bytes.
-/

namespace Whyrun

open ByteText

/-- The families whose connections are recorded. -/
inductive AddressFamily
  | inet
  | inet6
  | unix
  deriving DecidableEq

namespace AddressFamily

def code : AddressFamily → ℕ
  | inet => afInet
  | inet6 => afInet6
  | unix => afUnix

def eventType : AddressFamily → EventType
  | inet | inet6 => .networkConnect
  | unix => .localIpcConnect

def name : AddressFamily → Bytes
  | inet => lit "inet"
  | inet6 => lit "inet6"
  | unix => lit "unix"

/-- The size of the family's address type. -/
def size : AddressFamily → ℕ
  | inet => 16
  | inet6 => 28
  | unix => 110

/-- The kernel takes no shorter address of the family. -/
def shortest : AddressFamily → ℕ
  | inet => 16
  | inet6 => 24
  | unix => 2

/-- The code decodes no shorter address of the family. -/
def decoded : AddressFamily → ℕ
  | inet => 16
  | inet6 => 28
  | unix => 2

/-- The endpoint that the bytes of an address denote. -/
def endpoint : AddressFamily → Bytes → Bytes
  | inet, address => inetNtop4 ((address.drop 4).take 4) ++ lit ":" ++ portText address
  | inet6, address =>
      lit "[" ++ inetNtop6 ((address.drop 8).take 16) ++ lit "]:" ++ portText address
  | unix, address => renderUnixName (address.drop 2)

end AddressFamily

variable {memory : TraceeMemory} {call : RawSyscall} {family : AddressFamily}

/-- A finished `connect` whose address is of a family. -/
structure ConnectsTo (memory : TraceeMemory) (call : RawSyscall) (family : AddressFamily) :
    Prop where
  number : call.number = nrConnect
  address : arg1 call.args ≠ 0
  length : 2 ≤ (arg2 call.args).toNat
  family : ∃ bytes, memory.readBytes call.tid (arg1 call.args) 2 = some bytes ∧
    littleEndian bytes = family.code

/-- The error number of a result as the kernel encodes it. -/
structure ErrnoOf (result : Int64) (errno : Int32) : Prop where
  failed : -4095 ≤ result.toInt → result.toInt < 0 → errno.toInt = -result.toInt
  succeeded : result.toInt < -4095 ∨ 0 ≤ result.toInt → errno = 0

/-- What the event of a `connect` shows: the endpoint too, where the kernel takes
an address of that length and the address can be read. -/
structure ShowsConnect (memory : TraceeMemory) (call : RawSyscall) (family : AddressFamily)
    (e : Event) : Prop where
  type : e.type = family.eventType
  result : e.result = call.result
  errno : ErrnoOf call.result e.errnoValue
  endpoint : family.shortest ≤ (arg2 call.args).toNat → ∀ address,
    memory.readBytes call.tid (arg1 call.args) (min (arg2 call.args).toNat family.size) =
      some address → e.resource = family.endpoint address

theorem errnoOf_syscallErrno (result : Int64) : ErrnoOf result (syscallErrno result) := by
  constructor
  · intro hlow hneg
    rw [toInt_syscallErrno, if_pos ⟨hneg, hlow⟩]
  · intro hout
    apply Int32.toInt_inj.mp
    rw [toInt_syscallErrno, if_neg (by omega)]
    rfl

/-- The endpoint of an address long enough to be decoded, and nothing for a
shorter one. -/
theorem ConnectsTo.socketEndpoint_eq (h : ConnectsTo memory call family) :
    socketEndpoint memory call.tid (arg1 call.args) (arg2 call.args) =
      if family.decoded ≤ (arg2 call.args).toNat then
        some ⟨family.eventType,
          (memory.readBytes call.tid (arg1 call.args)
            (min (arg2 call.args).toNat family.size)).elim
              (unreadableAddress (arg1 call.args)) family.endpoint, family.name⟩
      else none := by
  obtain ⟨bytes, hread, hcode⟩ := h.family
  have hvalid : ¬ (arg1 call.args = 0 ∨ (arg2 call.args).toNat < 2) := by
    have := h.length
    simp [h.address]
    omega
  rw [socketEndpoint, if_neg hvalid, hread]
  dsimp only
  rw [hcode]
  cases family with
  | inet =>
      by_cases hlong : 16 ≤ (arg2 call.args).toNat
      · rw [if_pos ⟨rfl, hlong⟩, AddressFamily.decoded, if_pos hlong, AddressFamily.size,
          Nat.min_eq_right hlong]
        cases memory.readBytes call.tid (arg1 call.args) 16 <;> rfl
      · rw [if_neg (fun hif => hlong hif.2), if_neg (fun hif => absurd hif.1 (by decide)),
          if_neg (by decide), AddressFamily.decoded, if_neg hlong]
  | inet6 =>
      by_cases hlong : 28 ≤ (arg2 call.args).toNat
      · rw [if_neg (fun hif => absurd hif.1 (by decide)), if_pos ⟨rfl, hlong⟩,
          AddressFamily.decoded, if_pos hlong, AddressFamily.size, Nat.min_eq_right hlong]
        cases memory.readBytes call.tid (arg1 call.args) 28 <;> rfl
      · rw [if_neg (fun hif => absurd hif.1 (by decide)), if_neg (fun hif => hlong hif.2),
          if_neg (by decide), AddressFamily.decoded, if_neg hlong]
  | unix =>
      rw [if_neg (fun hif => absurd hif.1 (by decide)),
        if_neg (fun hif => absurd hif.1 (by decide)),
        if_pos (show AddressFamily.unix.code = afUnix from rfl), AddressFamily.decoded,
        if_pos h.length, AddressFamily.size]
      cases memory.readBytes call.tid (arg1 call.args) (min (arg2 call.args).toNat 110) <;> rfl

/-- A `connect` shows the endpoint that was decoded, and nothing else. -/
theorem connectExit_event (memory : TraceeMemory) (P : ProcessState) (call : RawSyscall) :
    (connectExit memory P call).2 =
      (socketEndpoint memory call.tid (arg1 call.args) (arg2 call.args)).map fun endpoint =>
        makeEvent P call endpoint.eventType endpoint.resource
          [(lit "operation", lit "connect"), (lit "fd", decimal (asInt (arg0 call.args)).toInt),
            (lit "family", endpoint.familyName)] := by
  rw [connectExit]
  cases socketEndpoint memory call.tid (arg1 call.args) (arg2 call.args) with
  | none => rfl
  | some endpoint =>
      dsimp only
      rw [Option.map_some]
      cases P.fdTable (asInt (arg0 call.args)) with
      | none => rfl
      | some resource =>
          dsimp only
          split <;> rfl

theorem syscallExit_connect (P : ProcessState) (h : call.number = nrConnect) :
    syscallExit memory P call = connectExit memory P call := by
  rw [syscallExit, h]
  rfl

namespace ExecutionState

variable {σ : ExecutionState} {P : ProcessState}

theorem onSyscallExit_connect (h : ConnectsTo memory call family)
    (hP : σ.processes (σ.processForThread call.tid) = some P) :
    (σ.onSyscallExit memory call).2 =
      if family.decoded ≤ (arg2 call.args).toNat then
        [σ.emit (makeEvent P call family.eventType
          ((memory.readBytes call.tid (arg1 call.args)
            (min (arg2 call.args).toNat family.size)).elim
              (unreadableAddress (arg1 call.args)) family.endpoint)
          [(lit "operation", lit "connect"), (lit "fd", decimal (asInt (arg0 call.args)).toInt),
            (lit "family", family.name)])]
      else [] := by
  rw [onSyscallExit]
  dsimp only
  rw [hP]
  dsimp only
  rw [syscallExit_connect P h.number, connectExit_event, h.socketEndpoint_eq]
  split <;> rfl

/-- `emit` fills in the command and keeps what the event shows. -/
theorem showsConnect_emit {e : Event} (h : ShowsConnect memory call family e) :
    ShowsConnect memory call family (σ.emit e) := by
  have hsame := emit_uncommanded σ e
  simp only [Event.mk.injEq, and_true] at hsame
  obtain ⟨-, -, -, htype, hresource, hresult, herrno, -⟩ := hsame
  constructor
  · rw [htype, h.type]
  · rw [hresult, h.result]
  · rw [herrno]
    exact h.errno
  · rw [hresource]
    exact h.endpoint

/-- A `connect` of a known process is recorded exactly when its address is long
enough to be decoded. -/
theorem connect_recorded_iff (hP : (σ.processes (σ.processForThread call.tid)).isSome)
    (h : ConnectsTo memory call family) :
    (∃ e, (σ.onSyscallExit memory call).2 = [e] ∧ ShowsConnect memory call family e) ↔
      (family = .inet → 16 ≤ (arg2 call.args).toNat) ∧
        (family = .inet6 → 28 ≤ (arg2 call.args).toNat) := by
  obtain ⟨P, hP⟩ := Option.isSome_iff_exists.mp hP
  have hlength := h.length
  have hdecoded : ((family = .inet → 16 ≤ (arg2 call.args).toNat) ∧
      (family = .inet6 → 28 ≤ (arg2 call.args).toNat)) ↔
        family.decoded ≤ (arg2 call.args).toNat := by
    cases family <;> simp [AddressFamily.decoded, hlength]
  rw [hdecoded, onSyscallExit_connect h hP]
  constructor
  · rintro ⟨e, he, -⟩
    by_contra hshort
    rw [if_neg hshort] at he
    cases he
  · intro hlong
    rw [if_pos hlong]
    refine ⟨_, rfl, showsConnect_emit ?_⟩
    constructor
    · rfl
    · rfl
    · exact errnoOf_syscallErrno call.result
    · intro _ address haddress
      rw [haddress]
      rfl

/-- The IPv6 address `[::1]:80`; its last four bytes are the scope field. -/
def sampleAddress : Bytes :=
  [10, 0, 0, 80, 0, 0, 0, 0] ++ List.replicate 15 0 ++ [1, 0, 0, 0, 0]

def sampleAddressMemory : TraceeMemory := sampleMemoryOf [] sampleAddress

/-- Task 7 has connected to the address, given with this length. -/
def sampleConnect (length : UInt64) : RawSyscall :=
  { pid := 7, tid := 7, number := nrConnect, args := #v[3, 0x1000, length, 0, 0, 0], result := 0
    timestampNs := 5 }

theorem connectsTo_sampleConnect {length : UInt64} (h : 2 ≤ length.toNat) :
    ConnectsTo sampleAddressMemory (sampleConnect length) .inet6 where
  number := rfl
  address := by
    show (0x1000 : UInt64) ≠ 0
    decide
  length := h
  family := ⟨[10, 0], rfl, rfl⟩

def sampleRoot : ExecutionState := (addInitialProcess 7 (lit "/work") none 1).1

theorem connect_recorded_sampleConnect :
    ∃ e, (sampleRoot.onSyscallExit sampleAddressMemory (sampleConnect 28)).2 = [e] ∧
      ShowsConnect sampleAddressMemory (sampleConnect 28) .inet6 e ∧
      e.resource = lit "[::1]:80" := by
  have hconnects := connectsTo_sampleConnect (show 2 ≤ (28 : UInt64).toNat by decide)
  obtain ⟨e, he, hshows⟩ := (connect_recorded_iff (σ := sampleRoot) rfl hconnects).mpr (by decide)
  have hread : sampleAddressMemory.readBytes 7 0x1000 28 = some sampleAddress := by decide
  exact ⟨e, he, hshows, hshows.endpoint (by decide) _ hread⟩

/-- The kernel accepts the address without its scope field, and no event is
emitted. -/
theorem sampleConnect_not_recorded :
    ConnectsTo sampleAddressMemory (sampleConnect 24) .inet6 ∧
      AddressFamily.inet6.shortest ≤ (arg2 (sampleConnect 24).args).toNat ∧
      (sampleConnect 24).result = 0 ∧
      (sampleRoot.onSyscallExit sampleAddressMemory (sampleConnect 24)).2 = [] := by
  have h := connectsTo_sampleConnect (show 2 ≤ (24 : UInt64).toNat by decide)
  refine ⟨h, by decide, rfl, ?_⟩
  rw [onSyscallExit_connect h rfl]
  decide

end ExecutionState

end Whyrun
