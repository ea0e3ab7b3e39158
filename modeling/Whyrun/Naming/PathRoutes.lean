import Whyrun.Execution.Calls
import Whyrun.Execution.Runs
import Whyrun.Naming.ResolvedPaths

/-!
The routes to a file below a directory: by the joined path, after `chdir`,
through a descriptor of the directory, through a duplicate of it, and after
`fchdir`. Each route records the file under the normal form of the joined
path.
-/

namespace Whyrun

open ByteText LexicalPath ExecutionState

/-- Sign extension from 32 bits keeps the bits below. -/
theorem signExtended_and_oDirectory (x : UInt64) :
    (asInt x).toInt64.toUInt64 &&& oDirectory = x &&& oDirectory := by
  have hextend : (asInt x).toInt64.toUInt64.toBitVec = (x.toBitVec.setWidth 32).signExtend 64 := rfl
  have hmask : oDirectory.toBitVec = BitVec.twoPow 64 16 := by decide
  apply UInt64.toBitVec_inj.mp
  rw [UInt64.toBitVec_and, UInt64.toBitVec_and, hextend, hmask]
  ext i hi
  rw [BitVec.getElem_and, BitVec.getElem_and, BitVec.getElem_twoPow]
  by_cases h16 : i = 16
  · subst h16
    rw [BitVec.getElem_signExtend, dif_pos (by decide), BitVec.getElem_setWidth]
    rfl
  · simp [h16]

/-! ### Kinds of calls -/

namespace FinishedCall

/-- The call opens a path below a descriptor; `open` and `openat` with
`AT_FDCWD` open it below the working directory. -/
inductive Opens (c : FinishedCall) (dirfd : Int32) (path : Bytes) : Prop
  | open (number : c.call.number = nrOpen) (here : dirfd = atFdcwd)
      (readable : c.memory.readString c.call.tid (arg0 c.call.args) = path)
  | openat (number : c.call.number = nrOpenat ∨ c.call.number = nrOpenat2)
      (base : asInt (arg0 c.call.args) = dirfd)
      (readable : c.memory.readString c.call.tid (arg1 c.call.args) = path)

/-- The flags that the caller asks for. -/
def openFlags (c : FinishedCall) : UInt64 :=
  if c.call.number = nrOpen then arg1 c.call.args else openatFlags c.memory c.call

/-- The call returns the descriptor. -/
structure Returns (c : FinishedCall) (fd : Int32) : Prop where
  result : c.call.result = fd.toInt64
  nonneg : 0 ≤ fd

/-- A successful open of a directory with `O_DIRECTORY`. -/
structure OpensDirectory (c : FinishedCall) (path : Bytes) (fd : Int32) : Prop where
  opens : ∃ dirfd, c.Opens dirfd path
  directory : c.openFlags &&& oDirectory ≠ 0
  returns : c.Returns fd

structure Duplicates (c : FinishedCall) (old new : Int32) : Prop where
  number : c.call.number = nrDup ∨ c.call.number = nrDup2 ∨ c.call.number = nrDup3
  source : asInt (arg0 c.call.args) = old
  returns : c.Returns new

structure Chdirs (c : FinishedCall) (path : Bytes) : Prop where
  number : c.call.number = nrChdir
  success : c.call.result = 0
  readable : c.memory.readString c.call.tid (arg0 c.call.args) = path

structure Fchdirs (c : FinishedCall) (fd : Int32) : Prop where
  number : c.call.number = nrFchdir
  success : c.call.result = 0
  source : asInt (arg0 c.call.args) = fd

/-! ### What they do -/

variable {c : FinishedCall} {fd dirfd : Int32} {path : Bytes}

theorem Returns.nonneg_result (h : c.Returns fd) : 0 ≤ c.call.result := by
  rw [h.result, Int64.le_iff_toInt_le, Int32.toInt_toInt64]
  exact Int32.le_iff_toInt_le.mp h.nonneg

theorem Returns.toInt32_result (h : c.Returns fd) : c.call.result.toInt32 = fd := by
  rw [h.result, Int32.toInt32_toInt64]

theorem Returns.ne_atFdcwd (h : c.Returns fd) : fd ≠ atFdcwd := by
  rintro rfl
  exact absurd h.nonneg (by decide)

theorem exit_opens (h : c.Opens dirfd path) (hpath : path ≠ []) (P : ProcessState) :
    ∃ flags metadata, flags &&& oDirectory = c.openFlags &&& oDirectory ∧
      c.exit P = (installFile P c.call.result (resolvePath P dirfd path) flags,
        some (makeEvent P c.call .fileOpen (resolvePath P dirfd path) metadata)) := by
  cases h with
  | «open» number here readable =>
      have hread : readPath c.memory c.call.tid (arg0 c.call.args) = path := by
        rw [readPath, readable]
        exact if_neg hpath
      have hflags : c.openFlags = arg1 c.call.args := if_pos number
      rw [FinishedCall.exit, syscallExit, if_pos number, openExit, hread, here, hflags]
      exact ⟨_, _, signExtended_and_oDirectory _, rfl⟩
  | openat number base readable =>
      have hread : readPath c.memory c.call.tid (arg1 c.call.args) = path := by
        rw [readPath, readable]
        exact if_neg hpath
      have hopen : c.call.number ≠ nrOpen := by rcases number with h | h <;> rw [h] <;> decide
      have hflags : c.openFlags = openatFlags c.memory c.call := if_neg hopen
      rw [FinishedCall.exit, syscallExit, if_neg hopen, if_pos number, openatExit, hread, base,
        hflags]
      exact ⟨_, _, rfl, rfl⟩

/-- An opened directory is remembered under its normal form. -/
theorem exit_opensDirectory (h : c.OpensDirectory path fd) (hpath : isAbsolute path = true)
    (P : ProcessState) :
    (c.exit P).1.fdTable fd = some ⟨.file, normalizePath path, true⟩ := by
  obtain ⟨dirfd, hopens⟩ := h.opens
  have hne : path ≠ [] := by
    rintro rfl
    contradiction
  obtain ⟨flags, metadata, hflags, hexit⟩ := exit_opens hopens hne P
  rw [hexit, installFile, if_pos h.returns.nonneg_result, h.returns.toInt32_result, hflags,
    resolvePath_of_isAbsolute hpath]
  simp [ProcessState.setFd, h.directory]

theorem exit_duplicates {new : Int32} (h : c.Duplicates fd new) (P : ProcessState) :
    (c.exit P).1.fdTable new = P.fdTable fd := by
  have hsuccess : ¬ c.call.result < 0 := Int64.not_lt.mpr h.returns.nonneg_result
  rw [FinishedCall.exit, syscallExit_dup h.number, dupExit, if_neg hsuccess,
    h.returns.toInt32_result, h.source]
  simp [ProcessState.setFd]

theorem exit_chdirs (h : c.Chdirs path) (hpath : isAbsolute path = true) (P : ProcessState) :
    (c.exit P).1.cwd = normalizePath path := by
  have hne : path ≠ [] := by
    rintro rfl
    contradiction
  rw [FinishedCall.exit, syscallExit_chdir h.number h.success, chdirExit, h.readable,
    if_pos hne, resolvePath_of_isAbsolute hpath]

theorem exit_fchdirs (h : c.Fchdirs fd) {P : ProcessState} {name : Bytes} {isDirectory : Bool}
    (hfd : P.fdTable fd = some ⟨.file, name, isDirectory⟩) : (c.exit P).1.cwd = name := by
  rw [FinishedCall.exit, syscallExit_fchdir h.number h.success, fchdirExit, h.source, hfd]
  rfl

end FinishedCall

/-! ### Routes -/

/-- The calls by which a process opens `path` below `directory`. -/
inductive Route (directory path : Bytes) : List FinishedCall → Prop
  | joined {o : FinishedCall} {dirfd : Int32}
      (opens : o.Opens dirfd (directory ++ separator :: path)) : Route directory path [o]
  | chdir {c o : FinishedCall} (chdirs : c.Chdirs directory) (opens : o.Opens atFdcwd path) :
      Route directory path [c, o]
  | openat {d o : FinishedCall} {fd : Int32} (opened : d.OpensDirectory directory fd)
      (opens : o.Opens fd path) : Route directory path [d, o]
  | duplicate {d c o : FinishedCall} {fd new : Int32} (opened : d.OpensDirectory directory fd)
      (duplicates : c.Duplicates fd new) (opens : o.Opens new path) :
      Route directory path [d, c, o]
  | fchdir {d c o : FinishedCall} {fd : Int32} (opened : d.OpensDirectory directory fd)
      (fchdirs : c.Fchdirs fd) (opens : o.Opens atFdcwd path) : Route directory path [d, c, o]

/-- The last call records `name`: in its event and, when it succeeds, in
the entry of the descriptor it returns. -/
structure RecordsName (P : ProcessState) (calls : List FinishedCall) (name : Bytes) : Prop where
  event : ∃ e, (FinishedCall.run P calls).2.getLast? = some e ∧ e.type = .fileOpen ∧
    e.resource = name
  entry : ∀ o ∈ calls.getLast?, 0 ≤ o.call.result →
    ∃ isDirectory, (FinishedCall.run P calls).1.fdTable o.call.result.toInt32 =
      some ⟨.file, name, isDirectory⟩

section routes

variable {directory path : Bytes} {calls : List FinishedCall} {P : ProcessState}

theorem recordsName_opens {o : FinishedCall} {dirfd : Int32} (h : o.Opens dirfd path)
    (hpath : path ≠ []) (before : List FinishedCall) :
    RecordsName P (before ++ [o]) (resolvePath (FinishedCall.run P before).1 dirfd path) := by
  obtain ⟨flags, metadata, -, hexit⟩ :=
    FinishedCall.exit_opens h hpath (FinishedCall.run P before).1
  refine ⟨?_, ?_⟩
  · rw [FinishedCall.run_concat, hexit]
    exact ⟨_, List.getLast?_concat, rfl, rfl⟩
  · intro o' ho' hresult
    rw [List.getLast?_concat, Option.mem_some] at ho'
    subst ho'
    refine ⟨flags &&& oDirectory ≠ 0, ?_⟩
    rw [FinishedCall.run_concat, hexit, installFile, if_pos hresult]
    simp [ProcessState.setFd]

/-- Every route records the normal form of the joined path. -/
theorem Route.recordsName (h : Route directory path calls)
    (hdirectory : isAbsolute directory = true) (hpath : path ≠ [])
    (hrelative : isAbsolute path = false) (P : ProcessState) :
    RecordsName P calls (normalizePath (directory ++ separator :: path)) := by
  -- what is left of each route when its base has been resolved
  have hjoin := normalizePath_join_normalizePath hdirectory path
  cases h with
  | joined opens =>
      have hrecords := recordsName_opens (P := P) opens (by simp) []
      rwa [resolvePath_of_isAbsolute (isAbsolute_append hdirectory _)] at hrecords
  | @chdir c o chdirs opens =>
      have hrecords := recordsName_opens (P := P) opens hpath [c]
      rwa [resolvePath_atFdcwd hpath hrelative, FinishedCall.run_singleton,
        FinishedCall.exit_chdirs chdirs hdirectory, hjoin] at hrecords
  | @openat d o fd opened opens =>
      have hrecords := recordsName_opens (P := P) opens hpath [d]
      have hfd : (FinishedCall.run P [d]).1.fdTable fd =
          some ⟨.file, normalizePath directory, true⟩ :=
        FinishedCall.exit_opensDirectory opened hdirectory P
      rwa [resolvePath_directory hpath hrelative opened.returns.ne_atFdcwd hfd, hjoin] at hrecords
  | @duplicate d c o fd new opened duplicates opens =>
      have hrecords := recordsName_opens (P := P) opens hpath [d, c]
      have hnew : (FinishedCall.run P [d, c]).1.fdTable new =
          some ⟨.file, normalizePath directory, true⟩ :=
        (FinishedCall.exit_duplicates duplicates (d.exit P).1).trans
          (FinishedCall.exit_opensDirectory opened hdirectory P)
      rwa [resolvePath_directory hpath hrelative duplicates.returns.ne_atFdcwd hnew, hjoin]
        at hrecords
  | @fchdir d c o fd opened fchdirs opens =>
      have hrecords := recordsName_opens (P := P) opens hpath [d, c]
      have hcwd : (FinishedCall.run P [d, c]).1.cwd = normalizePath directory :=
        FinishedCall.exit_fchdirs fchdirs (FinishedCall.exit_opensDirectory opened hdirectory P)
      rwa [resolvePath_atFdcwd hpath hrelative, hcwd, hjoin] at hrecords

end routes

/-- All routes to a file record one name, whatever the state and the working
directory in which they are taken: the last event has it, and the descriptor
that a successful last call returns. -/
theorem routes_record_one_name {directory path : Bytes} {σ : ExecutionState} {p : Pid}
    {calls : List FinishedCall} (hdirectory : isAbsolute directory = true) (hpath : path ≠ [])
    (hrelative : isAbsolute path = false) (hprocess : (σ.processes p).isSome = true)
    (htasks : ∀ c ∈ calls, σ.processForThread c.call.tid = p)
    (hroute : Route directory path calls) :
    ∃ τ es, Transducer.run notify σ (calls.map FinishedCall.notification) = .ok (τ, es) ∧
      (∃ e, es.getLast? = some e ∧ e.type = .fileOpen ∧
        e.resource = normalizePath (directory ++ separator :: path)) ∧
      ∀ o ∈ calls.getLast?, 0 ≤ o.call.result →
        ∃ Q isDirectory, τ.processes p = some Q ∧ Q.fdTable o.call.result.toInt32 =
          some ⟨.file, normalizePath (directory ++ separator :: path), isDirectory⟩ := by
  obtain ⟨P, hP⟩ := Option.isSome_iff_exists.mp hprocess
  obtain ⟨τ, es, hrun, hτ, hes⟩ := run_calls htasks hP
  have hrecords := hroute.recordsName hdirectory hpath hrelative P
  obtain ⟨e, hlast, htype, hresource⟩ := hrecords.event
  refine ⟨τ, es, hrun, ?_, ?_⟩
  · have hlast' := congrArg List.getLast? hes
    rw [List.getLast?_map, List.getLast?_map, hlast] at hlast'
    obtain ⟨e', he', hsame⟩ := Option.map_eq_some_iff.mp hlast'
    exact ⟨e', he', (congrArg Event.type hsame).trans htype,
      (congrArg Event.resource hsame).trans hresource⟩
  · intro o ho hresult
    obtain ⟨isDirectory, hentry⟩ := hrecords.entry o ho hresult
    exact ⟨_, isDirectory, hτ, hentry⟩

/-- Two paths by their address. -/
def pathMemory : TraceeMemory :=
  { sampleMemory with
    readString := fun _ address => if address = 1 then lit "/srv/./a/" else lit "../b//c/" }

def pathCall (number : Int64) (first second : UInt64) (result : Int64) : FinishedCall :=
  ⟨pathMemory, { pid := 7, tid := 7, number, args := #v[first, second, 0x1a4, 0, 0, 0]
                 result, timestampNs := 0 }⟩

/-- A directory is opened, entered by its descriptor, and `../b//c/` opened
there. -/
def sampleRoute : List FinishedCall :=
  [pathCall nrOpen 1 oDirectory 3, pathCall nrFchdir 3 0 0, pathCall nrOpen 2 0 4]

theorem sampleRoute_isRoute : Route (lit "/srv/./a/") (lit "../b//c/") sampleRoute := by
  have hopened : (pathCall nrOpen 1 oDirectory 3).OpensDirectory (lit "/srv/./a/") 3 :=
    ⟨⟨_, .open rfl rfl rfl⟩, by decide, by decide, by decide⟩
  exact .fchdir hopened ⟨rfl, rfl, by decide⟩ (.open rfl rfl rfl)

theorem routes_record_one_name_sample :
    ∃ τ es, Transducer.run notify (initialState 7 (lit "/home") none 0)
        (sampleRoute.map FinishedCall.notification) = .ok (τ, es) ∧
      ∃ e, es.getLast? = some e ∧ e.resource = lit "/srv/b/c" := by
  have hprocess : ((initialState 7 (lit "/home") none 0).processes 7).isSome = true := by
    rw [initialState_processes]
    rfl
  have htasks : ∀ c ∈ sampleRoute,
      (initialState 7 (lit "/home") none 0).processForThread c.call.tid = 7 := by
    intro c hc
    simp only [sampleRoute, List.mem_cons, List.not_mem_nil, or_false] at hc
    rcases hc with rfl | rfl | rfl <;> rfl
  obtain ⟨τ, es, hrun, ⟨e, hlast, -, hresource⟩, -⟩ := routes_record_one_name (by decide)
    (by decide) (by decide) hprocess htasks sampleRoute_isRoute
  exact ⟨τ, es, hrun, e, hlast, hresource.trans (by decide)⟩

end Whyrun
