import Whyrun.Execution.Calls
import Whyrun.Execution.Runs
import Whyrun.Naming.ResolvedPaths

/-!
Recorded paths are canonical or show that they are unresolved, as long as no
relative path climbs out of a directory that is itself unresolved: there the
normal form drops the placeholder with the components that `..` removes.
-/

namespace Whyrun

open ByteText LexicalPath ExecutionState

/-- How the name of an unresolved path begins. -/
def dirfdMarker : Bytes := lit "<dirfd:"

def Recognizable (path : Bytes) : Prop := Canonical path ∨ dirfdMarker <+: path

/-- The names of the paths that a process would resolve others against. -/
structure ProcessState.PathsRecognizable (P : ProcessState) : Prop where
  cwd : Recognizable P.cwd
  files : ∀ fd resource, P.fdTable fd = some resource → resource.type = .file →
    Recognizable resource.name

/-! ### Which paths a call resolves -/

/-- The directory that a relative path is joined to. -/
def ProcessState.base (P : ProcessState) (dirfd : Int32) : Option Bytes :=
  if dirfd = atFdcwd then some P.cwd
  else
    match P.fdTable dirfd with
    | none => none
    | some resource =>
        if resource.type = .file ∧ resource.isDirectory then some resource.name else none

/-- The descriptor and the path that a call resolves. -/
def FinishedCall.resolved (c : FinishedCall) : Option (Int32 × Bytes) :=
  if c.call.number = nrOpen then
    some (atFdcwd, readPath c.memory c.call.tid (arg0 c.call.args))
  else if c.call.number = nrOpenat ∨ c.call.number = nrOpenat2 then
    some (asInt (arg0 c.call.args), readPath c.memory c.call.tid (arg1 c.call.args))
  else if (c.call.number = nrChdir ∧ c.call.result = 0) ∧
      c.memory.readString c.call.tid (arg0 c.call.args) ≠ [] then
    some (atFdcwd, c.memory.readString c.call.tid (arg0 c.call.args))
  else none

/-- A relative path is not resolved against an unresolved directory in such a
way that the `..` of the two joined climb past the placeholder, be they of the
path or already of the directory's name. -/
def StaysInside (P : ProcessState) (dirfd : Int32) (path : Bytes) : Prop :=
  ∀ base, P.base dirfd = some base → isAbsolute path = false → dirfdMarker <+: base →
    climbsOut 0 (names (join base path)) = false

/-! ### One resolution -/

section resolve

variable {P : ProcessState} {dirfd : Int32} {path : Bytes}

theorem resolvePath_relative (P : ProcessState) (dirfd : Int32) (hpath : path ≠ [])
    (hrelative : isAbsolute path = false) :
    (∃ base, P.base dirfd = some base ∧
      resolvePath P dirfd path = normalizePath (join base path)) ∨
    (P.base dirfd = none ∧ dirfdMarker <+: resolvePath P dirfd path) := by
  have hmarker : dirfdMarker <+: lit "<dirfd:" ++ decimal dirfd.toInt ++ lit ">/" ++ path := by
    rw [List.append_assoc, List.append_assoc]
    exact List.prefix_append _ _
  rw [resolvePath, if_neg hpath, hrelative, if_neg Bool.false_ne_true, ProcessState.base]
  split
  · exact .inl ⟨_, rfl, rfl⟩
  · cases P.fdTable dirfd with
    | none => exact .inr ⟨rfl, hmarker⟩
    | some resource =>
        dsimp only
        split
        · exact .inl ⟨_, rfl, rfl⟩
        · exact .inr ⟨rfl, hmarker⟩

theorem prefix_normalizePath {text path : Bytes} (hsep : separator ∉ text)
    (h : text <+: lexicallyNormal path) : text <+: normalizePath path := by
  unfold normalizePath
  dsimp only
  split
  · rename_i hlast
    obtain ⟨init, hinit⟩ := List.getLast?_eq_some_iff.mp hlast.2
    rw [hinit, List.dropLast_concat]
    rw [hinit, List.prefix_concat_iff] at h
    rcases h with rfl | h
    · simp at hsep
    · exact h
  · exact h

/-- A path that stays inside an unresolved directory keeps its marker. -/
theorem marker_normalizePath {base : Bytes} (hbase : dirfdMarker <+: base)
    (h : climbsOut 0 (names (join base path)) = false) :
    dirfdMarker <+: normalizePath (join base path) := by
  have hjoin : dirfdMarker <+: join base path := by
    unfold join
    split
    · exact hbase.trans (List.prefix_append _ _)
    · exact hbase.trans (List.prefix_append _ _)
  -- the first name is the placeholder, which no `..` reaches
  obtain ⟨rest, more, hnames⟩ := names_of_prefix (by decide) (by decide) hjoin
  have hfirst : Plain (dirfdMarker ++ rest) := by
    have hmem : dirfdMarker ++ rest ∈ names (join base path) := by simp [hnames]
    obtain ⟨hne, hsep⟩ := names_spec hmem
    refine ⟨hne, fun hdot => ?_, fun hdotDot => ?_, hsep⟩
    · exact absurd (List.cons.inj hdot).1 (by decide)
    · exact absurd (List.cons.inj hdotDot).1 (by decide)
  have hrelative : isAbsolute (join base path) = false := by
    obtain ⟨tail, htail⟩ := hjoin
    rw [← htail]
    rfl
  have hnormal := prefix_lexicallyNormal hrelative hnames hfirst h
  exact prefix_normalizePath (by decide) ((List.prefix_append _ _).trans hnormal)

theorem recognizable_resolvePath (hP : P.PathsRecognizable) (hpath : path ≠ [])
    (hinside : StaysInside P dirfd path) : Recognizable (resolvePath P dirfd path) := by
  cases habsolute : isAbsolute path with
  | true =>
      rw [resolvePath_of_isAbsolute habsolute]
      exact .inl (canonical_normalizePath habsolute)
  | false =>
      rcases resolvePath_relative P dirfd hpath habsolute with
        ⟨base, hbase, heq⟩ | ⟨-, hmarker⟩
      · have hrecognizable : Recognizable base := by
          unfold ProcessState.base at hbase
          split at hbase
          · rw [← Option.some.inj hbase]
            exact hP.cwd
          · split at hbase
            · contradiction
            · rename_i resource hfd
              split at hbase
              · rename_i hdirectory
                rw [← Option.some.inj hbase]
                exact hP.files _ _ hfd hdirectory.1
              · contradiction
        rw [heq]
        rcases hrecognizable with hcanonical | hmarker
        · exact .inl (canonical_normalizePath (isAbsolute_join hcanonical.isAbsolute _))
        · exact .inr (marker_normalizePath hmarker (hinside base hbase habsolute hmarker))
      · exact .inr hmarker

end resolve

/-! ### One call -/

def EventType.isFile : EventType → Bool
  | .fileOpen | .fileRead | .fileWrite => true
  | _ => false

/-- What a call keeps of the paths of its process, and what its event says. -/
structure CallRecognizable (r : ProcessState × Option Event) : Prop where
  process : r.1.PathsRecognizable
  event : ∀ e ∈ r.2, e.type.isFile = true → Recognizable e.resource

section calls

variable {P : ProcessState} {c : FinishedCall}

theorem ProcessState.PathsRecognizable.silent (hP : P.PathsRecognizable) :
    CallRecognizable (P, none) := ⟨hP, by simp⟩

theorem ProcessState.PathsRecognizable.setFd (hP : P.PathsRecognizable) (fd : Int32)
    {r : Option Resource} (hr : ∀ resource, r = some resource → resource.type = .file →
      Recognizable resource.name) : (P.setFd fd r).PathsRecognizable := by
  refine ⟨hP.cwd, fun fd' resource hfd => ?_⟩
  by_cases h : fd' = fd
  · subst h
    rw [setFd_fdTable, Function.update_self] at hfd
    exact hr resource hfd
  · rw [setFd_fdTable, Function.update_of_ne h] at hfd
    exact hP.files fd' resource hfd

theorem ProcessState.PathsRecognizable.opens (hP : P.PathsRecognizable) {path : Bytes}
    (hpath : Recognizable path) (call : RawSyscall) (flags : UInt64)
    (metadata : List (Bytes × Bytes)) :
    CallRecognizable (installFile P call.result path flags,
      some (makeEvent P call .fileOpen path metadata)) := by
  refine ⟨?_, ?_⟩
  · unfold installFile
    split
    · refine hP.setFd _ fun resource hresource _ => ?_
      rw [← Option.some.inj hresource]
      exact hpath
    · exact hP
  · intro e he _
    rw [Option.mem_some] at he
    rw [← he]
    exact hpath

theorem ProcessState.PathsRecognizable.connects (hP : P.PathsRecognizable)
    (memory : TraceeMemory) (call : RawSyscall) :
    CallRecognizable (connectExit memory P call) := by
  unfold connectExit
  dsimp only
  split
  · exact hP.silent
  · rename_i endpoint hendpoint
    have hquiet : endpoint.eventType.isFile = false := by
      rcases socketEndpoint_isIo hendpoint with h | h <;> rw [h] <;> rfl
    have hevent (metadata : List (Bytes × Bytes)) :
        ∀ e ∈ some (makeEvent P call endpoint.eventType endpoint.resource metadata),
          e.type.isFile = true → Recognizable e.resource := by
      intro e he hfile
      rw [Option.mem_some] at he
      rw [← he] at hfile
      exact absurd (hquiet.symm.trans hfile) Bool.false_ne_true
    split
    · exact ⟨hP, hevent _⟩
    · rename_i resource hfd
      split
      · rename_i hsocket
        refine ⟨hP.setFd _ fun r hr hfile => ?_, hevent _⟩
        rw [← Option.some.inj hr] at hfile
        exact absurd (hsocket.symm.trans hfile) (by decide)
      · exact ⟨hP, hevent _⟩

theorem readPath_ne_nil (memory : TraceeMemory) (tid : Pid) (address : UInt64) :
    readPath memory tid address ≠ [] := by
  unfold readPath
  dsimp only
  split
  · simp [unreadableAddress, lit]
  · assumption

theorem resolved_ne_nil {dirfd : Int32} {path : Bytes} (h : c.resolved = some (dirfd, path)) :
    path ≠ [] := by
  unfold FinishedCall.resolved at h
  split at h
  · obtain ⟨-, rfl⟩ := Prod.mk.inj (Option.some.inj h)
    exact readPath_ne_nil _ _ _
  split at h
  · obtain ⟨-, rfl⟩ := Prod.mk.inj (Option.some.inj h)
    exact readPath_ne_nil _ _ _
  split at h
  · rename_i hraw
    obtain ⟨-, rfl⟩ := Prod.mk.inj (Option.some.inj h)
    exact hraw.2
  · contradiction

theorem callRecognizable_exit (hP : P.PathsRecognizable)
    (hinside : ∀ dirfd path, c.resolved = some (dirfd, path) → StaysInside P dirfd path) :
    CallRecognizable (c.exit P) := by
  unfold FinishedCall.resolved at hinside
  unfold FinishedCall.exit syscallExit
  split
  · rename_i hopen
    rw [if_pos hopen] at hinside
    exact hP.opens (recognizable_resolvePath hP (readPath_ne_nil _ _ _) (hinside _ _ rfl)) _ _ _
  rename_i hopen
  rw [if_neg hopen] at hinside
  split
  · rename_i hopenat
    rw [if_pos hopenat] at hinside
    exact hP.opens (recognizable_resolvePath hP (readPath_ne_nil _ _ _) (hinside _ _ rfl)) _ _ _
  rename_i hopenat
  rw [if_neg hopenat] at hinside
  -- the other calls name what the table or the working directory already holds
  split
  · unfold transferExit
    dsimp only
    split
    · exact hP.silent
    · rename_i resource hfd
      split
      · exact hP.silent
      · rename_i htype
        refine ⟨hP, fun e he _ => ?_⟩
        rw [Option.mem_some] at he
        rw [← he]
        exact hP.files _ _ hfd (not_not.mp htype)
  split
  · unfold closeExit
    split
    · exact (hP.setFd _ (by simp)).silent
    · exact hP.silent
  split
  · unfold dupExit
    split
    · exact hP.silent
    · exact (hP.setFd _ (hP.files _)).silent
  split
  · unfold socketExit
    split
    · exact (hP.setFd _ (by simp)).silent
    · exact hP.silent
  split
  · exact hP.connects c.memory c.call
  split
  · rename_i hchdir
    unfold chdirExit
    dsimp only
    split
    · rename_i hraw
      rw [if_pos ⟨hchdir, hraw⟩] at hinside
      exact ⟨⟨recognizable_resolvePath hP hraw (hinside _ _ rfl), hP.files⟩, by simp⟩
    · exact hP.silent
  split
  · unfold fchdirExit
    split
    · exact hP.silent
    · rename_i resource hfd
      split
      · rename_i htype
        exact ⟨⟨hP.files _ _ hfd htype, hP.files⟩, by simp⟩
      · exact hP.silent
  · exact hP.silent

end calls

/-! ### Runs -/

/-- The calls of a run stay inside the unresolved directories they start
from, and a process that is discovered at an exec has a recognizable working
directory. -/
def PathsAdmit (root : Pid) (cwd : Bytes) (rootCommand : Option Bytes) (startNs : UInt64)
    (past : List Notification) : Notification → Prop
  | .syscall memory call =>
      ∀ τ es P, record root cwd rootCommand startNs past = .ok (τ, es) →
        τ.findProcessForThread call.tid = some P →
        ∀ dirfd path, (FinishedCall.mk memory call).resolved = some (dirfd, path) →
          StaysInside P dirfd path
  | .exec _ links _ => Recognizable links.cwd
  | _ => True

def ExecutionState.PathsRecognizable (σ : ExecutionState) : Prop :=
  ∀ p P, σ.processes p = some P → P.PathsRecognizable

section runs

variable {root : Pid} {cwd : Bytes} {rootCommand : Option Bytes} {startNs : UInt64}
  {σ σ' : ExecutionState} {es : List Event}

theorem ExecutionState.PathsRecognizable.setProcess (h : σ.PathsRecognizable) (key : Pid)
    {P : ProcessState} (hP : P.PathsRecognizable) : (σ.setProcess key P).PathsRecognizable := by
  intro p Q hQ
  rw [processes_setProcess] at hQ
  split at hQ
  · rw [← Option.some.inj hQ]
    exact hP
  · exact h p Q hQ

theorem Effect.pathsRecognizable {past : List Notification} {n : Notification}
    {out : List Event} (he : Effect σ n σ' es) (h : σ.PathsRecognizable)
    (hrecord : record root cwd rootCommand startNs past = .ok (σ, out))
    (admits : PathsAdmit root cwd rootCommand startNs past n) :
    σ'.PathsRecognizable ∧ ∀ e ∈ es, e.type.isFile = true → Recognizable e.resource := by
  cases he with
  | markerIgnored | createdUnknown | exitedUnknown | syscallUnknown => exact ⟨h, by simp⟩
  | arm found | stop found =>
      have hP := h _ _ found
      exact ⟨h.setProcess _ ⟨hP.cwd, hP.files⟩,
        by simp [commandEndEvent, EventType.isFile]⟩
  | start => exact ⟨h, by simp [commandStartEvent, EventType.isFile]⟩
  | exec found =>
      have hP := h _ _ found
      exact ⟨h.setProcess _ ⟨hP.cwd, hP.files⟩,
        by simp [attributed, execEvent, EventType.isFile]⟩
  | execDiscovered unknown =>
      exact ⟨h.setProcess _ ⟨admits, by simp⟩, by simp [execEvent, EventType.isFile]⟩
  | createdThread | exitedThread => exact ⟨h, by simp⟩
  | createdProcess found =>
      have hP := h _ _ found
      refine ⟨?_, by simp [forkEvent, EventType.isFile]⟩
      intro p Q hQ
      rw [processes_noteFirstProcess] at hQ
      refine h.setProcess _ ?_ p Q hQ
      exact ⟨hP.cwd, hP.files⟩
  | exited leader found =>
      exact ⟨h.setProcess _ (h _ _ found), by simp [attributed, exitEvent, EventType.isFile]⟩
  | exitedRunning leader found =>
      have hP := h _ _ found
      exact ⟨h.setProcess _ ⟨hP.cwd, hP.files⟩,
        by simp [attributed, exitEvent, commandEndEvent, EventType.isFile]⟩
  | exitedIdle leader found =>
      have hP := h _ _ found
      refine ⟨h.setProcess _ ?_, by simp [attributed, exitEvent, EventType.isFile]⟩
      split
      · exact ⟨hP.cwd, hP.files⟩
      · exact hP
  | @syscall memory call P found =>
      have hexit : CallRecognizable ((FinishedCall.mk memory call).exit P) :=
        callRecognizable_exit (h _ _ found) fun dirfd path hresolved =>
          admits σ out P hrecord found dirfd path hresolved
      refine ⟨h.setProcess _ hexit.process, fun e he hfile => ?_⟩
      obtain ⟨raw, hraw, rfl⟩ := List.mem_map.mp he
      exact hexit.event raw (Option.mem_toList.mp hraw) hfile

/-- Every working directory is canonical or marked as unresolved, and so is
the resource of every file event; what is resolved against a marked directory
is marked. -/
theorem recorded_paths_recognizable {ns : List Notification} (hcwd : Canonical cwd)
    (hadmits : Transducer.Legal (PathsAdmit root cwd rootCommand startNs) ns)
    (hrecord : record root cwd rootCommand startNs ns = .ok (σ, es)) :
    (∀ p P, σ.processes p = some P → Recognizable P.cwd) ∧
      (∀ e ∈ es, e.type.isFile = true → Recognizable e.resource) ∧
      ∀ past memory call rest, ns = past ++ .syscall memory call :: rest →
        ∀ τ out P, record root cwd rootCommand startNs past = .ok (τ, out) →
          τ.findProcessForThread call.tid = some P →
          ∀ dirfd path base, (FinishedCall.mk memory call).resolved = some (dirfd, path) →
            P.base dirfd = some base → isAbsolute path = false → dirfdMarker <+: base →
            dirfdMarker <+: resolvePath P dirfd path := by
  obtain ⟨es', hrun, rfl⟩ := (record_ok_iff ..).mp hrecord
  have hinv : σ.PathsRecognizable ∧ ∀ e ∈ es', e.type.isFile = true → Recognizable e.resource := by
    refine Transducer.run_induction
      (motive := fun _ σ es => σ.PathsRecognizable ∧
        ∀ e ∈ es, e.type.isFile = true → Recognizable e.resource) ?_ ?_ hadmits hrun
    · refine ⟨fun p P hP => ?_, by simp⟩
      rw [initialState_processes] at hP
      split at hP
      · obtain rfl := Option.some.inj hP
        exact ⟨.inl hcwd, by simp⟩
      · contradiction
    · rintro past σ out n σ' o hpast ⟨hpaths, hevents⟩ admits hstep
      obtain ⟨hpaths', hnew⟩ := (notify_effect hstep).pathsRecognizable hpaths
        ((record_ok_iff ..).mpr ⟨out, hpast, rfl⟩) admits
      refine ⟨hpaths', fun e he => ?_⟩
      rcases List.mem_append.mp he with he | he
      · exact hevents e he
      · exact hnew e he
  refine ⟨fun p P hP => (hinv.1 p P hP).cwd, fun e he hfile => ?_, ?_⟩
  · rcases List.mem_append.mp he with he | he
    · rw [initialEvents_eq] at he
      obtain ⟨text, -, rfl⟩ := List.mem_map.mp he
      contradiction
    · exact hinv.2 e he hfile
  · intro past memory call rest hsplit τ out P hpast hP dirfd path base hresolved hbase hrelative
      hmarker
    have hinside := hadmits past _ rest hsplit τ out P hpast hP dirfd path hresolved
    rcases resolvePath_relative P dirfd (resolved_ne_nil hresolved) hrelative with
      ⟨base', hbase', heq⟩ | ⟨hnone, -⟩
    · obtain rfl := Option.some.inj (hbase.symm.trans hbase')
      rw [heq]
      exact marker_normalizePath hmarker (hinside base hbase hrelative hmarker)
    · rw [hbase] at hnone
      contradiction

end runs

/-! ### A placeholder that `..` removes -/

def climbMemory : TraceeMemory :=
  { sampleMemory with
    readString := fun _ address => if address = 1 then lit "a" else lit "../../x" }

/-- `openat` of the path at an address, with `O_DIRECTORY`. -/
def openatCall (memory : TraceeMemory) (dirfd address : UInt64) (result : Int64) : Notification :=
  .syscall memory { pid := 7, tid := 7, number := nrOpenat
                    args := #v[dirfd, address, oDirectory, 0, 0, 0], result, timestampNs := 0 }

theorem canonical_sampleCwd : Canonical (lit "/w") := by
  refine ⟨[lit "w"], fun n hn => ?_, rfl⟩
  rw [List.mem_singleton] at hn
  subst hn
  exact ⟨by decide, by decide, by decide, by decide⟩

/-- Descriptor 5 is not known to the recorder: `a` below it keeps the
placeholder, and the path `../../x` from there loses it. -/
theorem climb_drops_placeholder :
    Canonical (lit "/w") ∧ ∃ σ es e,
      record 7 (lit "/w") none 0 [openatCall climbMemory 5 1 3, openatCall climbMemory 3 2 4] =
        .ok (σ, es) ∧ e ∈ es ∧ e.type = .fileOpen ∧ ¬ Recognizable e.resource := by
  refine ⟨canonical_sampleCwd, _, _, _, rfl, List.mem_cons_of_mem _ (List.mem_cons_self ..), rfl,
    ?_⟩
  rintro (hcanonical | hmarker)
  · exact absurd hcanonical.isAbsolute (by decide)
  · exact absurd hmarker (by decide)

/-- What is opened below an unknown descriptor, and what is opened there in
turn. -/
def sampleBelow : List Notification :=
  [openatCall sampleMemory 5 0 3, openatCall sampleMemory 3 0 4]

theorem sampleBelow_admitted :
    Transducer.Legal (PathsAdmit 7 (lit "/w") none 0) sampleBelow := by
  have hfirst : Transducer.Legal (PathsAdmit 7 (lit "/w") none 0)
      [openatCall sampleMemory 5 0 3] := by
    refine (Transducer.legal_nil _).snoc fun τ es P hrecord hP dirfd path hresolved base hbase => ?_
    obtain ⟨rfl, -⟩ := Prod.mk.inj (Except.ok.inj hrecord)
    obtain rfl := Option.some.inj hP
    obtain ⟨rfl, rfl⟩ := Prod.mk.inj (Option.some.inj hresolved)
    contradiction
  refine hfirst.snoc fun τ es P hrecord hP dirfd path hresolved base hbase _ _ => ?_
  obtain ⟨rfl, -⟩ := Prod.mk.inj (Except.ok.inj hrecord)
  obtain rfl := Option.some.inj hP
  obtain ⟨rfl, rfl⟩ := Prod.mk.inj (Option.some.inj hresolved)
  obtain rfl := Option.some.inj hbase
  decide

theorem recorded_paths_sample :
    ∃ σ es, record 7 (lit "/w") none 0 sampleBelow = .ok (σ, es) ∧
      ∀ e ∈ es, e.type.isFile = true → Recognizable e.resource := by
  obtain ⟨σ, es, hrecord⟩ : ∃ σ es, record 7 (lit "/w") none 0 sampleBelow = .ok (σ, es) :=
    ⟨_, _, rfl⟩
  have hpaths := recorded_paths_recognizable canonical_sampleCwd sampleBelow_admitted hrecord
  exact ⟨σ, es, hrecord, hpaths.2.1⟩

end Whyrun
