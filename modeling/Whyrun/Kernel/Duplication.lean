import Whyrun.Execution.Calls
import Whyrun.Kernel.ChannelAliases
import Whyrun.Kernel.DescriptorTracking

/-!
The two trackers of descriptors side by side: what a copy or a close does to
the aliases of the marker channel and to the descriptor table of the root.
They agree on `close`, `dup`, `dup2` and `dup3`; the table does not follow
the copies that `fcntl` makes.
-/

namespace Whyrun

open ByteText

/-! ### What the alias tracker does -/

/-- `observe` treats a descriptor as a copy of another, whatever the aliases
are. -/
def CopiesAlias (call : RawSyscall) (fd source : Int32) : Prop :=
  ∀ tracker : CommandChannelTracker,
    tracker.observe call = tracker.assignAlias fd (source ∈ tracker.aliases)

/-- `observe` treats a descriptor as closed. -/
def DropsAlias (call : RawSyscall) (fd : Int32) : Prop :=
  ∀ tracker : CommandChannelTracker, tracker.observe call = tracker.assignAlias fd false

theorem assignAlias_self (tracker : CommandChannelTracker) (fd : Int32) :
    tracker.assignAlias fd (fd ∈ tracker.aliases) = tracker := by
  obtain ⟨aliases⟩ := tracker
  by_cases h : fd ∈ aliases <;> simp [CommandChannelTracker.assignAlias, h]

section aliases

variable {call : RawSyscall} {a b fd source : Int32}

/-- A call copies one descriptor only, or none. -/
theorem CopiesAlias.unique (h : CopiesAlias call a b) (h' : CopiesAlias call fd source) :
    (a = b ∧ fd = source) ∨ (a = fd ∧ b = source) := by
  have hsame (tracker : CommandChannelTracker) (k : Int32) :
      (if k = a then b ∈ tracker.aliases else k ∈ tracker.aliases) ↔
        if k = fd then source ∈ tracker.aliases else k ∈ tracker.aliases := by
    have hmem := congrArg (fun t => k ∈ t.aliases) ((h tracker).symm.trans (h' tracker))
    simpa [mem_assignAlias] using hmem
  by_cases hab : a = b
  · -- nothing changes, so the source alone keeps its copy
    have hsource := hsame ⟨{source}⟩ fd
    rw [if_pos rfl] at hsource
    refine .inl ⟨hab, ?_⟩
    by_cases hfd : fd = a
    · rw [if_pos hfd, ← hab, ← hfd] at hsource
      simpa using hsource
    · rw [if_neg hfd] at hsource
      simpa using hsource
  · have hb := hsame ⟨{b}⟩ a
    rw [if_pos rfl] at hb
    by_cases hfd : a = fd
    · rw [if_pos hfd] at hb
      refine .inr ⟨hfd, ?_⟩
      simpa [eq_comm] using hb
    · rw [if_neg hfd] at hb
      simp [hab] at hb

theorem DropsAlias.unique (h : DropsAlias call a) (h' : DropsAlias call fd) : fd = a := by
  have hmem := congrArg (fun t => fd ∈ t.aliases) ((h ⟨{fd}⟩).symm.trans (h' ⟨{fd}⟩))
  simpa [mem_assignAlias] using hmem

/-- A copy is not a close. -/
theorem CopiesAlias.not_drops (h : CopiesAlias call a b) : ¬ DropsAlias call fd := by
  intro h'
  have hmem (k : Int32) := congrArg (fun t => k ∈ t.aliases)
    ((h ⟨{a, b, fd}⟩).symm.trans (h' ⟨{a, b, fd}⟩))
  have hfd := hmem fd
  simp [mem_assignAlias] at hfd

end aliases

/-! ### Agreement -/

/-- The table gives a copied descriptor the entry of its source and removes a
closed one. -/
structure TrackersAgree (P : ProcessState) (c : FinishedCall) : Prop where
  copied : ∀ fd source, CopiesAlias c.call fd source → (c.exit P).1.fdTable fd = P.fdTable source
  dropped : ∀ fd, DropsAlias c.call fd → (c.exit P).1.fdTable fd = none

/-- The calls that both trackers are shown, with the results that the kernel
gives: `close` returns zero, `dup2` and `dup3` the requested number. -/
structure DuplicationAdmits (call : RawSyscall) : Prop where
  listed : call.number = nrClose ∨ isDupCall call.number ∨ call.number = nrFcntl
  closed : 0 ≤ call.result → call.number = nrClose → call.result = 0
  requested : 0 ≤ call.result → call.number = nrDup2 ∨ call.number = nrDup3 →
    call.returned = asInt (arg1 call.args)

/-- A copy that `fcntl` makes finds the entry of its source already there. -/
def FcntlHarmless (P : ProcessState) (call : RawSyscall) : Prop :=
  0 ≤ call.result → call.number = nrFcntl → isDupCommand (arg1 call.args) = true →
    P.fdTable call.returned = P.fdTable call.source

section step

variable {P : ProcessState} {c : FinishedCall} {a b : Int32}

/-- A call that copies one descriptor agrees when the table copies it. -/
theorem CopiesAlias.agrees_iff (h : CopiesAlias c.call a b)
    (hframe : ∀ fd, fd ≠ a → (c.exit P).1.fdTable fd = P.fdTable fd) :
    TrackersAgree P c ↔ (c.exit P).1.fdTable a = P.fdTable b := by
  constructor
  · intro hagree
    exact hagree.copied a b h
  · intro hcopied
    refine ⟨fun fd source h' => ?_, fun fd hdrops => absurd hdrops h.not_drops⟩
    rcases h.unique h' with ⟨rfl, rfl⟩ | ⟨rfl, rfl⟩
    · by_cases hfd : fd = a
      · rw [hfd, hcopied]
      · exact hframe fd hfd
    · exact hcopied

theorem DropsAlias.agrees_iff (h : DropsAlias c.call a) :
    TrackersAgree P c ↔ (c.exit P).1.fdTable a = none := by
  constructor
  · intro hagree
    exact hagree.dropped a h
  · intro hdropped
    refine ⟨fun fd source hcopies => absurd h hcopies.not_drops, fun fd h' => ?_⟩
    rw [h.unique h', hdropped]

/-- A call that the alias tracker passes over agrees when the table passes
over it as well. -/
theorem agrees_of_silent (h : ∀ tracker : CommandChannelTracker, tracker.observe c.call = tracker)
    (hexit : (c.exit P).1.fdTable = P.fdTable) : TrackersAgree P c := by
  have hcopies : CopiesAlias c.call 0 0 := fun tracker => by rw [h, assignAlias_self]
  exact (hcopies.agrees_iff fun fd _ => by rw [hexit]).mpr (by rw [hexit])

theorem exit_fcntl (h : c.call.number = nrFcntl) (P : ProcessState) : c.exit P = (P, none) := by
  simp [FinishedCall.exit, syscallExit, h, nrFcntl, nrFchdir, nrChdir, nrDup, nrDup2, nrDup3,
    nrClose, nrOpen, nrOpenat, nrOpenat2, nrRead, nrWrite, nrSocket, nrConnect]

theorem fdTable_dup (hdup : isDupCall c.call.number = true) (hresult : ¬ c.call.result < 0)
    (P : ProcessState) :
    (c.exit P).1.fdTable =
      Function.update P.fdTable c.call.returned (P.fdTable c.call.source) := by
  rw [FinishedCall.exit, syscallExit_dup (isDupCall_iff.mp hdup), dupExit, if_neg hresult]
  rfl

theorem fdTable_close (hnumber : c.call.number = nrClose) (hresult : c.call.result = 0)
    (P : ProcessState) :
    (c.exit P).1.fdTable = Function.update P.fdTable c.call.source none := by
  rw [FinishedCall.exit, syscallExit_close hnumber, closeExit, if_pos hresult]
  rfl

/-- A copy by `fcntl` is the only call on which the trackers differ. -/
theorem trackersAgree_iff (admits : DuplicationAdmits c.call) :
    TrackersAgree P c ↔ FcntlHarmless P c.call := by
  by_cases hfailed : c.call.result < 0
  · -- neither tracker looks at a call that has failed
    have hnonneg : ¬ 0 ≤ c.call.result := Int64.not_le.mpr hfailed
    refine iff_of_true (agrees_of_silent (fun tracker => ?_) ?_) fun h => absurd h hnonneg
    · exact @observe_failed tracker ⟨c.call, ∅⟩ hfailed
    · rcases admits.listed with hclose | hdup | hfcntl
      · rw [FinishedCall.exit, syscallExit_close hclose, closeExit,
          if_neg (by rintro h0; simp [h0] at hfailed)]
      · rw [FinishedCall.exit, syscallExit_dup (isDupCall_iff.mp hdup), dupExit, if_pos hfailed]
      · rw [exit_fcntl hfcntl]
  have hresult : 0 ≤ c.call.result := Int64.not_lt.mp hfailed
  rcases admits.listed with hclose | hdup | hfcntl
  · have hdrops : DropsAlias c.call c.call.source := fun tracker =>
      @observe_close tracker ⟨c.call, ∅⟩ hfailed hclose
    rw [hdrops.agrees_iff, fdTable_close hclose (admits.closed hresult hclose)]
    exact iff_of_true (Function.update_self ..) fun _ h => by
      rw [hclose] at h
      contradiction
  · have hexit := fdTable_dup hdup hfailed P
    have hother : c.call.number ≠ nrFcntl := by
      intro h
      rw [h] at hdup
      contradiction
    refine iff_of_true ?_ fun _ h => absurd h hother
    have hcopied (hcopies : CopiesAlias c.call c.call.returned c.call.source) :
        TrackersAgree P c := by
      refine (hcopies.agrees_iff fun fd hfd => ?_).mpr ?_
      · rw [hexit, Function.update_of_ne hfd]
      · rw [hexit, Function.update_self]
    rcases isDupCall_iff.mp hdup with hnumber | hnumber
    · exact hcopied fun tracker => @observe_dup tracker ⟨c.call, ∅⟩ hfailed hnumber
    · have hreturned := admits.requested hresult hnumber
      have hobserve (tracker : CommandChannelTracker) :=
        @observe_dupTo tracker ⟨c.call, ∅⟩ hfailed
          (by simpa [ChannelCall.isDupTo] using hnumber)
      by_cases hself : c.call.source = asInt (arg1 c.call.args)
      · -- a descriptor copied to itself: the alias tracker passes over it
        refine agrees_of_silent (fun tracker => ?_) ?_
        · exact (hobserve tracker).trans (if_neg (not_not.mpr hself))
        · rw [hexit, hreturned, ← hself, Function.update_eq_self]
      · refine hcopied fun tracker => ?_
        rw [hreturned]
        exact (hobserve tracker).trans (if_pos hself)
  · -- the table stays as it is, so a copy agrees only where it was made before
    have hobserve (tracker : CommandChannelTracker) :=
      @observe_fcntl tracker ⟨c.call, ∅⟩ hfailed hfcntl
    by_cases hcommand : isDupCommand (arg1 c.call.args) = true
    · have hcopies : CopiesAlias c.call c.call.returned c.call.source := fun tracker =>
        (hobserve tracker).trans (if_pos hcommand)
      rw [hcopies.agrees_iff fun fd _ => by rw [exit_fcntl hfcntl], exit_fcntl hfcntl]
      exact ⟨fun h _ _ _ => h, fun h => h hresult hfcntl hcommand⟩
    · refine iff_of_true (agrees_of_silent (fun tracker => ?_) ?_) fun _ _ h => absurd h hcommand
      · exact (hobserve tracker).trans (if_neg hcommand)
      · rw [exit_fcntl hfcntl]

end step

/-! ### Redirections -/

/-- The calls by which Bash redirects a descriptor for one command: save it
at `saved`, put `target` over it, bring it back, close the saved copy. -/
structure Redirection (fd saved target : Int32) (save put back drop : RawSyscall) : Prop where
  saves : save.number = nrFcntl ∧ save.source = fd ∧ save.returned = saved
  overwrites : put.number = nrDup2 ∧ 0 ≤ put.result
  overwritten : put.source = target ∧ put.returned = fd
  restores : back.number = nrDup2 ∧ 0 ≤ back.result
  restored : back.source = saved ∧ back.returned = fd
  closes : drop.number = nrClose ∧ drop.result = 0
  closed : drop.source = saved

section redirection

variable {P : ProcessState} {c save put back drop : FinishedCall} {fd saved target : Int32}

theorem fdTable_dup2 (hnumber : c.call.number = nrDup2) (hresult : 0 ≤ c.call.result)
    (P : ProcessState) :
    (c.exit P).1.fdTable =
      Function.update P.fdTable c.call.returned (P.fdTable c.call.source) :=
  fdTable_dup (isDupCall_iff.mpr (.inr (.inl hnumber))) (Int64.not_lt.mpr hresult) P

/-- A redirection leaves the table as it was only for a descriptor that is
not tracked. -/
theorem redirection_restores_iff
    (h : Redirection fd saved target save.call put.call back.call drop.call)
    (hother : saved ≠ fd) (hunused : P.fdTable saved = none) :
    (FinishedCall.run P [save, put, back, drop]).1.fdTable = P.fdTable ↔
      P.fdTable fd = none := by
  have hrun : (FinishedCall.run P [save, put, back, drop]).1.fdTable =
      Function.update P.fdTable fd none := by
    -- read backwards: what is brought back is the entry of the unused `saved`
    simp only [FinishedCall.run]
    rw [fdTable_close h.closes.1 h.closes.2, fdTable_dup2 h.restores.1 h.restores.2,
      fdTable_dup2 h.overwrites.1 h.overwrites.2, exit_fcntl h.saves.1, h.overwritten.2,
      h.restored.1, h.restored.2, h.closed, Function.update_of_ne hother, Function.update_idem,
      hunused]
    funext k
    by_cases hk : k = saved
    · subst hk
      rw [Function.update_self, Function.update_of_ne hother, hunused]
    · rw [Function.update_of_ne hk]
  rw [hrun, Function.update_eq_self_iff, eq_comm]

end redirection

/-- Over any sequence of copies and closes the table follows the alias tracker
exactly when every copy by `fcntl` finds the entry of its source in its place;
a redirection restores the table for untracked descriptors only. -/
theorem trackers_agree_iff (P : ProcessState) (calls : List FinishedCall)
    (admits : ∀ c ∈ calls, DuplicationAdmits c.call) :
    ((∀ past c rest, calls = past ++ c :: rest →
        TrackersAgree (FinishedCall.run P past).1 c) ↔
      ∀ past c rest, calls = past ++ c :: rest →
        FcntlHarmless (FinishedCall.run P past).1 c.call) ∧
    ∀ save put back drop fd saved target, calls = [save, put, back, drop] →
      Redirection fd saved target save.call put.call back.call drop.call → saved ≠ fd →
      P.fdTable saved = none →
      ((FinishedCall.run P calls).1.fdTable = P.fdTable ↔ P.fdTable fd = none) := by
  constructor
  · constructor
    · intro h past c rest hsplit
      exact (trackersAgree_iff (admits c (by simp [hsplit]))).mp (h past c rest hsplit)
    · intro h past c rest hsplit
      exact (trackersAgree_iff (admits c (by simp [hsplit]))).mpr (h past c rest hsplit)
  · rintro save put back drop fd saved target rfl hredirection hother hunused
    exact redirection_restores_iff hredirection hother hunused

/-- A finished call on descriptors. -/
def descriptorCall (number : Int64) (first second third : UInt64) (result : Int64) :
    FinishedCall :=
  ⟨sampleMemory, { pid := 7, tid := 7, number, args := #v[first, second, third, 0, 0, 0]
                   result, timestampNs := 0 }⟩

/-- Descriptor 1 is saved at 10, redirected to 3 and restored. -/
def sampleRedirection : List FinishedCall :=
  [descriptorCall nrFcntl 1 0 10 10, descriptorCall nrDup2 3 1 0 1,
   descriptorCall nrDup2 10 1 0 1, descriptorCall nrClose 10 0 0 0]

/-- A process with a file on descriptor 1. -/
def sampleOutput : ProcessState :=
  { pid := 7, fdTable := fun fd => if fd = 1 then some ⟨.file, lit "/log", false⟩ else none }

theorem sampleRedirection_admitted : ∀ c ∈ sampleRedirection, DuplicationAdmits c.call := by
  intro c hc
  simp only [sampleRedirection, List.mem_cons, List.not_mem_nil, or_false] at hc
  rcases hc with rfl | rfl | rfl | rfl <;>
    exact ⟨by decide, by decide, by decide⟩

/-- After the save the alias tracker has a copy at 10 and the table has none;
after the redirection the file on descriptor 1 is lost. -/
theorem fcntl_copy_not_tracked :
    (∀ c ∈ sampleRedirection, DuplicationAdmits c.call) ∧
      ¬ TrackersAgree sampleOutput (descriptorCall nrFcntl 1 0 10 10) ∧
      sampleOutput.fdTable 1 = some ⟨.file, lit "/log", false⟩ ∧
      (FinishedCall.run sampleOutput sampleRedirection).1.fdTable 1 = none := by
  refine ⟨sampleRedirection_admitted, fun h => ?_, rfl, by decide⟩
  have hadmitted := sampleRedirection_admitted (descriptorCall nrFcntl 1 0 10 10)
    (by simp [sampleRedirection])
  have hharmless := (trackersAgree_iff hadmitted).mp h
  exact absurd (hharmless (by decide) rfl (by decide)) (by decide)

/-- Descriptor 0, which is not tracked, is redirected and restored. -/
def sampleUntracked : List FinishedCall :=
  [descriptorCall nrFcntl 0 0 10 10, descriptorCall nrDup2 3 0 0 0,
   descriptorCall nrDup2 10 0 0 0, descriptorCall nrClose 10 0 0 0]

theorem sampleUntracked_admitted : ∀ c ∈ sampleUntracked, DuplicationAdmits c.call := by
  intro c hc
  simp only [sampleUntracked, List.mem_cons, List.not_mem_nil, or_false] at hc
  rcases hc with rfl | rfl | rfl | rfl <;>
    exact ⟨by decide, by decide, by decide⟩

/-- The copy by `fcntl` finds no entry of descriptor 0 and leaves none at 10:
both trackers agree throughout, and the table is restored. -/
theorem trackers_agree_sample :
    (∀ past c rest, sampleUntracked = past ++ c :: rest →
        FcntlHarmless (FinishedCall.run sampleOutput past).1 c.call ∧
          TrackersAgree (FinishedCall.run sampleOutput past).1 c) ∧
      (FinishedCall.run sampleOutput sampleUntracked).1.fdTable = sampleOutput.fdTable := by
  obtain ⟨hagree, hrestores⟩ :=
    trackers_agree_iff sampleOutput sampleUntracked sampleUntracked_admitted
  have hharmless : ∀ past c rest, sampleUntracked = past ++ c :: rest →
      FcntlHarmless (FinishedCall.run sampleOutput past).1 c.call := by
    intro past c rest hsplit _ hfcntl _
    cases past with
    | nil =>
        obtain ⟨rfl, -⟩ := List.cons.inj hsplit
        rfl
    | cons first past =>
        -- the later calls are no `fcntl`
        have hmem : c ∈ sampleUntracked.tail := by
          rw [hsplit]
          simp
        simp only [sampleUntracked, List.tail_cons, List.mem_cons, List.not_mem_nil,
          or_false] at hmem
        rcases hmem with rfl | rfl | rfl <;> exact absurd hfcntl (by decide)
  refine ⟨fun past c rest hsplit => ⟨hharmless past c rest hsplit,
    hagree.mpr hharmless past c rest hsplit⟩, ?_⟩
  have hredirection : Redirection 0 10 3 (descriptorCall nrFcntl 0 0 10 10).call
      (descriptorCall nrDup2 3 0 0 0).call (descriptorCall nrDup2 10 0 0 0).call
      (descriptorCall nrClose 10 0 0 0).call := by
    constructor <;> decide
  exact (hrestores _ _ _ _ 0 10 3 rfl hredirection (by decide) rfl).mpr rfl

end Whyrun
