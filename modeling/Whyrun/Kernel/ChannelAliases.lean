import Mathlib.Data.List.Induction
import Whyrun.Library.Transducer
import Whyrun.Model.PtraceCollector

/-!
The descriptors of the root that refer to the marker channel, in a reference
kernel and in the tracker of the collector. Both follow the finished calls of
the root; they agree as long as the tracker recognises the copies that
`fcntl` makes of the channel.
-/

namespace Whyrun

/-! ### The reference kernel -/

/-- What a descriptor of the root refers to. -/
inductive Referent
  | channel
  | other
  deriving DecidableEq

abbrev ChannelTable := Int32 → Option Referent

/-- A finished call of the root, with the descriptors that it installed for
files other than the channel. -/
structure ChannelCall where
  call : RawSyscall
  installs : Finset Int32 := ∅

/-- The kernel reads the command of `fcntl` from an `unsigned int`. -/
def isKernelDupCommand (command : UInt64) : Bool :=
  command.toUInt32 = 0 || command.toUInt32 = 1030

namespace ChannelCall

def source (action : ChannelCall) : Int32 := asInt (arg0 action.call.args)

def destination (action : ChannelCall) : Int32 := asInt (arg1 action.call.args)

def result (action : ChannelCall) : Int32 := action.call.result.toInt32

/-- `fcntl` with `F_DUPFD` or `F_DUPFD_CLOEXEC`. -/
def isFcntlDup (action : ChannelCall) : Bool :=
  action.call.number = nrFcntl && isKernelDupCommand (arg1 action.call.args)

/-- A copy at a number that the kernel chooses. -/
def isDup (action : ChannelCall) : Bool := action.call.number = nrDup || action.isFcntlDup

/-- A copy at the number in the second argument. -/
def isDupTo (action : ChannelCall) : Bool :=
  action.call.number = nrDup2 || action.call.number = nrDup3

end ChannelCall

/-- The table after a call; a failed call changes nothing. -/
def ChannelTable.step (table : ChannelTable) (action : ChannelCall) : ChannelTable :=
  if action.call.result < 0 then table
  else if action.call.number = nrClose then Function.update table action.source none
  else if action.isDup then Function.update table action.result (table action.source)
  else if action.isDupTo then Function.update table action.destination (table action.source)
  else fun fd => if fd ∈ action.installs then some .other else table fd

def tableAfter (table : ChannelTable) (actions : List ChannelCall) : ChannelTable :=
  actions.foldl ChannelTable.step table

/-- What the kernel can report: copies are made of open descriptors, and a
number that the kernel chooses was unused. -/
structure ChannelAdmits (table : ChannelTable) (past : List ChannelCall) (action : ChannelCall) :
    Prop where
  copied : 0 ≤ action.call.result → action.isDup ∨ action.isDupTo →
    tableAfter table past action.source ≠ none
  chosen : 0 ≤ action.call.result → action.isDup → tableAfter table past action.result = none
  unused : ∀ fd ∈ action.installs, tableAfter table past fd = none

/-! ### The tracker -/

def trackerAfter (channelFd : Int32) (actions : List ChannelCall) : CommandChannelTracker :=
  actions.foldl (fun tracker action => tracker.observe action.call) (.create (some channelFd))

/-- The tracker takes exactly the writes to the channel for marker bytes. -/
def ReceivesExactly (tracker : CommandChannelTracker) (table : ChannelTable) : Prop :=
  ∀ call : RawSyscall, call.number = nrWrite →
    (tracker.receives call = true ↔ table (asInt (arg0 call.args)) = some .channel)

def AliasesExactly (tracker : CommandChannelTracker) (table : ChannelTable) : Prop :=
  ∀ fd, fd ∈ tracker.aliases ↔ table fd = some .channel

/-- A successful `fcntl` copies the channel only with a command register whose
high half is zero. -/
def RecognisedCopy (table : ChannelTable) (action : ChannelCall) : Prop :=
  0 ≤ action.call.result → action.isFcntlDup → table action.source = some .channel →
    isDupCommand (arg1 action.call.args) = true

variable {tracker : CommandChannelTracker} {table : ChannelTable} {action : ChannelCall}

theorem receivesExactly_iff : ReceivesExactly tracker table ↔ AliasesExactly tracker table := by
  constructor
  · intro h fd
    have hcall := h { pid := 0, tid := 0, number := nrWrite
                      args := #v[fd.toUInt32.toUInt64, 0, 0, 0, 0, 0], result := 0
                      timestampNs := 0 } rfl
    simpa [CommandChannelTracker.receives, asInt, arg0] using hcall
  · intro h call hnumber
    rw [CommandChannelTracker.receives, hnumber, ← h]
    simp

/-! ### One call -/

theorem mem_assignAlias {fd k : Int32} {isAlias : Bool} :
    k ∈ (tracker.assignAlias fd isAlias).aliases ↔
      if k = fd then isAlias = true else k ∈ tracker.aliases := by
  cases isAlias <;> by_cases hk : k = fd <;>
    simp [CommandChannelTracker.assignAlias, hk]

/-- Copying keeps the aliases exact. -/
theorem AliasesExactly.assign (h : AliasesExactly tracker table) (fd source : Int32) :
    AliasesExactly (tracker.assignAlias fd (source ∈ tracker.aliases))
      (Function.update table fd (table source)) := by
  intro k
  rw [mem_assignAlias]
  by_cases hk : k = fd
  · subst hk
    rw [if_pos rfl, Function.update_self, decide_eq_true_eq, h]
  · rw [if_neg hk, Function.update_of_ne hk, h]

theorem isDupCommand_imp {command : UInt64} (h : isDupCommand command = true) :
    isKernelDupCommand command = true := by
  simp only [isDupCommand, Bool.or_eq_true, decide_eq_true_eq] at h
  rcases h with rfl | rfl <;> decide

theorem step_failed (h : action.call.result < 0) : table.step action = table := by
  rw [ChannelTable.step, if_pos h]

theorem observe_failed (h : action.call.result < 0) : tracker.observe action.call = tracker := by
  simp only [CommandChannelTracker.observe]
  rw [if_pos h]

theorem observe_close (h : ¬ action.call.result < 0) (hnumber : action.call.number = nrClose) :
    tracker.observe action.call = ⟨tracker.aliases.erase action.source⟩ := by
  simp only [CommandChannelTracker.observe]
  rw [if_neg h, if_pos hnumber, ChannelCall.source]

theorem observe_dup (h : ¬ action.call.result < 0) (hnumber : action.call.number = nrDup) :
    tracker.observe action.call =
      tracker.assignAlias action.result (action.source ∈ tracker.aliases) := by
  simp only [CommandChannelTracker.observe]
  rw [if_neg h, if_neg (by rw [hnumber]; decide), if_pos hnumber, ChannelCall.result,
    ChannelCall.source]

theorem observe_dupTo (h : ¬ action.call.result < 0) (hdup : action.isDupTo = true) :
    tracker.observe action.call =
      if action.source ≠ action.destination then
        tracker.assignAlias action.destination (action.source ∈ tracker.aliases)
      else tracker := by
  simp only [ChannelCall.isDupTo, Bool.or_eq_true, decide_eq_true_eq] at hdup
  simp only [CommandChannelTracker.observe]
  rw [if_neg h, if_neg (by rcases hdup with h | h <;> rw [h] <;> decide),
    if_neg (by rcases hdup with h | h <;> rw [h] <;> decide), if_pos hdup, ChannelCall.source,
    ChannelCall.destination]

theorem observe_fcntl (h : ¬ action.call.result < 0) (hnumber : action.call.number = nrFcntl) :
    tracker.observe action.call =
      if isDupCommand (arg1 action.call.args) then
        tracker.assignAlias action.result (action.source ∈ tracker.aliases)
      else tracker := by
  simp only [CommandChannelTracker.observe]
  rw [if_neg h, if_neg (by rw [hnumber]; decide), if_neg (by rw [hnumber]; decide),
    if_neg (by rw [hnumber]; decide), ChannelCall.result, ChannelCall.source]
  simp [hnumber]

theorem observe_other (hclose : action.call.number ≠ nrClose) (hdup : action.isDup = false)
    (hdupTo : action.isDupTo = false) : tracker.observe action.call = tracker := by
  simp only [ChannelCall.isDup, ChannelCall.isFcntlDup, ChannelCall.isDupTo, Bool.or_eq_false_iff,
    Bool.and_eq_false_iff, decide_eq_false_iff_not] at hdup hdupTo
  by_cases hfailed : action.call.result < 0
  · exact observe_failed hfailed
  simp only [CommandChannelTracker.observe]
  rw [if_neg hfailed, if_neg hclose, if_neg hdup.1, if_neg (not_or.mpr hdupTo), if_neg]
  rintro ⟨hnumber, hcommand⟩
  rcases hdup.2 with hne | hkernel
  · exact hne hnumber
  · rw [isDupCommand_imp hcommand] at hkernel
    contradiction

/-- An unrecognised copy is the only call that the tracker gets wrong. -/
theorem aliasesExactly_step_iff (h : AliasesExactly tracker table)
    (hchosen : 0 ≤ action.call.result → action.isDup = true → table action.result = none)
    (hunused : ∀ fd ∈ action.installs, table fd = none) :
    AliasesExactly (tracker.observe action.call) (table.step action) ↔
      RecognisedCopy table action := by
  by_cases hfailed : action.call.result < 0
  · rw [step_failed hfailed, observe_failed hfailed]
    exact iff_of_true h fun hresult => absurd hfailed (Int64.not_lt.mpr hresult)
  have hresult : 0 ≤ action.call.result := Int64.not_lt.mp hfailed
  rw [ChannelTable.step, if_neg hfailed]
  by_cases hclose : action.call.number = nrClose
  · have hfcntl : action.isFcntlDup = false := by
      rw [ChannelCall.isFcntlDup, hclose]
      rfl
    rw [if_pos hclose, observe_close hfailed hclose]
    refine iff_of_true (fun fd => ?_) fun _ hdup => by simp [hfcntl] at hdup
    by_cases hfd : fd = action.source
    · simp [hfd]
    · rw [Function.update_of_ne hfd, ← h]
      simp [hfd]
  rw [if_neg hclose]
  by_cases hdup : action.call.number = nrDup
  · have hisDup : action.isDup = true := by simp [ChannelCall.isDup, hdup]
    have hfcntl : action.isFcntlDup = false := by
      rw [ChannelCall.isFcntlDup, hdup]
      rfl
    rw [if_pos hisDup, observe_dup hfailed hdup]
    exact iff_of_true (h.assign _ _) fun _ hf => by simp [hfcntl] at hf
  by_cases hfcntl : action.isFcntlDup = true
  · have hisDup : action.isDup = true := by simp [ChannelCall.isDup, hfcntl]
    have hnumber : action.call.number = nrFcntl := by
      simp only [ChannelCall.isFcntlDup, Bool.and_eq_true, decide_eq_true_eq] at hfcntl
      exact hfcntl.1
    rw [if_pos hisDup, observe_fcntl hfailed hnumber]
    by_cases hcommand : isDupCommand (arg1 action.call.args) = true
    · rw [if_pos hcommand]
      exact iff_of_true (h.assign _ _) fun _ _ _ => hcommand
    · -- the tracker leaves the new number out
      rw [if_neg hcommand]
      have hnew : action.result ∉ tracker.aliases := by
        rw [h, hchosen hresult hisDup]
        exact Option.some_ne_none _ |>.symm
      constructor
      · intro hexact _ _ hsource
        have hmem := (hexact action.result).mpr (by rw [Function.update_self, hsource])
        exact absurd hmem hnew
      · intro hrecognised fd
        have hsource : table action.source ≠ some .channel := fun hsource =>
          hcommand (hrecognised hresult hfcntl hsource)
        by_cases hfd : fd = action.result
        · rw [hfd, Function.update_self]
          exact iff_of_false hnew hsource
        · rw [Function.update_of_ne hfd, h]
  rw [Bool.not_eq_true] at hfcntl
  have hisDup : action.isDup = false := by simp [ChannelCall.isDup, hdup, hfcntl]
  rw [if_neg (by simp [hisDup])]
  refine iff_of_true ?_ fun _ hf => by simp [hfcntl] at hf
  by_cases hdupTo : action.isDupTo = true
  · rw [if_pos hdupTo, observe_dupTo hfailed hdupTo]
    split
    · exact h.assign _ _
    · rename_i hself
      rw [not_ne_iff] at hself
      rwa [hself, Function.update_eq_self]
  · rw [Bool.not_eq_true] at hdupTo
    rw [if_neg (by simp [hdupTo]), observe_other hclose hisDup hdupTo]
    intro fd
    dsimp only
    split
    · rename_i hfd
      rw [h, hunused fd hfd]
      simp
    · exact h fd

/-! ### Runs -/

variable {channelFd : Int32} {actions past : List ChannelCall}

theorem tableAfter_snoc (table : ChannelTable) (past : List ChannelCall) (action : ChannelCall) :
    tableAfter table (past ++ [action]) = (tableAfter table past).step action := by
  simp [tableAfter]

theorem trackerAfter_snoc (channelFd : Int32) (past : List ChannelCall) (action : ChannelCall) :
    trackerAfter channelFd (past ++ [action]) =
      (trackerAfter channelFd past).observe action.call := by
  simp [trackerAfter]

/-- The tracker is exact throughout a run of the kernel exactly when it
recognises every copy of the channel: until then no write to the channel is
missed and no other write is taken for marker bytes. -/
theorem receives_exactly_iff (hchannel : ∀ fd, table fd = some .channel ↔ fd = channelFd)
    (legal : Transducer.Legal (ChannelAdmits table) actions) :
    (∀ past rest, actions = past ++ rest →
        ReceivesExactly (trackerAfter channelFd past) (tableAfter table past)) ↔
      Transducer.Legal (fun past action => RecognisedCopy (tableAfter table past) action)
        actions := by
  simp only [receivesExactly_iff]
  have hstart : AliasesExactly (trackerAfter channelFd []) (tableAfter table []) := by
    intro fd
    rw [tableAfter, List.foldl_nil, hchannel]
    simp [trackerAfter, CommandChannelTracker.create]
  have hstep : ∀ past action, ChannelAdmits table past action →
      AliasesExactly (trackerAfter channelFd past) (tableAfter table past) →
      (AliasesExactly (trackerAfter channelFd (past ++ [action]))
          (tableAfter table (past ++ [action])) ↔
        RecognisedCopy (tableAfter table past) action) := by
    intro past action hadmits hexact
    rw [tableAfter_snoc, trackerAfter_snoc]
    exact aliasesExactly_step_iff hexact hadmits.chosen hadmits.unused
  constructor
  · rintro hexact past action rest rfl
    exact (hstep past action (legal past action rest rfl) (hexact past _ rfl)).mp
      (hexact (past ++ [action]) rest (by simp))
  · intro hrecognised past rest hsplit
    induction past using List.reverseRecOn generalizing rest with
    | nil => exact hstart
    | append_singleton past action ih =>
        have hsplit' : actions = past ++ action :: rest := by simp [hsplit]
        exact (hstep past action (legal past action rest hsplit') (ih _ hsplit')).mpr
          (hrecognised past action rest hsplit')

/-- The root copies the channel at 10 with `fcntl`, whose command register
holds `command`. -/
def sampleCopy (command : UInt64) : ChannelCall :=
  { call := { pid := 7, tid := 7, number := nrFcntl, args := #v[10, command, 0, 0, 0, 0]
              result := 3, timestampNs := 1 } }

def sampleTable : ChannelTable := fun fd => if fd = 10 then some .channel else none

theorem sampleCopy_legal (command : UInt64) :
    Transducer.Legal (ChannelAdmits sampleTable) [sampleCopy command] := by
  refine (Transducer.legal_nil _).snoc (i := sampleCopy command) ⟨?_, ?_, nofun⟩
  · intro _ _
    exact Option.some_ne_none _
  · intro _ _
    rfl

/-- A command register of 2³² asks the kernel for `F_DUPFD`, and the tracker
does not see the copy. -/
theorem copy_missed :
    ¬ ∀ (table : ChannelTable) (channelFd : Int32) (actions : List ChannelCall),
      (∀ fd, table fd = some .channel ↔ fd = channelFd) →
      Transducer.Legal (ChannelAdmits table) actions →
      ReceivesExactly (trackerAfter channelFd actions) (tableAfter table actions) := by
  intro h
  have hexact := h sampleTable 10 [sampleCopy 0x100000000] (by simp [sampleTable])
    (sampleCopy_legal _)
  have hreceives := hexact
    { pid := 7, tid := 7, number := nrWrite, args := #v[3, 0, 4, 0, 0, 0], result := 4
      timestampNs := 2 } rfl
  revert hreceives
  decide

/-- The same copy, asked for as the tracker expects it. -/
theorem receives_exactly_sample :
    Transducer.Legal (fun past action => RecognisedCopy (tableAfter sampleTable past) action)
        [sampleCopy 1030] ∧
      ∀ past rest, [sampleCopy 1030] = past ++ rest →
        ReceivesExactly (trackerAfter 10 past) (tableAfter sampleTable past) := by
  have hrecognised : Transducer.Legal
      (fun past action => RecognisedCopy (tableAfter sampleTable past) action)
      [sampleCopy 1030] :=
    (Transducer.legal_nil _).snoc (i := sampleCopy 1030) fun _ _ _ => by decide
  exact ⟨hrecognised,
    (receives_exactly_iff (by simp [sampleTable]) (sampleCopy_legal _)).mpr hrecognised⟩

end Whyrun
