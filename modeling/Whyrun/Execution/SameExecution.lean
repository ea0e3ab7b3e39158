import Whyrun.Execution.Relabelled
import Whyrun.Model.SqliteStore

/-!
What two recordings of one execution agree on. Their events are the same
outcomes in some order; the programs of each process and the texts and results
of each command are the same in their own order.
-/

namespace Whyrun

open ByteText ExecutionState CapsuleWriter

/-! ### The account of a list of events -/

/-- The event without its time, its task and its details. -/
def Event.outcome (e : Event) : Event := { e with timestampNs := 0, tid := 0, metadata := [] }

/-- The event of another process. -/
def Event.under (f : Pid → Pid) (e : Event) : Event := { e with pid := f e.pid }

/-- The outcomes, but for those that name a process. -/
def outcomes (es : List Event) : List Event :=
  (es.filter fun e => e.type ≠ .processFork).map Event.outcome

/-- The program of a process after an event. -/
def executableAfter (p : Pid) (executable : Option Bytes) (e : Event) : Option Bytes :=
  if e.type = .processFork ∧ e.result.toInt32 = p then
    some (executable.getD (metadataValue e (lit "executable") (lit "<unknown>")))
  else if e.type = .processExec ∧ e.pid = p then some e.resource
  else executable

/-- The text and the exit code of a command after an event. -/
def commandAfter (k : ℤ) (command : Option (Bytes × Option ℤ)) (e : Event) :
    Option (Bytes × Option ℤ) :=
  if e.commandId.map asI64 = some k then
    if e.type = .commandStart then some (e.resource, none)
    else if e.type = .commandEnd then command.map fun c => (c.1, some e.result.toInt)
    else command
  else command

/-- Two lists of events give the same account, under a renaming of the pids. -/
structure SameAccount (f : Pid → Pid) (es es' : List Event) : Prop where
  outcomes : ((outcomes es).map (Event.under f)).Perm (outcomes es')
  executables : ∀ p, es'.foldl (executableAfter (f p)) none = es.foldl (executableAfter p) none
  commands : ∀ k, es'.foldl (commandAfter k) none = es.foldl (commandAfter k) none

theorem SameAccount.trans {f g : Pid → Pid} {es es' es'' : List Event} (h : SameAccount f es es')
    (h' : SameAccount g es' es'') : SameAccount (g ∘ f) es es'' where
  outcomes := by
    have hfirst := (h.outcomes.map (Event.under g)).trans h'.outcomes
    rwa [List.map_map] at hfirst
  executables p := (h'.executables (f p)).trans (h.executables p)
  commands k := (h'.commands k).trans (h.commands k)

/-! ### Events under new tids -/

section relabelled

variable {f : Pid → Pid} {e e' : Event} {es es' : List Event}

theorem SameBut.field {α : Type*} (h : SameBut f e e') (g : Event → α) :
    g e'.untimed = g (e.renameTids f).untimed := congrArg g h

theorem SameBut.type (h : SameBut f e e') : e'.type = e.type := h.field Event.type

theorem SameBut.commandId (h : SameBut f e e') : e'.commandId = e.commandId :=
  h.field Event.commandId

theorem SameBut.pid (h : SameBut f e e') : e'.pid = f e.pid := h.field Event.pid

theorem SameBut.resource (h : SameBut f e e') (hfork : e.type ≠ .processFork) :
    e'.resource = e.resource := by
  have hresource : e'.resource = (e.renameTids f).resource := h.field Event.resource
  rw [hresource]
  exact if_neg hfork

theorem SameBut.result (h : SameBut f e e') (hfork : e.type ≠ .processFork) :
    e'.result = e.result := by
  have hresult : e'.result = (e.renameTids f).result := h.field Event.result
  rw [hresult]
  exact if_neg hfork

theorem SameBut.child (h : SameBut f e e') (hfork : e.type = .processFork) :
    e'.result.toInt32 = f e.result.toInt32 := by
  have hresult : e'.result = (e.renameTids f).result := h.field Event.result
  have hchild : (e.renameTids f).result = (f e.result.toInt32).toInt64 := if_pos hfork
  rw [hresult, hchild, Int32.toInt32_toInt64]

theorem SameBut.outcome (h : SameBut f e e') (hfork : e.type ≠ .processFork) :
    e'.outcome = e.outcome.under f := by
  have herrno : e'.errnoValue = e.errnoValue := h.field Event.errnoValue
  simp only [Event.outcome, Event.under, h.type, h.commandId, h.pid, h.resource hfork,
    h.result hfork, herrno]

/-- The executable that a fork passes on is not a pid. -/
theorem SameBut.executable (h : SameBut f e e') (fallback : Bytes) :
    metadataValue e' (lit "executable") fallback = metadataValue e (lit "executable") fallback := by
  have hmetadata : e'.metadata = e.metadata.map (renameEntry f) := h.field Event.metadata
  rw [metadataValue, metadataValue, hmetadata]
  congr 1
  induction e.metadata with
  | nil => rfl
  | cons entry entries ih =>
      obtain ⟨key, value⟩ := entry
      by_cases hkey : key = lit "executable"
      · rw [List.map_cons, renameEntry_of_not_holdsPid (by rw [hkey]; decide), hkey,
          List.lookup_cons_self, List.lookup_cons_self]
      · have hsame : (renameEntry f (key, value)).1 = key := by
          rw [renameEntry]
          split <;> rfl
        have hne : (lit "executable" == key) = false := by simpa using Ne.symm hkey
        rw [List.map_cons, ← Prod.mk.eta (p := renameEntry f (key, value)), hsame,
          List.lookup_cons, List.lookup_cons, hne]
        exact ih

theorem SameBut.executableAfter (h : SameBut f e e') (hf : Function.Injective f) (p : Pid)
    (executable : Option Bytes) :
    executableAfter (f p) executable e' = executableAfter p executable e := by
  rw [Whyrun.executableAfter, Whyrun.executableAfter, h.type, h.executable, h.pid]
  simp only [hf.eq_iff]
  by_cases hfork : e.type = .processFork
  · simp only [hfork, h.child hfork, hf.eq_iff]
    rfl
  · simp only [hfork, h.resource hfork, false_and, if_false]

theorem SameBut.commandAfter (h : SameBut f e e') (k : ℤ) (command : Option (Bytes × Option ℤ)) :
    commandAfter k command e' = commandAfter k command e := by
  rw [Whyrun.commandAfter, Whyrun.commandAfter, h.type, h.commandId]
  by_cases hfork : e.type = .processFork
  · simp only [hfork, reduceCtorEq, if_false]
  · rw [h.resource hfork, h.result hfork]

theorem sameAccount_relabelled (hf : Function.Injective f) (h : List.Forall₂ (SameBut f) es es') :
    SameAccount f es es' where
  outcomes := by
    refine .of_eq ?_
    induction h with
    | nil => rfl
    | @cons e e' es es' he _ ih =>
        by_cases hfork : e.type = .processFork
        · simpa [outcomes, hfork, he.type] using ih
        · simpa [outcomes, hfork, he.type, he.outcome hfork] using ih
  executables p := by
    generalize (none : Option Bytes) = x
    induction h generalizing x with
    | nil => rfl
    | cons he _ ih => rw [List.foldl_cons, List.foldl_cons, he.executableAfter hf, ih]
  commands k := by
    generalize (none : Option (Bytes × Option ℤ)) = x
    induction h generalizing x with
    | nil => rfl
    | cons he _ ih => rw [List.foldl_cons, List.foldl_cons, he.commandAfter, ih]

end relabelled

/-! ### Independent notifications in the other order -/

section swapped

variable {σ σ₁ σ₂ τ τ' : ExecutionState} {n n' : Notification} {es es' : List Event}

/-- What a notification says of a program, it says of its process or of a
process that it creates. -/
theorem Effect.idle_executableAfter (he : Effect σ n τ es) {P : ProcessState}
    (hP : σ.processes (σ.processForThread n.task) = some P) {p : Pid} (hpid : p ≠ P.pid)
    (hcreates : n.creates p = false) : ∀ e ∈ es, Traces.Idle (executableAfter p) e := by
  intro e hmem executable
  have hexec : ¬ (e.type = .processExec ∧ e.pid = p) := by
    rintro ⟨-, rfl⟩
    exact hpid (he.eventOf hP hmem).pid
  have hfork : ¬ (e.type = .processFork ∧ e.result.toInt32 = p) := by
    rintro ⟨htype, hchild⟩
    obtain ⟨Q, parentTid, child, ev, flags, t, rfl, -, rfl⟩ := (he.origin hmem).2 htype
    obtain rfl : child = p := by simpa [forkEvent] using hchild
    simp [Notification.creates] at hcreates
  rw [executableAfter, if_neg hfork, if_neg hexec]

/-- Only the root's notifications say anything of a command. -/
theorem Effect.idle_commandAfter (he : Effect σ n τ es) {P : ProcessState}
    (hP : σ.processes (σ.processForThread n.task) = some P) (hroot : P.pid ≠ σ.rootPid) (k : ℤ) :
    ∀ e ∈ es, Traces.Idle (commandAfter k) e := by
  intro e hmem command
  have hmark : e.isCommandMark = false := by
    by_contra h
    exact hroot ((he.eventOf hP hmem).mark (by simpa using h)).1
  simp only [Event.isCommandMark, Bool.or_eq_false_iff, decide_eq_false_iff_not] at hmark
  rw [commandAfter, if_neg hmark.1, if_neg hmark.2, ite_self]

/-- Of two independent notifications at most one has something to say of a
program, and at most one of the commands. -/
theorem Independent.idle (h : Independent σ n n') (hkeyed : σ.Keyed) (he : Effect σ n τ es)
    (he' : Effect σ n' τ' es') :
    (∀ p, (∀ e ∈ es, Traces.Idle (executableAfter p) e) ∨
      ∀ e ∈ es', Traces.Idle (executableAfter p) e) ∧
    ∀ k, (∀ e ∈ es, Traces.Idle (commandAfter k) e) ∨
      ∀ e ∈ es', Traces.Idle (commandAfter k) e := by
  obtain ⟨P, hP⟩ := h.known
  obtain ⟨P', hP'⟩ := h.known'
  have hpid : P.pid = σ.processForThread n.task := hkeyed _ P hP
  have hpid' : P'.pid = σ.processForThread n'.task := hkeyed _ P' hP'
  have hdifferent : P.pid ≠ P'.pid := by
    rw [hpid, hpid']
    exact h.different
  constructor
  · intro p
    by_cases hown : p = P.pid
    · right
      subst hown
      exact he'.idle_executableAfter hP' hdifferent
        (h.creates_eq_false (.inr hpid))
    · cases hcreates : n.creates p with
      | true =>
          right
          have hother : p ≠ P'.pid := by
            rw [hpid']
            exact (h.fresh p hcreates).2
          exact he'.idle_executableAfter hP' hother (h.distinct p hcreates)
      | false => exact .inl (he.idle_executableAfter hP hown hcreates)
  · intro k
    by_cases hroot : P.pid = σ.rootPid
    · right
      exact he'.idle_commandAfter hP' (fun hroot' => hdifferent (hroot.trans hroot'.symm)) k
    · exact .inl (he.idle_commandAfter hP hroot k)

theorem sameAccount_swapped (h : Independent σ n n') (hkeyed : σ.Keyed) (he : Effect σ n τ es)
    (he' : Effect σ n' τ' es') (before after : List Event) :
    SameAccount id (before ++ (es ++ es' ++ after)) (before ++ (es' ++ es ++ after)) where
  outcomes := by
    have hsame : Event.under id = id := rfl
    rw [hsame, List.map_id]
    exact (((List.perm_append_comm.append_right after).append_left before).filter _).map _
  executables p := by
    have hswap := Traces.foldl_append_comm_of_idle ((h.idle hkeyed he he').1 p)
    rw [id, List.foldl_append, List.foldl_append (l := es' ++ es), ← hswap, ← List.foldl_append,
      ← List.foldl_append]
  commands k := by
    have hswap := Traces.foldl_append_comm_of_idle ((h.idle hkeyed he he').2 k)
    rw [List.foldl_append, List.foldl_append (l := es' ++ es), ← hswap, ← List.foldl_append,
      ← List.foldl_append]

end swapped

/-! ### Recordings of one execution -/

/-- What the recorder is told. -/
structure Told where
  root : Pid
  startNs : UInt64
  reported : List Notification

/-- The second recording is one of the same execution: tasks have other pids,
the clock shows other times, and notifications that are independent where they
come are reported in the other order. -/
inductive SameExecution (cwd : Bytes) (rootCommand : Option Bytes) : Told → Told → Prop
  | relabel {f : Pid → Pid} (hf : Function.Bijective f) (hzero : f 0 = 0) {root : Pid}
      (startNs startNs' : UInt64) {ns ns' : List Notification}
      (hns : List.Forall₂ (Retold f) ns ns') :
      SameExecution cwd rootCommand ⟨root, startNs, ns⟩ ⟨f root, startNs', ns'⟩
  | swap {root : Pid} {startNs : UInt64} {past rest : List Notification} {n n' : Notification}
      {σ : ExecutionState} {out : List Event}
      (reached : record root cwd rootCommand startNs past = .ok (σ, out))
      (independent : Independent σ n n') :
      SameExecution cwd rootCommand ⟨root, startNs, past ++ n :: n' :: rest⟩
        ⟨root, startNs, past ++ n' :: n :: rest⟩
  | trans {x y z : Told} (first : SameExecution cwd rootCommand x y)
      (second : SameExecution cwd rootCommand y z) : SameExecution cwd rootCommand x z

/-- The other recording throws no more than the first one and gives the same
account. -/
theorem SameExecution.account {cwd : Bytes} {rootCommand : Option Bytes} {x y : Told}
    (h : SameExecution cwd rootCommand x y) {σ : ExecutionState} {es : List Event}
    (hrecord : record x.root cwd rootCommand x.startNs x.reported = .ok (σ, es)) :
    ∃ f, Function.Bijective f ∧ ∃ τ es',
      record y.root cwd rootCommand y.startNs y.reported = .ok (τ, es') ∧ SameAccount f es es' := by
  induction h generalizing σ es with
  | @relabel f hf hzero root startNs startNs' ns ns' hns =>
      obtain ⟨τ, es', hrecord', hsame⟩ := Relabelled.record hf.injective hzero startNs' hns hrecord
      exact ⟨f, hf, τ, es', hrecord', sameAccount_relabelled hf.injective hsame⟩
  | @swap root startNs past rest n n' ρ out reached independent =>
      have hkeyed := keyed_record reached
      obtain ⟨ρ', before, after, hpast, hafter, rfl⟩ := (record_append_ok_iff ..).mp hrecord
      obtain ⟨rfl, rfl⟩ := Prod.mk.inj (Except.ok.inj (reached.symm.trans hpast))
      obtain ⟨σ₁, o, more, hfirst, hmore, rfl⟩ := Transducer.run_cons_ok_iff.mp hafter
      obtain ⟨τ₁, o', last, hsecond, hlast, rfl⟩ := Transducer.run_cons_ok_iff.mp hmore
      obtain ⟨σ₂, hfirst', hsecond'⟩ := independent.swap hkeyed hfirst hsecond
      have hsame := sameAccount_swapped independent hkeyed (notify_effect hfirst)
        (notify_effect hfirst') out last
      rw [List.append_assoc, List.append_assoc] at hsame
      exact ⟨id, Function.bijective_id, σ, _, (record_append_ok_iff ..).mpr ⟨ρ, out, _, reached,
        Transducer.run_cons_ok_iff.mpr ⟨σ₂, o', o ++ last, hfirst',
          Transducer.run_cons_ok_iff.mpr ⟨τ₁, o, last, hsecond', hlast, rfl⟩, rfl⟩, rfl⟩, hsame⟩
  | trans _ _ ih ih' =>
      obtain ⟨f, hf, τ, es', hrecord', hsame⟩ := ih hrecord
      obtain ⟨g, hg, ρ, es'', hrecord'', hsame'⟩ := ih' hrecord'
      exact ⟨g ∘ f, hg.comp hf, ρ, es'', hrecord'', hsame.trans hsame'⟩

end Whyrun
