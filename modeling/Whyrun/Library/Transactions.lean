import Whyrun.Library.Transducer

/-!
A connection to a store with transactions, every statement of which may
throw. An exception carries the connection that it leaves behind. Inside a
transaction nothing reaches the store before the commit; a run that nothing
interrupts is the run of its statements one after another.
-/

namespace Transactions

variable {S ε : Type*}

structure Connection (S : Type*) where
  /-- What the store holds. -/
  committed : S
  /-- What an open transaction has made of it. -/
  working : Option S := none
  /-- How many commands have been tried. -/
  position : ℕ := 0

inductive Command (S ε : Type*)
  | statement (run : S → Except ε S)
  | beginTransaction
  | commit

/-- What a command does to the content that the connection sees. -/
def Command.effect : Command S ε → S → Except ε S
  | statement run => run
  | beginTransaction | commit => .ok

namespace Connection

/-- The content that the connection sees. -/
def current (c : Connection S) : S := c.working.getD c.committed

/-- A statement outside of a transaction is a transaction of its own. -/
def write (c : Connection S) (s : S) : Connection S :=
  match c.working with
  | none => { c with committed := s }
  | some _ => { c with working := some s }

/-- A command; `faults` says which commands of the run are made to throw. -/
def execute (faults : ℕ → Option ε) (c : Connection S) (command : Command S ε) :
    Except (ε × Connection S) (Connection S) :=
  let next := { c with position := c.position + 1 }
  match faults c.position with
  -- thrown before the command has done anything
  | some e => .error (e, next)
  | none =>
      match command with
      | .statement run =>
          match run c.current with
          | .error e => .error (e, next)
          | .ok s => .ok (next.write s)
      | .beginTransaction => .ok { next with working := some c.current }
      | .commit => .ok { next with committed := c.current, working := none }

def executeAll (faults : ℕ → Option ε) (c : Connection S) (commands : List (Command S ε)) :
    Except (ε × Connection S) (Connection S) :=
  commands.foldlM (execute faults) c

/-- `ROLLBACK`, which may throw as well; what it throws is dropped. -/
def rollback (faults : ℕ → Option ε) (c : Connection S) : Connection S :=
  match faults c.position with
  | some _ => c
  | none => { c with working := none }

/-- The store after the connection is closed: an open transaction is lost. -/
def close (c : Connection S) : S := c.committed

@[simp] theorem close_rollback (faults : ℕ → Option ε) (c : Connection S) :
    (c.rollback faults).close = c.close := by
  unfold rollback
  split <;> rfl

variable {faults : ℕ → Option ε} {c c' : Connection S} {command : Command S ε}
  {commands : List (Command S ε)}

/-! ### Runs without an exception -/

theorem current_write (c : Connection S) (s : S) : (c.write s).current = s := by
  unfold write current
  split
  · rename_i hworking
    simp [hworking]
  · rfl

theorem effect_of_execute (h : execute faults c command = .ok c') :
    command.effect c.current = .ok c'.current := by
  unfold execute at h
  cases hfault : faults c.position with
  | some e => simp [hfault] at h
  | none =>
      cases command with
      | statement run =>
          dsimp only [Command.effect]
          cases hrun : run c.current with
          | error e => simp [hfault, hrun] at h
          | ok s =>
              simp only [hfault, hrun, Except.ok.injEq] at h
              rw [← h, current_write]
      | beginTransaction =>
          simp only [hfault, Except.ok.injEq] at h
          exact h ▸ rfl
      | commit =>
          simp only [hfault, Except.ok.injEq] at h
          exact h ▸ rfl

/-- A run that nothing interrupts executes its statements one after another. -/
theorem effects_of_executeAll (h : executeAll faults c commands = .ok c') :
    commands.foldlM (fun s command => command.effect s) c.current = .ok c'.current := by
  induction commands generalizing c with
  | nil =>
      obtain rfl := Transducer.foldlM_nil_ok_iff.mp h
      rfl
  | cons command commands ih =>
      obtain ⟨middle, hfirst, hrest⟩ := Transducer.foldlM_cons_ok_iff.mp h
      exact Transducer.foldlM_cons_ok_iff.mpr ⟨_, effect_of_execute hfirst, ih hrest⟩

/-- What a run that ends with a commit has made is in the store. -/
theorem close_of_commit (commands : List (Command S ε))
    (h : executeAll faults c (commands ++ [.commit]) = .ok c') :
    c'.close = c'.current := by
  obtain ⟨middle, -, hlast⟩ := Transducer.foldlM_append_ok_iff.mp h
  obtain ⟨last, hcommit, hnil⟩ := Transducer.foldlM_cons_ok_iff.mp hlast
  obtain rfl := Transducer.foldlM_nil_ok_iff.mp hnil
  unfold execute at hcommit
  cases hfault : faults middle.position with
  | some e => simp [hfault] at hcommit
  | none =>
      simp only [hfault, Except.ok.injEq] at hcommit
      exact hcommit ▸ rfl

/-! ### Atomicity -/

/-- The connection that a run ends with or an exception leaves behind. -/
def leaves : Except (ε × Connection S) (Connection S) → Connection S
  | .ok c => c
  | .error (_, c) => c

theorem executeAll_append (faults : ℕ → Option ε) (c : Connection S)
    (commands commands' : List (Command S ε)) :
    executeAll faults c (commands ++ commands') =
      (executeAll faults c commands).bind fun c => executeAll faults c commands' :=
  List.foldlM_append

theorem executeAll_cons (faults : ℕ → Option ε) (c : Connection S) (command : Command S ε)
    (commands : List (Command S ε)) :
    executeAll faults c (command :: commands) =
      (execute faults c command).bind fun c => executeAll faults c commands :=
  List.foldlM_cons

/-- A transaction starts from what the store holds. -/
theorem leaves_beginTransaction (faults : ℕ → Option ε) (c : Connection S) :
    (leaves (execute faults c .beginTransaction)).close = c.close ∧
      ∀ c', execute faults c .beginTransaction = .ok c' → c'.working.isSome = true := by
  unfold execute
  dsimp only
  cases faults c.position with
  | some e => exact ⟨rfl, nofun⟩
  | none =>
      refine ⟨rfl, fun c' h => ?_⟩
      rw [← Except.ok.inj h]
      rfl

/-- Whatever every command keeps, thrown or not, a run keeps. -/
theorem leaves_executeAll {P : Connection S → Prop} (faults : ℕ → Option ε)
    (hstep : ∀ command ∈ commands, ∀ c, P c → P (leaves (execute faults c command)))
    (hstart : P c) : P (leaves (executeAll faults c commands)) := by
  induction commands generalizing c with
  | nil => exact hstart
  | cons command commands ih =>
      have hfirst := hstep command (by simp) c hstart
      rw [executeAll, List.foldlM_cons]
      cases hexecute : execute faults c command with
      | error r =>
          rw [hexecute] at hfirst
          exact hfirst
      | ok middle =>
          rw [hexecute] at hfirst
          exact ih (fun other hother => hstep other (by simp [hother])) hfirst

/-- Outside of a transaction a statement changes the store or throws. -/
theorem leaves_statement (faults : ℕ → Option ε) (run : S → Except ε S)
    (hclosed : c.working = none) :
    (leaves (execute faults c (.statement run))).working = none ∧
      ((leaves (execute faults c (.statement run))).close = c.close ∨
        run c.close = .ok (leaves (execute faults c (.statement run))).close) := by
  unfold execute
  dsimp only
  have hcurrent : c.current = c.close := by simp [current, close, hclosed]
  cases faults c.position with
  | some e => exact ⟨hclosed, .inl rfl⟩
  | none =>
      dsimp only
      rw [hcurrent]
      cases hrun : run c.close with
      | error e => exact ⟨hclosed, .inl rfl⟩
      | ok s => simp [leaves, write, hclosed, close]

/-- Inside a transaction no command but the commit reaches the store, wherever
it throws. -/
theorem leaves_in_transaction (faults : ℕ → Option ε) (hopen : c.working.isSome = true)
    (hcommand : command ≠ .commit) :
    (leaves (execute faults c command)).working.isSome = true ∧
      (leaves (execute faults c command)).close = c.close := by
  unfold execute
  dsimp only
  cases faults c.position with
  | some e => exact ⟨hopen, rfl⟩
  | none =>
      cases command with
      | commit => contradiction
      | beginTransaction => exact ⟨rfl, rfl⟩
      | statement run =>
          obtain ⟨s, hs⟩ := Option.isSome_iff_exists.mp hopen
          dsimp only
          cases run c.current with
          | error e => exact ⟨hopen, rfl⟩
          | ok s' => simp [leaves, write, hs, close]

/-- A transaction that is not committed leaves the store as it was. -/
theorem close_executeAll (faults : ℕ → Option ε) (hopen : c.working.isSome = true)
    (hcommands : ∀ command ∈ commands, command ≠ .commit) :
    (leaves (executeAll faults c commands)).working.isSome = true ∧
      (leaves (executeAll faults c commands)).close = c.close := by
  refine leaves_executeAll (P := fun other => other.working.isSome = true ∧ other.close = c.close)
    faults (fun command hcommand other hother => ?_) ⟨hopen, rfl⟩
  obtain ⟨hstill, hclose⟩ := leaves_in_transaction faults hother.1
    (hcommands command hcommand)
  exact ⟨hstill, hclose.trans hother.2⟩

/-- A transaction that throws, be it at its commit, leaves the store as it was. -/
theorem close_of_thrown {e : ε} (hopen : c.working.isSome = true)
    (hcommands : ∀ command ∈ commands, command ≠ .commit)
    (h : executeAll faults c (commands ++ [.commit]) = .error (e, c')) : c'.close = c.close := by
  obtain ⟨-, hclose⟩ := close_executeAll faults hopen hcommands
  rw [executeAll_append] at h
  cases hbody : executeAll faults c commands with
  | error r =>
      rw [hbody] at h hclose
      obtain rfl := Except.error.inj h
      exact hclose
  | ok middle =>
      rw [hbody] at h hclose
      unfold leaves at hclose
      simp only [Except.bind, executeAll, List.foldlM_cons, execute, Bind.bind] at h
      cases hfault : faults middle.position with
      | none => simp [hfault, Pure.pure, Except.pure] at h
      | some e' =>
          -- the commit itself throws
          simp only [hfault, Except.error.injEq, Prod.mk.injEq] at h
          rw [← h.2, ← hclose]
          rfl

end Connection

end Transactions
