import Whyrun.Execution.Attribution

/-!
The most recent owner of each pid, as a history tells it: its parent, the
executable that it runs, when it started and how it ended. The process table
of the execution state follows the census, and `CensusTurn` says which events
go with each of its changes.
-/

namespace Whyrun

open ByteText ExecutionState

/-! ### The owners of a history -/

/-- The most recent owner of a pid. -/
structure ProcessLife where
  parent : Pid
  executable : Bytes
  /-- The time of its fork; for the root that of its first exec. -/
  startNs : Option UInt64
  /-- Time, exit code and signal of its exit. -/
  ended : Option (UInt64 × Int32 × Int32) := none

abbrev Census := Pid → Option ProcessLife

namespace Census

def initial (root : Pid) : Census :=
  Function.update (fun _ => none) root (some { parent := 0, executable := [], startNs := none })

def next (root : Pid) (past : List Notification) (census : Census) : Notification → Census
  | .created parentTid childTid ptraceEvent cloneFlags t =>
      match (taskTree root past).owner parentTid with
      | none => census
      | some parent =>
          if isThreadCreation ptraceEvent cloneFlags then census
          else
            Function.update census childTid (some
              { parent, executable := ((census parent).map (·.executable)).getD []
                startNs := some t })
  | .exec tid links t =>
      match (taskTree root past).owner tid with
      | none => census
      | some p =>
          Function.update census p ((census p).map fun life =>
            { life with
              executable := links.executable, startNs := some (life.startNs.getD t) })
  | .exited tid exitCode termSignal t =>
      if (taskTree root past).owner tid = some tid then
        Function.update census tid ((census tid).map fun life =>
          { life with ended := some (t, exitCode, termSignal) })
      else census
  | _ => census

end Census

/-- The census after a history. -/
def census (root : Pid) (ns : List Notification) : Census :=
  (ns.foldl (fun r n => (r.1 ++ [n], Census.next root r.1 r.2 n)) ([], Census.initial root)).2

theorem census_snoc (root : Pid) (past : List Notification) (n : Notification) :
    census root (past ++ [n]) = Census.next root past (census root past) n :=
  Traces.foldl_history_snoc (Census.next root) _ past n

/-! ### What the census knows -/

/-- The census describes every live process; it takes a process that has not
exited for live, and only the root for one that has not started. -/
structure CensusInv (root : Pid) (past : List Notification) : Prop where
  described : ∀ p, (taskTree root past).Live p → ∃ life, census root past p = some life
  alive : ∀ p life, census root past p = some life → life.ended = none →
    (taskTree root past).owner p = some p
  unstarted : ∀ p life, census root past p = some life → life.startNs = none → p = root
  root : ∃ life, census root past root = some life

variable {root : Pid} {past : List Notification} {n : Notification}

theorem censusInv_nil : CensusInv root [] := by
  have hcensus : census root [] = Census.initial root := rfl
  have htree : taskTree root [] = TaskTree.initial root := rfl
  constructor
  · rintro p ⟨tid, htid⟩
    rw [htree] at htid
    obtain ⟨-, rfl⟩ := TaskTree.owner_initial htid
    exact ⟨_, by rw [hcensus, Census.initial, Function.update_self]⟩
  · intro p life hlife _
    by_cases h : p = root
    · subst h
      simp [htree, TaskTree.initial]
    · simp [hcensus, Census.initial, Function.update_of_ne h] at hlife
  · intro p life hlife _
    by_contra h
    simp [hcensus, Census.initial, Function.update_of_ne h] at hlife
  · exact ⟨_, by rw [hcensus, Census.initial, Function.update_self]⟩

/-! ### One notification -/

/-- The events that the process table is made from. -/
def EventType.isLife : EventType → Bool
  | .processExec | .processFork | .processExit => true
  | _ => false

/-- The process table of the execution state follows the census. -/
def MatchesCensus (σ : ExecutionState) (census : Census) : Prop :=
  ∀ p life, census p = some life → ∃ P, σ.processes p = some P ∧
    P.parentPid = life.parent ∧ P.executable = life.executable

/-- A process starts under a pid under which none has started before, and
before its own exit is reported. -/
def StartsOnce (root : Pid) (past : List Notification) : Notification → Prop
  | .created _ childTid ptraceEvent cloneFlags _ =>
      isThreadCreation ptraceEvent cloneFlags = false →
        ∀ life, census root past childTid = some life → life.startNs = none
  | .exec tid _ _ =>
      ∀ p life, (taskTree root past).owner tid = some p → census root past p = some life →
        life.startNs = none → life.ended = none
  | _ => True

/-- What a notification does to the census, and the events that tell it. -/
inductive CensusTurn (root : Pid) (past : List Notification) :
    Notification → List Event → Census → Prop
  | quiet {n : Notification} {es : List Event} (silent : ∀ e ∈ es, e.type.isLife = false)
      (once : StartsOnce root past n)
      (keeps : ∀ p, (taskTree root past).owner p = some p →
        (taskTree root (past ++ [n])).owner p = some p) :
      CensusTurn root past n es (census root past)
  | fork {parentTid child parent : Pid} {ev : UInt32} {flags t : UInt64} {life : ProcessLife}
      {P : ProcessState}
      (owner : (taskTree root past).owner parentTid = some parent)
      (process : isThreadCreation ev flags = false)
      (found : census root past parent = some life) (pid : P.pid = parent)
      (executable : P.executable = life.executable) :
      CensusTurn root past (.created parentTid child ev flags t)
        [forkEvent P parentTid child ev t]
        (Function.update (census root past) child (some
          { parent, executable := life.executable, startNs := some t }))
  | exec {tid p : Pid} {links : ProcLinks} {t : UInt64} {life : ProcessLife} {P : ProcessState}
      {id : Option UInt64}
      (owner : (taskTree root past).owner tid = some p)
      (found : census root past p = some life) (pid : P.pid = p)
      (parent : P.parentPid = life.parent) :
      CensusTurn root past (.exec tid links t)
        [{ execEvent P tid links.executable t with commandId := id }]
        (Function.update (census root past) p (some
          { life with
            executable := links.executable, startNs := some (life.startNs.getD t) }))
  | exit {tid : Pid} {code signal : Int32} {t : UInt64} {life : ProcessLife}
      {P : ProcessState} {id : Option UInt64} {es : List Event}
      (owner : (taskTree root past).owner tid = some tid)
      (found : census root past tid = some life) (pid : P.pid = tid)
      (silent : ∀ e ∈ es, e.type.isLife = false) :
      CensusTurn root past (.exited tid code signal t)
        ({ exitEvent P tid code signal t with commandId := id } :: es)
        (Function.update (census root past) tid (some
          { life with ended := some (t, code, signal) }))

/-- What is read after one pid has got a new owner. -/
theorem eq_or_of_update {census : Census} {p q : Pid} {life life' : ProcessLife}
    (h : Function.update census q (some life') p = some life) :
    (p = q ∧ life' = life) ∨ (p ≠ q ∧ census p = some life) := by
  by_cases hp : p = q
  · subst hp
    rw [Function.update_self, Option.some.injEq] at h
    exact .inl ⟨rfl, h⟩
  · rw [Function.update_of_ne hp] at h
    exact .inr ⟨hp, h⟩

section turns

variable {cwd : Bytes} {rootCommand : Option Bytes} {startNs : UInt64}
  {σ σ' : ExecutionState} {es : List Event}

theorem Effect.censusTurn (he : Effect σ n σ' es) (hkeyed : σ.Keyed)
    (htracks : Tracks root cwd rootCommand startNs past σ) (h : CensusInv root past)
    (hmatches : MatchesCensus σ (census root past)) (admits : TreeAdmits root past n) :
    CensusTurn root past n es (census root (past ++ [n])) := by
  obtain ⟨p, howner⟩ := admits.live
  obtain ⟨life, hlife⟩ := h.described p ⟨_, howner⟩
  obtain ⟨Q, hQ, hparent, hexecutable⟩ := hmatches p life hlife
  have hkey : σ.processForThread n.task = p := htracks.processForThread howner
  have hpid : Q.pid = p := hkeyed p Q hQ
  have htree := taskTree_snoc root past n
  rw [census_snoc]
  -- a leader that exits is its own process
  have hleader : σ.processForThread n.task = n.task → p = n.task := fun h => hkey.symm.trans h
  cases he with
  | markerIgnored | arm =>
      exact .quiet (by simp) trivial fun q hq => by rw [htree]; exact hq
  | start | stop =>
      exact .quiet (by simp [EventType.isLife, commandStartEvent, commandEndEvent]) trivial
        fun q hq => by rw [htree]; exact hq
  | @exec tid links t P found =>
      simp only [Notification.task] at howner hkey
      rw [hkey, hQ] at found
      obtain rfl := Option.some.inj found
      simp only [Census.next, howner, hlife, Option.map_some]
      exact .exec howner hlife hpid hparent
  | execDiscovered unknown | createdUnknown unknown | syscallUnknown unknown =>
      simp only [Notification.task] at hkey
      rw [hkey, hQ] at unknown
      contradiction
  | @createdThread parentTid childTid ev flags t P found thread =>
      simp only [Notification.task] at howner
      have hsame : Census.next root past (census root past)
          (.created parentTid childTid ev flags t) = census root past := by
        simp [Census.next, howner, thread]
      rw [hsame]
      refine .quiet (by simp) (by simp [StartsOnce, thread]) fun q hq => ?_
      have hne : q ≠ childTid := by
        rintro rfl
        simpa [Notification.creates] using admits.fresh q ⟨q, hq⟩
      rw [htree]
      simp [TaskTree.next, howner, thread, Function.update_of_ne hne, hq]
  | @createdProcess parentTid childTid ev flags t P found process =>
      simp only [Notification.task] at howner hkey
      rw [hkey, hQ] at found
      obtain rfl := Option.some.inj found
      simp only [Census.next, howner, process, hlife, Option.map_some, Option.getD_some,
        Bool.false_eq_true, if_false]
      exact .fork howner process hlife hpid hexecutable
  | @exitedThread tid code signal t thread =>
      simp only [Notification.task] at howner hkey
      have hother : p ≠ tid := fun h => thread (hkey.trans h)
      have hsame : Census.next root past (census root past) (.exited tid code signal t) =
          census root past := by
        simp [Census.next, howner, hother]
      rw [hsame]
      refine .quiet (by simp) trivial fun q hq => ?_
      have hne : q ≠ tid := by
        rintro rfl
        exact hother (Option.some.inj (howner.symm.trans hq))
      rw [htree]
      simp [TaskTree.next, Function.update_of_ne hne, hq]
  | exitedUnknown leader unknown =>
      rw [hleader leader, Notification.task, unknown] at hQ
      contradiction
  | exited leader found | exitedRunning leader found | exitedIdle leader found =>
      obtain rfl : p = _ := hleader leader
      simp only [Notification.task] at howner hlife hQ hpid
      rw [hQ] at found
      obtain rfl := Option.some.inj found
      simp only [Census.next, howner, if_true, hlife, Option.map_some]
      exact .exit howner hlife hpid (by simp [EventType.isLife, commandEndEvent])
  | @syscall memory call P found =>
      refine .quiet (fun e he => ?_) trivial fun q hq => by rw [htree]; exact hq
      obtain ⟨raw, hraw, rfl⟩ := List.mem_map.mp he
      obtain ⟨type, resource, metadata, hio, rfl⟩ :=
        (syscallExit_spec memory P call).event raw (Option.mem_toList.mp hraw)
      cases type <;> first | rfl | contradiction

/-- Every turn keeps what the census knows. -/
theorem CensusTurn.censusInv {next : Census} (hturn : CensusTurn root past n es next)
    (hnext : census root (past ++ [n]) = next) (h : CensusInv root past)
    (admits : TreeAdmits root past n) : CensusInv root (past ++ [n]) := by
  have hkept : ∀ p life, census root past p = some life → ∃ life', next p = some life' := by
    intro p life hlife
    cases hturn with
    | quiet => exact ⟨life, hlife⟩
    | fork | exec | exit =>
        rw [Function.update_apply]
        split
        · exact ⟨_, rfl⟩
        · exact ⟨life, hlife⟩
  have hforked : ∀ p parentTid parent ev flags t, n = .created parentTid p ev flags t →
      (taskTree root past).owner parentTid = some parent → isThreadCreation ev flags = false →
      ∃ life, next p = some life := by
    rintro p parentTid parent ev flags t rfl hparent hprocess
    simp [← hnext, census_snoc, Census.next, hparent, hprocess]
  refine ⟨fun p hlive => ?_, fun p life hlife hended => ?_, fun p life hlife hstart => ?_, ?_⟩
  · rw [taskTree_snoc] at hlive
    rw [hnext]
    rcases live_next hlive with hpast | ⟨_, _, _, _, _, hn, hparent, hprocess, -⟩
    · obtain ⟨life, hlife⟩ := h.described p hpast
      exact hkept p life hlife
    · exact hforked _ _ _ _ _ _ hn hparent hprocess
  · rw [hnext] at hlife
    cases hturn with
    | quiet silent once keeps => exact keeps p (h.alive p life hlife hended)
    | fork owner process =>
        rw [taskTree_snoc]
        rcases eq_or_of_update hlife with ⟨rfl, -⟩ | ⟨hp, hlife⟩
        · simp [TaskTree.next, owner, process]
        · simp [TaskTree.next, owner, process, Function.update_of_ne hp,
            h.alive p life hlife hended]
    | exec owner found =>
        rw [taskTree_snoc]
        rcases eq_or_of_update hlife with ⟨rfl, rfl⟩ | ⟨hp, hlife⟩
        · exact h.alive p _ found hended
        · exact h.alive p life hlife hended
    | exit =>
        rw [taskTree_snoc]
        rcases eq_or_of_update hlife with ⟨rfl, rfl⟩ | ⟨hp, hlife⟩
        · contradiction
        · simp [TaskTree.next, Function.update_of_ne hp, h.alive p life hlife hended]
  · rw [hnext] at hlife
    cases hturn with
    | quiet => exact h.unstarted p life hlife hstart
    | fork | exec =>
        rcases eq_or_of_update hlife with ⟨rfl, rfl⟩ | ⟨hp, hlife⟩
        · contradiction
        · exact h.unstarted p life hlife hstart
    | exit owner found =>
        rcases eq_or_of_update hlife with ⟨rfl, rfl⟩ | ⟨hp, hlife⟩
        · exact h.unstarted p _ found hstart
        · exact h.unstarted p life hlife hstart
  · obtain ⟨life, hlife⟩ := h.root
    rw [hnext]
    exact hkept root life hlife

theorem MatchesCensus.setProcess {census : Census} {key : Pid} {P P' : ProcessState}
    (h : MatchesCensus σ census) (found : σ.processes key = some P) (hparent : P'.parentPid = P.parentPid)
    (hexecutable : P'.executable = P.executable) : MatchesCensus (σ.setProcess key P') census := by
  intro p life hlife
  obtain ⟨Q, hQ, hQparent, hQexecutable⟩ := h p life hlife
  by_cases hp : p = key
  · subst hp
    obtain rfl := Option.some.inj (found.symm.trans hQ)
    exact ⟨P', by simp, hparent.trans hQparent, hexecutable.trans hQexecutable⟩
  · exact ⟨Q, by simp [hp, hQ], hQparent, hQexecutable⟩

theorem Effect.matchesCensus (he : Effect σ n σ' es) (hkeyed : σ.Keyed)
    (htracks : Tracks root cwd rootCommand startNs past σ) (h : CensusInv root past)
    (hmatches : MatchesCensus σ (census root past)) (admits : TreeAdmits root past n) :
    MatchesCensus σ' (census root (past ++ [n])) := by
  have hturn := he.censusTurn hkeyed htracks h hmatches admits
  have hknown := htracks.known admits
  generalize census root (past ++ [n]) = next at hturn
  cases hturn with
  | quiet silent once keeps =>
      cases he with
      | markerIgnored | createdUnknown | exitedUnknown | syscallUnknown => exact hmatches
      | start | createdThread | exitedThread => exact hmatches
      | arm found | stop found => exact hmatches.setProcess found rfl rfl
      | exec | execDiscovered | createdProcess | exited | exitedIdle | exitedRunning =>
          simp [EventType.isLife, execEvent, forkEvent, exitEvent, attributed] at silent
      | @syscall memory call P found =>
          have hsame := (syscallExit_spec memory P call).identity
          exact hmatches.setProcess found hsame.parentPid hsame.executable
  | @fork parentTid child parent ev flags t life Q owner process lfound =>
      generalize [forkEvent Q parentTid child ev t] = es at he
      obtain ⟨R, hR, hparent, hexecutable⟩ := hmatches parent life lfound
      have hkey := htracks.processForThread owner
      cases he with
      | createdUnknown unknown =>
          rw [hkey, hR] at unknown
          contradiction
      | createdThread found thread =>
          rw [process] at thread
          contradiction
      | @createdProcess _ _ _ _ _ P found =>
          rw [hkey, hR, Option.some.injEq] at found
          subst found
          intro p life' hlife'
          rcases eq_or_of_update hlife' with ⟨rfl, rfl⟩ | ⟨hp, hlife'⟩
          · exact ⟨{ R with pid := p, parentPid := R.pid }, by simp, hkeyed _ R hR, hexecutable⟩
          · obtain ⟨P', hP', hsame⟩ := hmatches p life' hlife'
            exact ⟨P', by simp [hp, hP'], hsame⟩
  | @exec tid p links t life Q id owner lfound =>
      generalize [{ execEvent Q tid links.executable t with commandId := id }] = es at he
      obtain ⟨R, hR, hparent, hexecutable⟩ := hmatches p life lfound
      have hkey := htracks.processForThread owner
      cases he with
      | execDiscovered unknown =>
          rw [hkey, hR] at unknown
          contradiction
      | @exec _ _ _ P found =>
          rw [hkey, hR, Option.some.injEq] at found
          subst found
          rw [hkey]
          intro q life' hlife'
          rcases eq_or_of_update hlife' with ⟨rfl, rfl⟩ | ⟨hq, hlife'⟩
          · exact ⟨{ R with executable := links.executable }, by simp, hparent, rfl⟩
          · obtain ⟨P', hP', hsame⟩ := hmatches q life' hlife'
            exact ⟨P', by simp [hq, hP'], hsame⟩
  | @exit tid code signal t life Q id es owner lfound =>
      generalize ({ exitEvent Q tid code signal t with commandId := id } :: es) = es' at he
      -- the census changes only in how the life has ended
      suffices h : MatchesCensus σ' (census root past) by
        intro q life' hlife'
        rcases eq_or_of_update hlife' with ⟨rfl, rfl⟩ | ⟨hq, hlife'⟩
        · exact h q life lfound
        · exact h q life' hlife'
      cases he with
      | exitedThread | exitedUnknown => exact hmatches
      | exited leader found | exitedRunning leader found => exact hmatches.setProcess found rfl rfl
      | exitedIdle leader found =>
          refine hmatches.setProcess found ?_ ?_
          · split <;> rfl
          · split <;> rfl

/-- The process table follows the census over every legal run. -/
theorem census_run {ns : List Notification} (legal : Transducer.Legal (TreeAdmits root) ns)
    (hrun : Transducer.run notify (initialState root cwd rootCommand startNs) ns = .ok (σ, es)) :
    CensusInv root ns ∧ MatchesCensus σ (census root ns) := by
  refine Transducer.run_induction
    (motive := fun past σ _ => CensusInv root past ∧ MatchesCensus σ (census root past))
    ⟨censusInv_nil, fun p life hlife => ?_⟩ ?_ legal.history hrun
  · rw [show census root [] = Census.initial root from rfl, Census.initial] at hlife
    rcases eq_or_of_update hlife with ⟨rfl, rfl⟩ | ⟨-, hnone⟩
    · exact ⟨_, by rw [initialState_processes, if_pos rfl], rfl, rfl⟩
    · contradiction
  · rintro past σ out n σ' o hrun ⟨hinv, hmatches⟩ ⟨hlegal, hadmits⟩ hstep
    have he := notify_effect hstep
    have hkeyed := (lifecycle_run (legal_lifecycle hlegal) hrun).keyed
    have htracks := tracks_run hlegal hrun
    exact ⟨(he.censusTurn hkeyed htracks hinv hmatches hadmits).censusInv rfl hinv hadmits,
      he.matchesCensus hkeyed htracks hinv hmatches hadmits⟩

end turns

end Whyrun
