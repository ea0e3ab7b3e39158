import Whyrun.Kernel.FileTracking
import Whyrun.Storage.Aggregation

/-!
What `show` lists under Files, against the reference kernel: the nodes that
were read and written, under their paths, with the number of calls and of
bytes that the kernel has moved.
-/

namespace Whyrun

open ByteText Relational DirectoryTree ExecutionState CapsuleWriter

variable {ν : Type} {nodes : Nodes ν}

/-- The lines for some uses of paths, each with the result of a call. -/
def useLines (uses : List (Bytes × ℤ)) : List FileLine :=
  (groups Prod.fst uses).map fun path =>
    let own := uses.filter fun use => use.1 = path
    ⟨path, own.length, (own.map fun use => max 0 use.2).sum⟩

/-- The reads or the writes of the kernel, by the paths of their nodes. -/
def kernelUses (nodes : Nodes ν) (log : List (Access ν)) (type : EventType) :
    List (Bytes × ℤ) :=
  (log.filter fun a => a.type = type).map fun a => (nodes.path a.node, a.result.toInt)

theorem groupedFileLines_eq (rows : List EventRow) :
    groupedFileLines rows = useLines (rows.map fun row => (row.resource, row.result)) := by
  unfold groupedFileLines useLines
  rw [groups_map]
  refine List.map_congr_left fun path _ => ?_
  have hown : (rows.map fun row => (row.resource, row.result)).filter (fun use => use.1 = path) =
      (rows.filter fun row => row.resource = path).map fun row => (row.resource, row.result) := by
    rw [List.filter_map]
    rfl
  have hbytes : positiveBytes (rows.filter fun row => row.resource = path) =
      (((rows.filter fun row => row.resource = path).map fun row =>
        (row.resource, row.result)).map fun use => max 0 use.2).sum := by
    rw [positiveBytes, List.map_map]
    refine congrArg List.sum (List.map_congr_left fun row _ => ?_)
    show (if 0 < row.result then row.result else 0) = max 0 row.result
    split <;> omega
  rw [groupedFileLine, hown, hbytes]
  simp

/-- The recorded transfers of a type are the observed accesses of the type. -/
theorem transfers_eq {es : List Event} {log : List (Access ν)} (read : Bool)
    (h : es.filterMap Event.access = log.map (Access.shown nodes)) :
    (es.filter fun e => e.type = transferType read).map (fun e => (e.resource, e.result.toInt)) =
      kernelUses nodes log (transferType read) := by
  have hrecorded : ((es.filterMap Event.access).filter fun a => a.2.1 = transferType read).map
      (fun a => (a.2.2.1, a.2.2.2.toInt)) =
        (es.filter fun e => e.type = transferType read).map
          fun e => (e.resource, e.result.toInt) := by
    clear h
    induction es with
    | nil => rfl
    | cons e es ih =>
        by_cases htype : e.type = transferType read
        · have haccess : e.access = some (e.pid, e.type, e.resource, e.result) :=
            if_pos (by rw [htype]; cases read <;> simp [transferType])
          rw [List.filterMap_cons_some haccess, List.filter_cons_of_pos (by simp [htype]),
            List.filter_cons_of_pos (by simp [htype]), List.map_cons, List.map_cons, ih]
        · rw [List.filter_cons_of_neg (by simp [htype]), ← ih]
          by_cases haccess : e.access = none
          · rw [List.filterMap_cons_none haccess]
          · have hsome : e.access = some (e.pid, e.type, e.resource, e.result) := by
              unfold Event.access at haccess ⊢
              split at haccess
              · rename_i hkind
                rw [if_pos hkind]
              · contradiction
            rw [List.filterMap_cons_some hsome, List.filter_cons_of_neg (by simp [htype])]
  rw [← hrecorded, h, List.filter_map, List.map_map]
  rfl

/-- The Files section of a capsule is computed from what the kernel did: under
READ and WRITE one line for each path of a node that was read or written, in
order, with the number of the calls on nodes of that path and the bytes that
these have moved. -/
theorem shown_files_are_accessed {root : Pid} {directory : ν} {isInherited : Int32 → Bool}
    {rootCommand : Option Bytes} {startNs : UInt64} {actions : List (FileAction nodes)}
    {σ : ExecutionState} {es : List Event} {run : RunMetadata} {capsule : Capsule}
    (legal : Transducer.Legal (FileAdmits root directory isInherited) actions)
    (hrecord : record root (nodes.path directory) rootCommand startNs
      (actions.map FileAction.notification) = .ok (σ, es))
    (hstore : emitAll (create run) es = .ok capsule) :
    ∃ tasks log, fileRun root directory isInherited actions = .ok (tasks, log) ∧
      fileLines capsule none true = useLines (kernelUses nodes log .fileRead) ∧
      fileLines capsule none false = useLines (kernelUses nodes log .fileWrite) := by
  obtain ⟨tasks, log, hspec, -, hobserved⟩ := files_tracked legal hrecord
  have hlines : ∀ read, fileLines capsule none read =
      useLines (kernelUses nodes log (transferType read)) := by
    intro read
    have hrows : (rowsOfType capsule (transferType read) none).map
        (fun row => (row.resource, row.result)) =
          (es.filter fun e => e.type = transferType read).map
            fun e => (e.resource, e.result.toInt) := by
      rw [rowsOfType, events_recording hstore]
      refine map_filter_eventRows (fun i e => ?_) (fun _ _ => rfl) 0 es
      rw [inCommand, Bool.and_true]
      exact decide_eq_decide.mpr eventTypeName_inj
    rw [fileLines_none hstore, groupedFileLines_eq, hrows, transfers_eq read hobserved]
  exact ⟨tasks, log, hspec, hlines true, hlines false⟩

/-- The file that is read in the sample run is listed with its five bytes. -/
theorem shown_files_are_accessed_sample :
    ∃ σ es capsule, record 7 (lit "/") none 0 (sampleFiles.map FileAction.notification) =
        .ok (σ, es) ∧ emitAll (create sampleRun) es = .ok capsule ∧
      fileLines capsule none true = [⟨lit "/srv/b/c", 1, 5⟩] ∧
      fileLines capsule none false = [] := by
  obtain ⟨σ, es, hrecord⟩ : ∃ σ es, record 7 (lit "/") none 0
      (sampleFiles.map FileAction.notification) = .ok (σ, es) := ⟨_, _, rfl⟩
  obtain ⟨capsule, hstore⟩ : ∃ capsule, emitAll (create sampleRun) es = .ok capsule := by
    obtain ⟨-, rfl⟩ := Prod.mk.inj (Except.ok.inj hrecord)
    exact ⟨_, emitAll_ok_iff.mpr ⟨_, _, rfl, rfl, rfl⟩⟩
  obtain ⟨tasks, log, hspec, hread, hwrite⟩ :=
    shown_files_are_accessed sampleFiles_legal hrecord hstore
  obtain ⟨-, rfl⟩ := Prod.mk.inj (Except.ok.inj hspec)
  refine ⟨σ, es, capsule, hrecord, hstore, hread.trans ?_, hwrite.trans ?_⟩
  · rfl
  · rfl

end Whyrun
