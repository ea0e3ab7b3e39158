import Whyrun.Library.ByteText
import Whyrun.Library.NameSearch
import Whyrun.Library.Relational

/-!
`record_command` of `src/main.cpp` with `default_capsule_path` and
`publish_capsule` of `src/sqlite_store.cpp`: any number of record processes in
one working directory, step by step. The text of the local time, from which
a name is made, is part of the step that chooses it.
-/

namespace Whyrun

open ByteText

/-- Who has made a file of the working directory. -/
inductive FileOwner
  | capsule (id : ℕ)
  | command
  deriving DecidableEq

abbrev Directory := Relational.Table Bytes FileOwner

/-- `std::filesystem::exists`. -/
def Directory.holds (files : Directory) (path : Bytes) : Bool := (files.lookup path).isSome

/-- `copy_file` with `copy_options::none`, which fails when the target
exists. -/
def copyFile (files : Directory) (path : Bytes) (owner : FileOwner) : Option Directory :=
  if files.holds path then none else some (files.insert path owner)

/-! ### Paths -/

def capsuleCandidate (base : Bytes) (suffix : UInt32) : Bytes :=
  base ++ lit "-" ++ decimalNat suffix.toNat ++ lit ".wrun"

/-- `default_capsule_path`: the loop tests the plain name and then the numbered
ones; one turn more than there are files. -/
def defaultCapsulePath (files : Directory) (base : Bytes) : Option Bytes :=
  let candidate := base ++ lit ".wrun"
  if files.holds candidate then
    NameSearch.firstFree files.holds (capsuleCandidate base) files.keys.length 1
  else some candidate

/-! ### Record processes -/

inductive RecordStage
  | collecting
  | collected
  | thrown
  | published
  deriving DecidableEq

/-- A process of `whyrun record` after its path is chosen. -/
structure RecordRun where
  capsulePath : Bytes
  stage : RecordStage := .collecting
  /-- The temporary capsule exists. -/
  temporary : Bool := true
  deriving DecidableEq

inductive RecordStep
  | choose (id : ℕ) (base : Bytes)
  | collect (id : ℕ) (finished : Bool)
  | publish (id : ℕ)
  /-- A traced command creates a file. -/
  | create (path : Bytes)

structure RecordWorld where
  files : Directory
  runs : ℕ → Option RecordRun := fun _ => none

namespace RecordWorld

def setRun (w : RecordWorld) (id : ℕ) (run : RecordRun) : RecordWorld :=
  { w with runs := Function.update w.runs id (some run) }

/-- An exception leaves `record_command`; `TemporaryCapsuleGuard` removes the
temporary capsule. -/
def throws (w : RecordWorld) (id : ℕ) (run : RecordRun) : RecordWorld :=
  w.setRun id { run with stage := .thrown, temporary := false }

def publishCapsule (w : RecordWorld) (id : ℕ) (run : RecordRun) : RecordWorld :=
  match copyFile w.files run.capsulePath (.capsule id) with
  | none => w.throws id run
  | some files =>
      { w with files }.setRun id { run with stage := .published, temporary := false }

def step (w : RecordWorld) : RecordStep → RecordWorld
  | .choose id base =>
      match defaultCapsulePath w.files base with
      | none => w
      | some capsulePath => w.setRun id { capsulePath }
  | .collect id finished =>
      match w.runs id with
      | none => w
      | some run =>
          if finished then w.setRun id { run with stage := .collected } else w.throws id run
  | .publish id =>
      match w.runs id with
      | none => w
      | some run => w.publishCapsule id run
  | .create path => { w with files := (copyFile w.files path .command).getD w.files }

end RecordWorld

end Whyrun
