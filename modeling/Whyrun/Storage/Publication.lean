import Whyrun.Library.Transducer
import Whyrun.Model.RecordCommand

/-!
Record processes that share a working directory. A path is tested when a
recording starts and taken when it ends: the recording is kept exactly when
nothing appears under its path in between. No capsule is ever overwritten.
-/

namespace Whyrun

open ByteText

variable {files : Directory} {base path : Bytes}

/-! ### The choice of a path -/

theorem holds_defaultCapsulePath (h : defaultCapsulePath files base = some path) :
    files.holds path = false := by
  rw [defaultCapsulePath] at h
  split at h
  · exact (NameSearch.firstFree_spec h).1
  · rename_i hfree
    rw [← Option.some.inj h]
    simpa using hfree

/-- The names that the loop tries are different. -/
theorem capsuleCandidate_inj {suffix suffix' : UInt32}
    (h : capsuleCandidate base suffix = capsuleCandidate base suffix') : suffix = suffix' := by
  unfold capsuleCandidate at h
  have hdigits : decimalNat suffix.toNat = decimalNat suffix'.toNat :=
    List.append_cancel_left (List.append_cancel_right h)
  have hvalue := congrArg digitsValue hdigits
  rw [digitsValue_decimalNat, digitsValue_decimalNat] at hvalue
  exact UInt32.toNat_inj.mp hvalue

theorem capsuleCandidate_ne_plain (suffix : UInt32) :
    capsuleCandidate base suffix ≠ base ++ lit ".wrun" := by
  intro h
  have hlength := congrArg List.length h
  simp only [capsuleCandidate, List.length_append] at hlength
  have hdash : (lit "-").length = 1 := by decide
  omega

theorem mem_keys_of_holds (h : files.holds path = true) : path ∈ files.keys :=
  (Relational.Table.mem_keys_iff_lookup files path).mpr (Option.isSome_iff_exists.mp h)

/-- The loop of `default_capsule_path` ends in any directory with fewer files
than there are suffixes. -/
theorem defaultCapsulePath_isSome (hfiles : files.keys.length < 2 ^ 32) :
    (defaultCapsulePath files base).isSome = true := by
  rw [defaultCapsulePath]
  split
  · rename_i hplain
    have hmem := mem_keys_of_holds hplain
    have hlength := List.length_erase_of_mem hmem
    have hpositive := List.length_pos_of_mem hmem
    have hfuel : files.keys.length =
        (files.keys.erase (base ++ lit ".wrun")).length + 1 := by omega
    have hfewer : (files.keys.erase (base ++ lit ".wrun")).length < UInt32.size := by
      rw [show UInt32.size = 2 ^ 32 from rfl]
      omega
    rw [hfuel]
    refine NameSearch.firstFree_isSome (fun _ _ => capsuleCandidate_inj) (fun suffix htaken => ?_)
      hfewer 1
    exact (List.mem_erase_of_ne (capsuleCandidate_ne_plain suffix)).mpr (mem_keys_of_holds htaken)
  · rfl

/-! ### One step -/

namespace RecordWorld

/-- What a record process may do next. -/
def Admits (w : RecordWorld) : RecordStep → Prop
  | .choose id base => w.runs id = none ∧ (defaultCapsulePath w.files base).isSome = true
  | .collect id _ => ∃ run, w.runs id = some run ∧ run.stage = .collecting
  | .publish id => ∃ run, w.runs id = some run ∧ run.stage = .collected
  | .create _ => True

/-- The path under which a step tries to make a file. -/
def claims (w : RecordWorld) : RecordStep → Option Bytes
  | .create path => some path
  | .publish id => (w.runs id).map (·.capsulePath)
  | _ => none

variable {w : RecordWorld} {s : RecordStep} {id : ℕ} {run : RecordRun}

/-- A step leaves the files alone or makes one where there was none. -/
theorem step_files (w : RecordWorld) (s : RecordStep) :
    ((w.step s).files = w.files ∧ ∀ path, w.claims s = some path → w.files.holds path = true) ∨
      ∃ path owner, w.claims s = some path ∧ w.files.holds path = false ∧
        (w.step s).files = w.files.insert path owner := by
  have hcopy : ∀ path owner,
      copyFile w.files path owner = none ∧ w.files.holds path = true ∨
        copyFile w.files path owner = some (w.files.insert path owner) ∧
          w.files.holds path = false := by
    intro path owner
    unfold copyFile
    split
    · exact .inl ⟨rfl, ‹_›⟩
    · rename_i hfree
      exact .inr ⟨rfl, by simpa using hfree⟩
  cases s with
  | choose id base =>
      left
      simp only [step]
      split <;> simp [claims, setRun]
  | collect id finished =>
      left
      simp only [step]
      split
      · simp [claims]
      · split <;> simp [claims, setRun, throws]
  | publish id =>
      simp only [step, claims]
      cases hrun : w.runs id with
      | none => exact .inl ⟨rfl, by simp⟩
      | some run =>
          simp only [publishCapsule]
          rcases hcopy run.capsulePath (.capsule id) with ⟨hnone, hholds⟩ | ⟨hsome, hfree⟩
          · left
            rw [hnone]
            exact ⟨rfl, fun path hpath => by rw [← Option.some.inj hpath]; exact hholds⟩
          · right
            rw [hsome]
            exact ⟨_, _, rfl, hfree, rfl⟩
  | create path =>
      simp only [step, claims]
      rcases hcopy path .command with ⟨hnone, hholds⟩ | ⟨hsome, hfree⟩
      · left
        rw [hnone]
        exact ⟨rfl, fun other hother => by rw [← Option.some.inj hother]; exact hholds⟩
      · right
        rw [hsome]
        exact ⟨_, _, rfl, hfree, rfl⟩

/-- A file of the directory keeps its owner. -/
theorem lookup_step {path : Bytes} {owner : FileOwner} (h : w.files.lookup path = some owner) :
    (w.step s).files.lookup path = some owner := by
  rcases step_files w s with ⟨hsame, -⟩ | ⟨made, _, -, hfree, hmade⟩
  · rw [hsame, h]
  · rw [hmade, Relational.Table.lookup_insert_iff, if_neg, h]
    rintro rfl
    simp [Directory.holds, h] at hfree

/-- After a step a path is taken if it was taken or the step claims it. -/
theorem holds_step {path : Bytes} :
    (w.step s).files.holds path = true ↔
      w.files.holds path = true ∨ w.claims s = some path := by
  rcases step_files w s with ⟨hsame, hclaims⟩ | ⟨made, owner, hclaims, -, hmade⟩
  · rw [hsame]
    exact ⟨.inl, fun h => h.elim id (hclaims path)⟩
  · rw [hmade, Directory.holds, Relational.Table.lookup_insert_iff, hclaims, Option.some.injEq]
    by_cases hpath : path = made
    · simp [hpath]
    · simp [hpath, Ne.symm hpath, Directory.holds]

/-- A process keeps its path, and one that has ended does not change. -/
theorem runs_step (hadmits : w.Admits s) (hrun : w.runs id = some run) :
    ∃ run', (w.step s).runs id = some run' ∧ run'.capsulePath = run.capsulePath ∧
      (run.stage = .thrown ∨ run.stage = .published → run' = run) := by
  cases s with
  | choose other base =>
      obtain ⟨hnew, -⟩ := hadmits
      have hne : id ≠ other := by
        rintro rfl
        rw [hnew] at hrun
        contradiction
      refine ⟨run, ?_, rfl, fun _ => rfl⟩
      simp only [step]
      split
      · exact hrun
      · simp [setRun, hne, hrun]
  | collect other finished =>
      obtain ⟨current, hcurrent, hstage⟩ := hadmits
      by_cases hid : id = other
      · subst hid
        obtain rfl : current = run := by rw [hrun] at hcurrent; simpa using hcurrent.symm
        simp only [step, hcurrent]
        split <;> simp [setRun, throws, hstage]
      · refine ⟨run, ?_, rfl, fun _ => rfl⟩
        simp only [step, hcurrent]
        split <;> simp [setRun, throws, hid, hrun]
  | publish other =>
      obtain ⟨current, hcurrent, hstage⟩ := hadmits
      by_cases hid : id = other
      · subst hid
        obtain rfl : current = run := by rw [hrun] at hcurrent; simpa using hcurrent.symm
        simp only [step, hcurrent, publishCapsule]
        split <;> simp [setRun, throws, hstage]
      · refine ⟨run, ?_, rfl, fun _ => rfl⟩
        simp only [step, hcurrent, publishCapsule]
        split <;> simp [setRun, throws, hid, hrun]
  | create path => exact ⟨run, hrun, rfl, fun _ => rfl⟩

/-- A process that is there after a step has chosen its path in the step or
was there before it. -/
theorem runs_step_cases (hadmits : w.Admits s) (hrun : (w.step s).runs id = some run) :
    (∃ run', w.runs id = some run' ∧ run'.capsulePath = run.capsulePath) ∨
      ∃ base, s = .choose id base ∧
        defaultCapsulePath w.files base = some run.capsulePath := by
  cases hbefore : w.runs id with
  | some run' =>
      obtain ⟨run'', hrun'', hpath, -⟩ := runs_step hadmits hbefore
      rw [hrun, Option.some.injEq] at hrun''
      exact .inl ⟨run', rfl, by rw [hrun'', hpath]⟩
  | none =>
      right
      cases s with
      | choose other base =>
          obtain ⟨path, hpath⟩ := Option.isSome_iff_exists.mp hadmits.2
          simp only [step, hpath, setRun] at hrun
          by_cases hid : id = other
          · subst hid
            rw [Function.update_self, Option.some.injEq] at hrun
            exact ⟨base, rfl, by rw [hpath, ← hrun]⟩
          · rw [Function.update_of_ne hid, hbefore] at hrun
            contradiction
      | collect other finished =>
          obtain ⟨current, hcurrent, -⟩ := hadmits
          have hid : id ≠ other := by
            rintro rfl
            rw [hbefore] at hcurrent
            contradiction
          simp only [step, hcurrent] at hrun
          split at hrun <;> simp [setRun, throws, hid, hbefore] at hrun
      | publish other =>
          obtain ⟨current, hcurrent, -⟩ := hadmits
          have hid : id ≠ other := by
            rintro rfl
            rw [hbefore] at hcurrent
            contradiction
          simp only [step, hcurrent, publishCapsule] at hrun
          split at hrun <;> simp [setRun, throws, hid, hbefore] at hrun
      | create path =>
          rw [show (w.step (.create path)).runs = w.runs from rfl, hbefore] at hrun
          contradiction

/-- A publication whose path is free. -/
theorem publish_of_free (hrun : w.runs id = some run)
    (hfree : w.files.holds run.capsulePath = false) :
    ∃ run', (w.step (.publish id)).runs id = some run' ∧ run'.stage = .published ∧
      (w.step (.publish id)).files.lookup run'.capsulePath = some (.capsule id) := by
  simp [step, hrun, publishCapsule, copyFile, hfree, setRun]

/-- A publication whose path is taken. -/
theorem publish_of_held (hrun : w.runs id = some run)
    (hheld : w.files.holds run.capsulePath = true) :
    ∃ run', (w.step (.publish id)).runs id = some run' ∧ run'.stage = .thrown := by
  simp [step, hrun, publishCapsule, copyFile, hheld, setRun, throws]

/-! ### Interleavings -/

/-- The steps can be taken in this order. -/
def Legal : RecordWorld → List RecordStep → Prop
  | _, [] => True
  | w, s :: rest => w.Admits s ∧ Legal (w.step s) rest

def after (w : RecordWorld) (steps : List RecordStep) : RecordWorld := steps.foldl step w

/-- No step makes a file under the path of a process that is still to publish
its capsule. -/
def Undisturbed : RecordWorld → List RecordStep → Prop
  | _, [] => True
  | w, s :: rest =>
      (∀ id run, w.runs id = some run → .publish id ∈ rest →
        w.claims s ≠ some run.capsulePath) ∧ Undisturbed (w.step s) rest

variable {steps : List RecordStep}

@[simp] theorem after_cons : w.after (s :: steps) = (w.step s).after steps := rfl

theorem lookup_after {path : Bytes} {owner : FileOwner}
    (h : w.files.lookup path = some owner) : (w.after steps).files.lookup path = some owner := by
  induction steps generalizing w with
  | nil => exact h
  | cons s rest ih => exact ih (lookup_step h)

theorem runs_after_of_ended (hlegal : w.Legal steps) (hrun : w.runs id = some run)
    (hended : run.stage = .thrown ∨ run.stage = .published) :
    (w.after steps).runs id = some run := by
  induction steps generalizing w with
  | nil => exact hrun
  | cons s rest ih =>
      obtain ⟨hadmits, hrest⟩ := hlegal
      obtain ⟨run', hrun', -, hsame⟩ := runs_step hadmits hrun
      rw [hsame hended] at hrun'
      exact ih hrest hrun'

/-- A recording whose path is free, and stays free, is published. -/
theorem published_of_undisturbed (hlegal : w.Legal steps) (hundisturbed : w.Undisturbed steps)
    (hfree : ∀ id run, w.runs id = some run → .publish id ∈ steps →
      w.files.holds run.capsulePath = false) (hpublish : .publish id ∈ steps) :
    ∃ run, (w.after steps).runs id = some run ∧ run.stage = .published ∧
      (w.after steps).files.lookup run.capsulePath = some (.capsule id) := by
  induction steps generalizing w with
  | nil => simp at hpublish
  | cons s rest ih =>
      obtain ⟨hadmits, hlegal⟩ := hlegal
      obtain ⟨hquiet, hundisturbed⟩ := hundisturbed
      rcases List.mem_cons.mp hpublish with rfl | hlater
      · obtain ⟨run, hrun, -⟩ := hadmits
        obtain ⟨run', hrun', hstage, hcapsule⟩ :=
          publish_of_free hrun (hfree id run hrun (by simp))
        rw [after_cons]
        exact ⟨run', runs_after_of_ended hlegal hrun' (.inr hstage), hstage,
          lookup_after hcapsule⟩
      · refine ih hlegal hundisturbed (fun other run hrun hother => ?_) hlater
        rw [Bool.eq_false_iff, Ne, holds_step, not_or, Bool.not_eq_true]
        rcases runs_step_cases hadmits hrun with ⟨old, hold, hpath⟩ | ⟨base, rfl, hpath⟩
        · rw [← hpath]
          exact ⟨hfree other old hold (by simp [hother]), hquiet other old hold hother⟩
        · exact ⟨holds_defaultCapsulePath hpath, by simp [claims]⟩

/-- A recording whose path is taken before its publication is thrown away. -/
theorem thrown_of_held (hlegal : w.Legal steps) (hrun : w.runs id = some run)
    (hheld : w.files.holds run.capsulePath = true) (hpublish : .publish id ∈ steps) :
    ∃ run', (w.after steps).runs id = some run' ∧ run'.stage = .thrown := by
  induction steps generalizing w run with
  | nil => simp at hpublish
  | cons s rest ih =>
      obtain ⟨hadmits, hlegal⟩ := hlegal
      rcases List.mem_cons.mp hpublish with rfl | hlater
      · obtain ⟨run', hrun', hstage⟩ := publish_of_held hrun hheld
        rw [after_cons]
        exact ⟨run', runs_after_of_ended hlegal hrun' (.inl hstage), hstage⟩
      · obtain ⟨run', hrun', hpath, -⟩ := runs_step hadmits hrun
        exact ih hlegal hrun' (by rw [hpath]; exact holds_step.mpr (.inl hheld)) hlater

/-- When all recordings are published, nothing has taken a path. -/
theorem undisturbed_of_published (hlegal : w.Legal steps)
    (hpublished : ∀ id, .publish id ∈ steps →
      ∃ run, (w.after steps).runs id = some run ∧ run.stage = .published) :
    w.Undisturbed steps := by
  induction steps generalizing w with
  | nil => trivial
  | cons s rest ih =>
      obtain ⟨hadmits, hlegal⟩ := hlegal
      refine ⟨fun id run hrun hlater hclaims => ?_, ih hlegal fun id hid =>
        hpublished id (by simp [hid])⟩
      obtain ⟨run', hrun', hpath, -⟩ := runs_step hadmits hrun
      have hheld : (w.step s).files.holds run'.capsulePath = true := by
        rw [hpath]
        exact holds_step.mpr (.inr hclaims)
      obtain ⟨thrown, hthrown, hstage⟩ := thrown_of_held hlegal hrun' hheld hlater
      obtain ⟨published, hpublished, hstage'⟩ := hpublished id (by simp [hlater])
      rw [after_cons, hthrown, Option.some.injEq] at hpublished
      rw [← hpublished, hstage] at hstage'
      contradiction

/-! ### No recording is lost -/

/-- What is left of the recordings: each that came to its publication is
published, under a path of its own, and no capsule was overwritten. -/
structure Kept (files : Directory) (steps : List RecordStep) : Prop where
  published : ∀ id, .publish id ∈ steps →
    ∃ run, (after { files } steps).runs id = some run ∧ run.stage = .published ∧
      (after { files } steps).files.lookup run.capsulePath = some (.capsule id)
  ownPath : ∀ id id' run run', .publish id ∈ steps → .publish id' ∈ steps →
    (after { files } steps).runs id = some run → (after { files } steps).runs id' = some run' →
      run.capsulePath = run'.capsulePath → id = id'
  notOverwritten : ∀ before rest, steps = before ++ rest → ∀ path id,
    (after { files } before).files.lookup path = some (.capsule id) →
      (after { files } steps).files.lookup path = some (.capsule id)

theorem kept_iff_undisturbed (files : Directory) (steps : List RecordStep)
    (hlegal : Legal { files } steps) : Kept files steps ↔ Undisturbed { files } steps := by
  constructor
  · intro hkept
    refine undisturbed_of_published hlegal fun id hid => ?_
    obtain ⟨run, hrun, hstage, -⟩ := hkept.published id hid
    exact ⟨run, hrun, hstage⟩
  · intro hundisturbed
    have hpublished : ∀ id, .publish id ∈ steps →
        ∃ run, (after { files } steps).runs id = some run ∧ run.stage = .published ∧
          (after { files } steps).files.lookup run.capsulePath = some (.capsule id) :=
      fun id hid => published_of_undisturbed hlegal hundisturbed (by simp) hid
    refine ⟨hpublished, ?_, ?_⟩
    · intro id id' run run' hid hid' hrun hrun' hpath
      obtain ⟨own, hown, -, hcapsule⟩ := hpublished id hid
      obtain ⟨own', hown', -, hcapsule'⟩ := hpublished id' hid'
      rw [hrun, Option.some.injEq] at hown
      rw [hrun', Option.some.injEq] at hown'
      rw [← hown, hpath, hown', hcapsule'] at hcapsule
      simpa using hcapsule.symm
    · rintro before rest rfl path id hcapsule
      rw [after, List.foldl_append]
      exact lookup_after hcapsule

/-! ### Two recordings of one directory -/

/-- A recording that starts after another of the same second was published. -/
def sampleRecordings : List RecordStep :=
  [.choose 1 (lit "run-20260101-120000"), .create (lit "out.txt"), .collect 1 true, .publish 1,
    .choose 2 (lit "run-20260101-120000"), .collect 2 true, .publish 2]

theorem sampleRecordings_legal : Legal { files := ∅ } sampleRecordings :=
  ⟨⟨rfl, by decide⟩, trivial, ⟨_, rfl, rfl⟩, ⟨_, rfl, rfl⟩, ⟨by decide, by decide⟩,
    ⟨_, rfl, rfl⟩, ⟨_, rfl, rfl⟩, trivial⟩

/-- Both capsules are there in the end, the second under the next free name. -/
theorem kept_iff_undisturbed_sample :
    Undisturbed { files := ∅ } sampleRecordings ∧ Kept ∅ sampleRecordings ∧
      (after { files := ∅ } sampleRecordings).files.lookup (lit "run-20260101-120000.wrun") =
        some (.capsule 1) ∧
      (after { files := ∅ } sampleRecordings).files.lookup (lit "run-20260101-120000-1.wrun") =
        some (.capsule 2) := by
  have hundisturbed : Undisturbed { files := ∅ } sampleRecordings := by
    refine undisturbed_of_published sampleRecordings_legal fun id hid => ?_
    simp only [sampleRecordings, List.mem_cons, List.not_mem_nil, or_false, reduceCtorEq,
      false_or, RecordStep.publish.injEq] at hid
    rcases hid with rfl | rfl
    · exact ⟨_, rfl, rfl⟩
    · exact ⟨_, rfl, rfl⟩
  exact ⟨hundisturbed,
    (kept_iff_undisturbed ∅ sampleRecordings sampleRecordings_legal).mpr hundisturbed,
    by decide, by decide⟩

/-- Two recordings that start in the same second. -/
def sameSecond : List RecordStep :=
  [.choose 1 (lit "run-20260101-120000"), .choose 2 (lit "run-20260101-120000"),
    .collect 1 true, .publish 1, .collect 2 true, .publish 2]

/-- The second of them finds its path taken and loses its only copy. -/
theorem same_second_loses_recording :
    Legal { files := ∅ } sameSecond ∧ ¬ Kept ∅ sameSecond ∧
      (after { files := ∅ } sameSecond).runs 2 =
        some { capsulePath := lit "run-20260101-120000.wrun", stage := .thrown,
               temporary := false } := by
  have hlost : (after { files := ∅ } sameSecond).runs 2 =
      some { capsulePath := lit "run-20260101-120000.wrun", stage := .thrown,
             temporary := false } := by decide
  refine ⟨⟨⟨rfl, by decide⟩, ⟨rfl, by decide⟩, ⟨_, rfl, rfl⟩, ⟨_, rfl, rfl⟩, ⟨_, rfl, rfl⟩,
    ⟨_, rfl, rfl⟩, trivial⟩, fun hkept => ?_, hlost⟩
  obtain ⟨run, hrun, hstage, -⟩ := hkept.published 2 (by simp [sameSecond])
  rw [hlost, Option.some.injEq] at hrun
  rw [← hrun] at hstage
  contradiction

end RecordWorld

end Whyrun
