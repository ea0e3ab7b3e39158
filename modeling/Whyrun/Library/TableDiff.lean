import Whyrun.Library.Relational

/-!
The differences of two keyed tables. `changeAt` says what has become of one
key; `changes` finds all differences in two passes, one over each table in
the order of the keys. The passes meet every key once, and exchanging the
tables exchanges the sides of every difference.
-/

namespace Relational

variable {κ ρ : Type*}

/-- What has become of a key. -/
inductive Change (κ ρ : Type*)
  | removed (k : κ)
  | added (k : κ)
  | changed (k : κ) (before after : ρ)
  deriving DecidableEq

namespace Change

def key : Change κ ρ → κ
  | removed k | added k | changed k _ _ => k

/-- The change the other way round. -/
def mirror : Change κ ρ → Change κ ρ
  | removed k => added k
  | added k => removed k
  | changed k before after => changed k after before

@[simp] theorem key_mirror (c : Change κ ρ) : c.mirror.key = c.key := by cases c <;> rfl

@[simp] theorem mirror_mirror (c : Change κ ρ) : c.mirror.mirror = c := by cases c <;> rfl

theorem mirror_injective : Function.Injective (mirror : Change κ ρ → Change κ ρ) :=
  Function.LeftInverse.injective mirror_mirror

end Change

/-! ### One key -/

section key

variable [DecidableEq κ] [DecidableEq ρ]

/-- The difference of two tables at a key, if they differ there. -/
def changeAt (before after : Table κ ρ) (k : κ) : Option (Change κ ρ) :=
  match before.lookup k, after.lookup k with
  | none, none => none
  | some _, none => some (.removed k)
  | none, some _ => some (.added k)
  | some r, some r' => if r = r' then none else some (.changed k r r')

variable {before after : Table κ ρ} {k : κ}

theorem key_of_changeAt {c : Change κ ρ} (h : changeAt before after k = some c) : c.key = k := by
  unfold changeAt at h
  split at h
  · contradiction
  · exact Option.some.inj h ▸ rfl
  · exact Option.some.inj h ▸ rfl
  · split at h
    · contradiction
    · exact Option.some.inj h ▸ rfl

theorem changeAt_eq_none_iff :
    changeAt before after k = none ↔ before.lookup k = after.lookup k := by
  unfold changeAt
  cases before.lookup k <;> cases after.lookup k <;> simp

theorem changeAt_eq_changed_iff {r r' : ρ} :
    changeAt before after k = some (.changed k r r') ↔
      before.lookup k = some r ∧ after.lookup k = some r' ∧ r ≠ r' := by
  unfold changeAt
  cases before.lookup k with
  | none => cases after.lookup k <;> simp
  | some s =>
      cases after.lookup k with
      | none => simp
      | some s' =>
          by_cases hs : s = s'
          · subst hs
            simp only [if_pos, Option.some.injEq, reduceCtorEq, false_iff, not_and]
            rintro rfl rfl
            simp
          · simp only [if_neg hs, Option.some.injEq, Change.changed.injEq, true_and]
            constructor
            · rintro ⟨rfl, rfl⟩
              exact ⟨rfl, rfl, hs⟩
            · rintro ⟨rfl, rfl, -⟩
              exact ⟨rfl, rfl⟩

theorem changeAt_comm (before after : Table κ ρ) (k : κ) :
    changeAt after before k = (changeAt before after k).map Change.mirror := by
  unfold changeAt
  cases before.lookup k with
  | none => cases after.lookup k <;> rfl
  | some r =>
      cases after.lookup k with
      | none => rfl
      | some r' =>
          by_cases h : r = r'
          · simp [h]
          · simp [h, Ne.symm h, Change.mirror]

end key

/-! ### Two passes -/

section found

variable [DecidableEq κ] {before after : Table κ ρ} {k : κ} {r : ρ} {c : Change κ ρ} {row : κ × ρ}

/-- What the pass over the second table finds at a row. -/
def changeOfAfter (before : Table κ ρ) (row : κ × ρ) : Option (Change κ ρ) :=
  if row.1 ∈ before then none else some (.added row.1)

theorem key_of_changeOfAfter (h : changeOfAfter before row = some c) : c.key = row.1 := by
  unfold changeOfAfter at h
  split at h
  · contradiction
  · exact Option.some.inj h ▸ rfl

variable [DecidableEq ρ]

/-- What the pass over the first table finds at a row. -/
def changeOfBefore (after : Table κ ρ) (row : κ × ρ) : Option (Change κ ρ) :=
  match after.lookup row.1 with
  | none => some (.removed row.1)
  | some found => if row.2 = found then none else some (.changed row.1 row.2 found)

theorem changeOfBefore_eq (h : before.lookup k = some r) :
    changeOfBefore after (k, r) = changeAt before after k := by
  unfold changeOfBefore changeAt
  rw [h]
  cases after.lookup k <;> rfl

theorem changeOfAfter_eq_some_iff (h : after.lookup k = some r) :
    changeOfAfter before (k, r) = some c ↔
      before.lookup k = none ∧ changeAt before after k = some c := by
  unfold changeOfAfter changeAt
  rw [h]
  by_cases hk : k ∈ before
  · obtain ⟨s, hs⟩ := Option.isSome_iff_exists.mp (AList.lookup_isSome.mpr hk)
    simp [hk, hs]
  · have hs := AList.lookup_eq_none.mpr hk
    simp [hk, hs]

theorem key_of_changeOfBefore (h : changeOfBefore after row = some c) : c.key = row.1 := by
  unfold changeOfBefore at h
  split at h
  · exact Option.some.inj h ▸ rfl
  · split at h
    · contradiction
    · exact Option.some.inj h ▸ rfl

end found

section passes

variable [LE κ] [DecidableLE κ] [DecidableEq κ]

theorem mem_orderedRows {t : Table κ ρ} {k : κ} {r : ρ} :
    (k, r) ∈ orderedRows t ↔ t.lookup k = some r := by
  simp only [orderedRows, List.mem_filterMap, mem_ordered, Option.map_eq_some_iff, Prod.mk.injEq]
  constructor
  · rintro ⟨k', -, r', hr, rfl, rfl⟩
    exact hr
  · exact fun h => ⟨k, (Table.mem_keys_iff_lookup t k).mpr ⟨r, h⟩, r, h, rfl, rfl⟩

theorem pairwise_key_orderedRows (t : Table κ ρ) :
    (orderedRows t).Pairwise fun row row' => row.1 ≠ row'.1 := by
  refine List.Pairwise.filterMap _ (fun k k' hne row hrow row' hrow' => ?_)
    (nodup_ordered t.nodupKeys)
  obtain ⟨r, -, rfl⟩ := Option.map_eq_some_iff.mp hrow
  obtain ⟨r', -, rfl⟩ := Option.map_eq_some_iff.mp hrow'
  exact hne

variable [DecidableEq ρ]

/-- The differences of two tables. -/
def changes (before after : Table κ ρ) : List (Change κ ρ) :=
  (orderedRows before).filterMap (changeOfBefore after) ++
    (orderedRows after).filterMap (changeOfAfter before)

variable {before after : Table κ ρ} {k : κ} {c : Change κ ρ}

/-- The passes find the difference at every key and nothing else. -/
theorem mem_changes : c ∈ changes before after ↔ changeAt before after c.key = some c := by
  simp only [changes, List.mem_append, List.mem_filterMap, Prod.exists, mem_orderedRows]
  constructor
  · rintro (⟨k, r, hr, hc⟩ | ⟨k, r, hr, hc⟩)
    · rw [changeOfBefore_eq hr] at hc
      rwa [key_of_changeAt hc]
    · have hat := ((changeOfAfter_eq_some_iff hr).mp hc).2
      rwa [key_of_changeAt hat]
  · intro h
    cases hbefore : before.lookup c.key with
    | some r => exact .inl ⟨c.key, r, hbefore, by rwa [changeOfBefore_eq hbefore]⟩
    | none =>
        cases hafter : after.lookup c.key with
        | some r =>
            exact .inr ⟨c.key, r, hafter, (changeOfAfter_eq_some_iff hafter).mpr ⟨hbefore, h⟩⟩
        | none => simp [changeAt, hbefore, hafter] at h

/-- No key is met twice, in one pass or in both. -/
theorem pairwise_key_changes (before after : Table κ ρ) :
    (changes before after).Pairwise fun c c' => c.key ≠ c'.key := by
  refine List.pairwise_append.mpr ⟨?_, ?_, ?_⟩
  · refine (pairwise_key_orderedRows before).filterMap _ fun row row' hne c hc c' hc' => ?_
    rwa [key_of_changeOfBefore hc, key_of_changeOfBefore hc']
  · refine (pairwise_key_orderedRows after).filterMap _ fun row row' hne c hc c' hc' => ?_
    rwa [key_of_changeOfAfter hc, key_of_changeOfAfter hc']
  · intro c hc c' hc'
    obtain ⟨⟨k, r⟩, hrow, hfound⟩ := List.mem_filterMap.mp hc
    obtain ⟨⟨k', r'⟩, hrow', hfound'⟩ := List.mem_filterMap.mp hc'
    -- the second pass leaves out the keys of the first table
    have hnew := ((changeOfAfter_eq_some_iff (mem_orderedRows.mp hrow')).mp hfound').1
    rw [key_of_changeOfBefore hfound, key_of_changeOfAfter hfound']
    rintro rfl
    rw [mem_orderedRows.mp hrow] at hnew
    contradiction

theorem nodup_changes (before after : Table κ ρ) : (changes before after).Nodup :=
  (pairwise_key_changes before after).imp fun h heq => h (congrArg Change.key heq)

/-- Exactly one difference for a key at which the tables differ, and none for
another key. -/
theorem filter_key_changes (before after : Table κ ρ) (k : κ) :
    ((changes before after).filter fun c => c.key = k) = (changeAt before after k).toList := by
  have hperm : ((changes before after).filter fun c => c.key = k).Perm
      (changeAt before after k).toList := by
    refine (List.perm_ext_iff_of_nodup ((nodup_changes before after).filter _)
      (by cases changeAt before after k <;> simp)).mpr fun c => ?_
    rw [List.mem_filter, mem_changes, decide_eq_true_eq, Option.mem_toList]
    constructor
    · rintro ⟨hc, rfl⟩
      exact hc
    · intro hc
      have hkey := key_of_changeAt hc
      exact ⟨hkey ▸ hc, hkey⟩
  cases hat : changeAt before after k with
  | none =>
      rw [hat] at hperm
      exact List.perm_nil.mp hperm
  | some c =>
      rw [hat] at hperm
      exact List.perm_singleton.mp hperm

theorem changes_eq_nil_iff :
    changes before after = [] ↔ ∀ k, before.lookup k = after.lookup k := by
  rw [List.eq_nil_iff_forall_not_mem]
  constructor
  · intro h k
    rw [← changeAt_eq_none_iff, Option.eq_none_iff_forall_not_mem]
    intro c hc
    exact h c (mem_changes.mpr (by rwa [key_of_changeAt hc]))
  · intro h c hc
    have hnone := changeAt_eq_none_iff.mpr (h c.key)
    rw [mem_changes.mp hc] at hnone
    contradiction

/-- Exchanging the tables exchanges the sides of every difference. -/
theorem changes_comm (before after : Table κ ρ) :
    (changes after before).Perm ((changes before after).map Change.mirror) := by
  refine (List.perm_ext_iff_of_nodup (nodup_changes after before)
    ((nodup_changes before after).map Change.mirror_injective)).mpr fun c => ?_
  rw [mem_changes, changeAt_comm, List.mem_map]
  constructor
  · intro h
    obtain ⟨c', hc', rfl⟩ := Option.map_eq_some_iff.mp h
    rw [Change.key_mirror] at hc'
    exact ⟨c', mem_changes.mpr hc', rfl⟩
  · rintro ⟨c', hc', rfl⟩
    rw [Change.key_mirror, mem_changes.mp hc']
    rfl

end passes

end Relational
