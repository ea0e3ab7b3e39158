import Mathlib.Data.List.Nodup
import Mathlib.Data.List.Perm.Subperm

/-!
The search for a free name among numbered candidates. The number is a 32-bit
counter; while fewer names are taken than it has values, the search ends after
one try more than there are taken names.
-/

namespace NameSearch

variable {α : Type*} {taken : α → Bool} {name : UInt32 → α}

/-- The first free candidate from a number on; `none` when the fuel runs out. -/
def firstFree (taken : α → Bool) (name : UInt32 → α) : ℕ → UInt32 → Option α
  | 0, _ => none
  | fuel + 1, suffix =>
      if taken (name suffix) then firstFree taken name fuel (suffix + 1) else some (name suffix)

theorem firstFree_spec {fuel : ℕ} {suffix : UInt32} {x : α}
    (h : firstFree taken name fuel suffix = some x) :
    taken x = false ∧ ∃ chosen, x = name chosen := by
  induction fuel generalizing suffix with
  | zero => simp [firstFree] at h
  | succ fuel ih =>
      rw [firstFree] at h
      split at h
      · exact ih h
      · rename_i hfree
        obtain rfl := Option.some.inj h
        exact ⟨by simpa using hfree, suffix, rfl⟩

/-- A search that does not end within its fuel has found every name taken. -/
theorem taken_of_firstFree_eq_none {fuel : ℕ} {suffix : UInt32}
    (h : firstFree taken name fuel suffix = none) :
    ∀ i < fuel, taken (name (suffix + UInt32.ofNat i)) = true := by
  induction fuel generalizing suffix with
  | zero => simp
  | succ fuel ih =>
      rw [firstFree] at h
      split at h
      · rename_i htaken
        intro i hi
        cases i with
        | zero => simpa using htaken
        | succ i =>
            have hrest := ih h i (by omega)
            have hshift : suffix + 1 + UInt32.ofNat i = suffix + UInt32.ofNat (i + 1) := by
              rw [UInt32.ofNat_add, UInt32.add_assoc, UInt32.add_comm 1]
              rfl
            rwa [hshift] at hrest
      · contradiction

/-- Among more different names than are taken, one is free. -/
theorem firstFree_isSome (hname : Function.Injective name) {names : List α}
    (htaken : ∀ suffix, taken (name suffix) = true → name suffix ∈ names)
    (hlength : names.length < UInt32.size) (suffix : UInt32) :
    (firstFree taken name (names.length + 1) suffix).isSome = true := by
  by_contra hnone
  rw [Option.not_isSome_iff_eq_none] at hnone
  have hall := taken_of_firstFree_eq_none hnone
  -- the names tried are distinct and all taken, and one too many
  let tried := (List.range (names.length + 1)).map fun i => name (suffix + UInt32.ofNat i)
  have hnodup : tried.Nodup := by
    apply List.Nodup.map_on _ List.nodup_range
    intro i hi j hj hij
    rw [List.mem_range] at hi hj
    have hvalue := congrArg UInt32.toNat ((UInt32.add_right_inj suffix).mp (hname hij))
    rwa [UInt32.toNat_ofNat_of_lt' (by omega), UInt32.toNat_ofNat_of_lt' (by omega)] at hvalue
  have hsubset : tried ⊆ names := by
    intro x hx
    obtain ⟨i, hi, rfl⟩ := List.mem_map.mp hx
    exact htaken _ (hall i (List.mem_range.mp hi))
  have hle := (List.subperm_of_subset hnodup hsubset).length_le
  simp only [tried, List.length_map, List.length_range] at hle
  omega

end NameSearch
