import Mathlib.Algebra.BigOperators.Group.List.Basic
import Mathlib.Algebra.Order.Group.Int
import Mathlib.Data.Finset.Card
import Mathlib.Data.List.AList
import Mathlib.Data.List.Sort
import Mathlib.Tactic.Abel

/-!
Relational tables: rows under a primary key, the statements that change
them, and queries that group, sum and order rows. A table is an association
list without repeated keys, so a row is never stored twice.
-/

namespace Relational

/-! ### Keyed tables -/

/-- Rows under a primary key. -/
abbrev Table (κ ρ : Type*) := AList fun _ : κ => ρ

namespace Table

variable {κ ρ : Type*} [DecidableEq κ]

/-- `INSERT … ON CONFLICT DO UPDATE`. -/
def upsert (t : Table κ ρ) (k : κ) (fresh : ρ) (update : ρ → ρ) : Table κ ρ :=
  t.insert k (match t.lookup k with
    | none => fresh
    | some r => update r)

/-- `UPDATE … WHERE key = k`. -/
def modify (t : Table κ ρ) (k : κ) (update : ρ → ρ) : Table κ ρ :=
  match t.lookup k with
  | none => t
  | some r => t.insert k (update r)

/-- `INSERT OR IGNORE`. -/
def insertOrIgnore (t : Table κ ρ) (k : κ) (r : ρ) : Table κ ρ :=
  match t.lookup k with
  | none => t.insert k r
  | some _ => t

theorem lookup_insert_iff (t : Table κ ρ) (k k' : κ) (r : ρ) :
    (t.insert k r).lookup k' = if k' = k then some r else t.lookup k' := by
  split
  · subst k'
    exact AList.lookup_insert t
  · exact AList.lookup_insert_ne ‹_›

theorem lookup_upsert (t : Table κ ρ) (k k' : κ) (fresh : ρ) (update : ρ → ρ) :
    (t.upsert k fresh update).lookup k' =
      if k' = k then some (((t.lookup k).map update).getD fresh) else t.lookup k' := by
  unfold upsert
  rw [lookup_insert_iff]
  split
  · cases t.lookup k <;> rfl
  · rfl

theorem lookup_modify (t : Table κ ρ) (k k' : κ) (update : ρ → ρ) :
    (t.modify k update).lookup k' =
      if k' = k then (t.lookup k).map update else t.lookup k' := by
  unfold modify
  by_cases hk : k' = k
  · subst k'
    cases h : t.lookup k <;> simp [h]
  · cases t.lookup k <;> simp [hk]

theorem lookup_insertOrIgnore (t : Table κ ρ) (k k' : κ) (r : ρ) :
    (t.insertOrIgnore k r).lookup k' =
      if k' = k then some ((t.lookup k).getD r) else t.lookup k' := by
  unfold insertOrIgnore
  by_cases hk : k' = k
  · subst k'
    cases h : t.lookup k <;> simp [h]
  · cases t.lookup k <;> simp [hk]

theorem mem_keys_iff_lookup (t : Table κ ρ) (k : κ) :
    k ∈ t.keys ↔ ∃ r, t.lookup k = some r := by
  rw [← AList.mem_keys, ← AList.lookup_isSome, Option.isSome_iff_exists]

/-! ### A sequence of upserts -/

variable {ι : Type*} (key : ι → κ) (fresh : ι → ρ) (update : ι → ρ → ρ)

/-- A sequence of upserts, one for each input. -/
def upserts (is : List ι) (t : Table κ ρ) : Table κ ρ :=
  is.foldl (fun t i => t.upsert (key i) (fresh i) (update i)) t

/-- A row sees the inputs of its own key, in their order. -/
theorem lookup_upserts (is : List ι) (t : Table κ ρ) (k : κ) :
    (upserts key fresh update is t).lookup k =
      (is.filter fun i => key i = k).foldl
        (fun row i => some ((row.map (update i)).getD (fresh i))) (t.lookup k) := by
  induction is generalizing t with
  | nil => rfl
  | cons i is ih =>
      rw [upserts, List.foldl_cons, ← upserts, ih, lookup_upsert, List.filter_cons]
      by_cases hk : key i = k
      · subst hk
        simp
      · simp [hk, Ne.symm hk]

theorem foldl_some {zero : ρ} (hfresh : ∀ i, fresh i = update i zero) (is : List ι)
    (row : Option ρ) (hrow : is = [] → row.isSome = true) :
    is.foldl (fun row i => some ((row.map (update i)).getD (fresh i))) row =
      some (is.foldl (fun r i => update i r) (row.getD zero)) := by
  induction is generalizing row with
  | nil =>
      obtain ⟨r, rfl⟩ := Option.isSome_iff_exists.mp (hrow rfl)
      rfl
  | cons i is ih =>
      rw [List.foldl_cons, List.foldl_cons, ih _ fun _ => rfl]
      cases row <;> simp [hfresh]

/-- When a fresh row is the update of a zero row, a row is the fold of the
updates of its key, and it exists as soon as the key occurs. -/
theorem lookup_upserts_empty {zero : ρ} (hfresh : ∀ i, fresh i = update i zero)
    (is : List ι) (k : κ) :
    (upserts key fresh update is ∅).lookup k =
      if (is.filter fun i => key i = k) = [] then none
      else some ((is.filter fun i => key i = k).foldl (fun r i => update i r) zero) := by
  rw [lookup_upserts, AList.lookup_empty]
  split
  · rename_i hnone
    rw [hnone, List.foldl_nil]
  · rename_i hsome
    exact foldl_some fresh update hfresh _ none fun h => absurd h hsome

end Table

/-! ### Grouping and ordering -/

/-- A sorted list without repetition is determined by its members. -/
theorem eq_of_sorted_of_mem_iff {κ : Type*} [LE κ] [Std.Antisymm (fun a b : κ => a ≤ b)]
    {l l' : List κ} (hl : l.Pairwise (· ≤ ·)) (hl' : l'.Pairwise (· ≤ ·)) (hnodup : l.Nodup)
    (hnodup' : l'.Nodup) (h : ∀ k, k ∈ l ↔ k ∈ l') : l = l' :=
  ((List.perm_ext_iff_of_nodup hnodup hnodup').mpr h).eq_of_pairwise' hl hl'

section grouping

variable {κ ρ : Type*} [LE κ] [DecidableLE κ]

/-- `ORDER BY` on a column of values. -/
def ordered (keys : List κ) : List κ := keys.insertionSort (· ≤ ·)

theorem mem_ordered {keys : List κ} {k : κ} : k ∈ ordered keys ↔ k ∈ keys :=
  (List.perm_insertionSort _ keys).mem_iff

/-- The rows of a table, `ORDER BY` its key. -/
def orderedRows {ρ : Type*} [DecidableEq κ] (t : Table κ ρ) : List (κ × ρ) :=
  (ordered t.keys).filterMap fun k => (t.lookup k).map fun r => (k, r)

/-- The groups of `GROUP BY key ORDER BY key`. -/
def groups [DecidableEq κ] (key : ρ → κ) (rows : List ρ) : List κ :=
  ordered (rows.map key).dedup

theorem mem_groups [DecidableEq κ] {key : ρ → κ} {rows : List ρ} {k : κ} :
    k ∈ groups key rows ↔ ∃ r ∈ rows, key r = k := by
  simp [groups, mem_ordered]

theorem groups_map [DecidableEq κ] {ρ' : Type*} (key : ρ → κ) (f : ρ' → ρ) (rows : List ρ') :
    groups key (rows.map f) = groups (fun row => key (f row)) rows := by
  rw [groups, groups, List.map_map]
  rfl

theorem nodup_ordered {keys : List κ} (h : keys.Nodup) : (ordered keys).Nodup :=
  (List.perm_insertionSort _ keys).nodup_iff.mpr h

theorem nodup_groups [DecidableEq κ] (key : ρ → κ) (rows : List ρ) : (groups key rows).Nodup :=
  nodup_ordered (List.nodup_dedup _)

/-- The listing of the groups has one line for a group and none for another key. -/
theorem filter_map_groups [DecidableEq κ] {L : Type*} {key : ρ → κ} {name : L → κ}
    {line : κ → L} (hname : ∀ k, name (line k) = k) (rows : List ρ) (k : κ) :
    ((groups key rows).map line).filter (fun l => name l = k) =
      if ∃ r ∈ rows, key r = k then [line k] else [] := by
  have hself : (groups key rows).filter (fun j => j = k) =
      List.replicate ((groups key rows).count k) k := List.filter_eq k
  rw [List.filter_map]
  simp only [Function.comp_def, hname]
  rw [hself]
  split
  · rename_i hmem
    rw [List.count_eq_one_of_mem (nodup_groups key rows) (mem_groups.mpr hmem)]
    rfl
  · rename_i hmem
    rw [List.count_eq_zero_of_not_mem (mt mem_groups.mp hmem)]
    rfl

variable [Std.Total (fun a b : κ => a ≤ b)] [IsTrans κ (fun a b => a ≤ b)]

theorem pairwise_ordered (keys : List κ) : (ordered keys).Pairwise (· ≤ ·) :=
  List.pairwise_insertionSort _ keys

variable [Std.Antisymm (fun a b : κ => a ≤ b)]

theorem filter_groups_eq [DecidableEq κ] {ρ' : Type*} {key : ρ → κ} {rows : List ρ}
    {key' : ρ' → κ} {rows' : List ρ'} {p : κ → Bool}
    (h : ∀ k, ((∃ r ∈ rows, key r = k) ∧ p k = true) ↔ ∃ r ∈ rows', key' r = k) :
    (groups key rows).filter p = groups key' rows' := by
  refine eq_of_sorted_of_mem_iff ((pairwise_ordered _).filter p) (pairwise_ordered _)
    ((nodup_groups key rows).filter p) (nodup_groups key' rows') fun k => ?_
  rw [List.mem_filter, mem_groups, mem_groups, h]

/-- A table whose rows are figures of the groups of some rows lists the groups
in order. -/
theorem orderedRows_eq [DecidableEq κ] {ρ' : Type*} {t : Table κ ρ'} (key : ρ → κ)
    (rows : List ρ) {row : κ → ρ'}
    (hsome : ∀ k, (∃ r ∈ rows, key r = k) → t.lookup k = some (row k))
    (hnone : ∀ k, (¬ ∃ r ∈ rows, key r = k) → t.lookup k = none) :
    orderedRows t = (groups key rows).map fun k => (k, row k) := by
  have hkeys : ordered t.keys = groups key rows := by
    refine eq_of_sorted_of_mem_iff (pairwise_ordered _) (pairwise_ordered _)
      (nodup_ordered t.nodupKeys) (nodup_groups key rows) fun k => ?_
    rw [mem_ordered, Table.mem_keys_iff_lookup, mem_groups]
    constructor
    · rintro ⟨r, hr⟩
      by_contra hk
      rw [hnone k hk] at hr
      contradiction
    · intro hk
      exact ⟨row k, hsome k hk⟩
  rw [orderedRows, hkeys, ← List.filterMap_eq_map]
  refine List.filterMap_congr fun k hk => ?_
  rw [hsome k (mem_groups.mp hk)]
  rfl

/-- Two tables that agree on some columns list these columns alike. -/
theorem orderedRows_map_eq [DecidableEq κ] {ρ' γ : Type*} {t : Table κ ρ} {t' : Table κ ρ'}
    {g : ρ → γ} {g' : ρ' → γ} (h : ∀ k, (t.lookup k).map g = (t'.lookup k).map g') :
    (orderedRows t).map (fun row => (row.1, g row.2)) =
      (orderedRows t').map fun row => (row.1, g' row.2) := by
  have hkeys : ordered t.keys = ordered t'.keys := by
    refine eq_of_sorted_of_mem_iff (pairwise_ordered _) (pairwise_ordered _)
      (nodup_ordered t.nodupKeys) (nodup_ordered t'.nodupKeys) fun k => ?_
    rw [mem_ordered, mem_ordered, ← AList.mem_keys, ← AList.mem_keys, ← AList.lookup_isSome,
      ← AList.lookup_isSome, ← Option.isSome_map (f := g), h, Option.isSome_map]
  rw [orderedRows, orderedRows, hkeys, List.map_filterMap, List.map_filterMap]
  refine List.filterMap_congr fun k _ => ?_
  have hrow := congrArg (Option.map fun row => (k, row)) (h k)
  rw [Option.map_map, Option.map_map] at hrow
  rw [Option.map_map, Option.map_map]
  exact hrow

/-- The groups do not depend on the order of the rows. -/
theorem groups_perm [DecidableEq κ] {key : ρ → κ} {rows rows' : List ρ}
    (h : (rows.map key).Perm (rows'.map key)) : groups key rows = groups key rows' := by
  refine eq_of_sorted_of_mem_iff (pairwise_ordered _) (pairwise_ordered _) (nodup_groups key rows)
    (nodup_groups key rows') fun k => ?_
  rw [groups, groups, mem_ordered, mem_ordered, List.mem_dedup, List.mem_dedup, h.mem_iff]

end grouping

/-! ### Sums over the classes of a partition -/

section sums

variable {γ ρ M : Type*} [DecidableEq γ] [AddCommMonoid M]

theorem sum_map_filter_of_nodup (f : ρ → M) (c : ρ → γ) (classes : List γ) (r : ρ)
    (hnodup : classes.Nodup) (hmem : c r ∈ classes) :
    (classes.map fun i => if c r = i then f r else 0).sum = f r := by
  induction classes with
  | nil => simp at hmem
  | cons i classes ih =>
      rw [List.nodup_cons] at hnodup
      rw [List.map_cons, List.sum_cons]
      by_cases hi : c r = i
      · have hrest : (classes.map fun j => if c r = j then f r else 0) =
            classes.map fun _ => 0 := by
          refine List.map_congr_left fun j hj => if_neg ?_
          rintro rfl
          exact hnodup.1 (hi ▸ hj)
        rw [if_pos hi, hrest]
        simp
      · rw [if_neg hi, zero_add]
        exact ih hnodup.2 ((List.mem_cons.mp hmem).resolve_left hi)

/-- Summing over every class of a partition gives the sum over all rows. -/
theorem sum_classes (f : ρ → M) (c : ρ → γ) (classes : List γ) (rows : List ρ)
    (hnodup : classes.Nodup) (hcover : ∀ r ∈ rows, c r ∈ classes) :
    (classes.map fun i => ((rows.filter fun r => c r = i).map f).sum).sum =
      (rows.map f).sum := by
  induction rows with
  | nil => simp
  | cons r rows ih =>
      have hsplit : ∀ i, (((r :: rows).filter fun r => c r = i).map f).sum =
          (if c r = i then f r else 0) + ((rows.filter fun r => c r = i).map f).sum := by
        intro i
        by_cases hi : c r = i <;> simp [hi]
      simp only [hsplit, List.sum_map_add, List.map_cons, List.sum_cons]
      rw [sum_map_filter_of_nodup f c classes r hnodup (hcover r (by simp)),
        ih fun s hs => hcover s (by simp [hs])]

end sums

/-! ### Lists of entries with distinct keys -/

section entries

variable {κ β : Type*} [BEq κ] [LawfulBEq κ] {entries entries' : List (κ × β)}

theorem lookup_eq_some_iff_mem (hkeys : (entries.map Prod.fst).Nodup) {key : κ} {value : β} :
    entries.lookup key = some value ↔ (key, value) ∈ entries := by
  induction entries with
  | nil => simp
  | cons entry entries ih =>
      obtain ⟨k, v⟩ := entry
      obtain ⟨hfresh, hrest⟩ := List.nodup_cons.mp hkeys
      rw [List.mem_cons, Prod.mk.injEq, List.lookup_cons]
      by_cases hkey : key = k
      · subst hkey
        have habsent : (key, value) ∉ entries :=
          fun hmem => hfresh (List.mem_map.mpr ⟨_, hmem, rfl⟩)
        simp [habsent, eq_comm]
      · rw [beq_false_of_ne hkey]
        simp only [ih hrest, hkey, false_and, false_or]

/-- A lookup does not depend on the order of the entries. -/
theorem lookup_perm (hperm : entries.Perm entries') (hkeys : (entries.map Prod.fst).Nodup)
    (key : κ) : entries.lookup key = entries'.lookup key := by
  have hkeys' : (entries'.map Prod.fst).Nodup := (hperm.map Prod.fst).nodup_iff.mp hkeys
  ext value
  rw [lookup_eq_some_iff_mem hkeys, lookup_eq_some_iff_mem hkeys', hperm.mem_iff]

end entries

/-! ### Ordered rows -/

/-- Rows that stand in order, the others left out, do so after the sort. -/
theorem filter_insertionSort {α : Type*} (r : α → α → Prop) [DecidableRel r] [Std.Total r]
    [IsTrans α r] {rows : List α} {q : α → Bool} (hordered : (rows.filter q).Pairwise r)
    (hanti : ∀ a ∈ rows.filter q, ∀ b ∈ rows.filter q, r a b → r b a → a = b) :
    (rows.insertionSort r).filter q = rows.filter q := by
  have hperm : ((rows.insertionSort r).filter q).Perm (rows.filter q) :=
    (List.perm_insertionSort r rows).filter q
  have hsorted : ((rows.insertionSort r).filter q).Pairwise r :=
    (List.pairwise_insertionSort r rows).filter q
  exact hperm.eq_of_pairwise (fun a b ha hb => hanti a (hperm.subset ha) b hb) hsorted hordered

/-! ### Counting distinct values -/

section distinct

variable {α : Type*} {s t : Finset α}

theorem card_eq_iff_of_subset (hsub : s ⊆ t) : s.card = t.card ↔ ∀ x ∈ t, x ∈ s := by
  constructor
  · intro hcard x hx
    rw [Finset.eq_of_subset_of_card_le hsub hcard.ge]
    exact hx
  · intro hall
    rw [Finset.Subset.antisymm hsub hall]

/-- A count against one that leaves a value out: the two agree when neither
has the value and nothing else is missing, or when the value makes up for the
only one that is missing. -/
theorem card_eq_card_erase_iff [DecidableEq α] (hsub : s ⊆ t) (a : α) :
    s.card = (t.erase a).card ↔
      (a ∈ s ∧ ∃! x, x ∈ t.erase a ∧ x ∉ s) ∨ (a ∉ s ∧ ∀ x ∈ t.erase a, x ∈ s) := by
  by_cases ha : a ∈ s
  · have hmissing : (t.erase a \ s.erase a).card + (s.erase a).card = (t.erase a).card :=
      Finset.card_sdiff_add_card_eq_card (Finset.erase_subset_erase a hsub)
    have hcount : (s.erase a).card + 1 = s.card := Finset.card_erase_add_one ha
    have hunique : (t.erase a \ s.erase a).card = 1 ↔ ∃! x, x ∈ t.erase a ∧ x ∉ s := by
      rw [Finset.card_eq_one_iff_existsUnique]
      refine existsUnique_congr fun x => ?_
      rw [Finset.mem_sdiff, Finset.mem_erase, Finset.mem_erase]
      tauto
    simp only [ha, true_and, not_true_eq_false, false_and, or_false]
    rw [← hunique]
    constructor <;> intro h <;> omega
  · have hrest : s ⊆ t.erase a := fun x hx =>
      Finset.mem_erase.mpr ⟨fun hxa => ha (hxa ▸ hx), hsub hx⟩
    simp only [ha, false_and, not_false_eq_true, true_and, false_or]
    exact card_eq_iff_of_subset hrest

end distinct

end Relational
