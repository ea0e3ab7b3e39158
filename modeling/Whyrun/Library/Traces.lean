import Mathlib.Data.List.Perm.Basic
import Mathlib.Tactic.Common

/-!
Actions that commute when they are independent. A list of actions can be
rearranged without changing its effect as long as dependent actions keep
their order.
-/

namespace Traces

variable {σ α : Type*} {step : σ → α → σ} {indep : α → α → Prop}

/-- Independent actions have the same effect in either order. -/
def Commutes (step : σ → α → σ) (indep : α → α → Prop) : Prop :=
  ∀ s a b, indep a b → step (step s a) b = step (step s b) a

/-- An action moves past actions that are independent of it. -/
theorem Commutes.foldl_step (h : Commutes step indep) {a : α} {bs : List α}
    (hindep : ∀ b ∈ bs, indep a b) (s : σ) :
    bs.foldl step (step s a) = step (bs.foldl step s) a := by
  induction bs generalizing s with
  | nil => rfl
  | cons b bs ih =>
      rw [List.foldl_cons, List.foldl_cons, h s a b (hindep b (by simp))]
      exact ih (fun c hc => hindep c (by simp [hc])) _

/-- Two lists of mutually independent actions commute. -/
theorem Commutes.foldl_foldl (h : Commutes step indep) {as bs : List α}
    (hindep : ∀ a ∈ as, ∀ b ∈ bs, indep a b) (s : σ) :
    bs.foldl step (as.foldl step s) = as.foldl step (bs.foldl step s) := by
  induction as generalizing s with
  | nil => rfl
  | cons a as ih =>
      rw [List.foldl_cons, List.foldl_cons, ih (fun c hc => hindep c (by simp [hc])),
        h.foldl_step (hindep a (by simp))]

/-- An action without an effect. -/
def Idle (step : σ → α → σ) (a : α) : Prop := ∀ s, step s a = s

theorem foldl_of_idle {l : List α} (h : ∀ a ∈ l, Idle step a) (s : σ) : l.foldl step s = s := by
  induction l with
  | nil => rfl
  | cons a l ih =>
      obtain ⟨ha, hl⟩ := List.forall_mem_cons.mp h
      rw [List.foldl_cons, ha, ih hl]

/-- Two lists of actions commute when one of them has no effect. -/
theorem foldl_append_comm_of_idle {as bs : List α}
    (h : (∀ a ∈ as, Idle step a) ∨ ∀ b ∈ bs, Idle step b) (s : σ) :
    (as ++ bs).foldl step s = (bs ++ as).foldl step s := by
  rw [List.foldl_append, List.foldl_append]
  cases h with
  | inl has => rw [foldl_of_idle has, foldl_of_idle has]
  | inr hbs => rw [foldl_of_idle hbs, foldl_of_idle hbs]

/-- A rearrangement that inverts only independent actions has the effect of
the original order. -/
theorem Commutes.foldl_perm (h : Commutes step indep) {l l' : List α} (hperm : l.Perm l')
    (hnodup : l.Nodup)
    (horder : ∀ a b, [a, b].Sublist l → [b, a].Sublist l' → indep a b) (s : σ) :
    l'.foldl step s = l.foldl step s := by
  induction l generalizing l' s with
  | nil => rw [List.nil_perm.mp hperm]
  | cons a l ih =>
      obtain ⟨hfresh, hnodup⟩ := List.nodup_cons.mp hnodup
      -- the actions that overtake `a` are independent of it
      obtain ⟨x, y, rfl⟩ := List.append_of_mem (hperm.subset List.mem_cons_self)
      have hrest : l.Perm (x ++ y) := (hperm.trans List.perm_middle).cons_inv
      have hovertake : ∀ b ∈ x, indep a b := by
        intro b hb
        have hmem : b ∈ l := hrest.symm.subset (List.mem_append_left y hb)
        have hbefore : [b, a].Sublist (x ++ a :: y) :=
          (List.singleton_sublist.mpr hb).append
            (List.singleton_sublist.mpr List.mem_cons_self)
        exact horder a b ((List.singleton_sublist.mpr hmem).cons_cons a) hbefore
      have hsub : (x ++ y).Sublist (x ++ a :: y) :=
        (List.Sublist.refl x).append (List.sublist_cons_self a y)
      have hih := ih hrest hnodup
        (fun b c hbc hcb => horder b c (hbc.cons a) (hcb.trans hsub)) (step s a)
      rw [List.foldl_cons, ← hih, List.foldl_append, List.foldl_append, List.foldl_cons,
        h.foldl_step hovertake]

/-- The last action of a list whose actions are numbered from zero. -/
theorem foldl_numbered_snoc (step : ℕ → σ → α → σ) (s : σ) (past : List α) (a : α) :
    ((past ++ [a]).foldl (fun r a => (r.1 + 1, step r.1 r.2 a)) (0, s)).2 =
      step past.length (past.foldl (fun r a => (r.1 + 1, step r.1 r.2 a)) (0, s)).2 a := by
  have hcount : ∀ (as : List α) (r : ℕ × σ),
      (as.foldl (fun r a => (r.1 + 1, step r.1 r.2 a)) r).1 = r.1 + as.length := by
    intro as
    induction as with
    | nil => simp
    | cons a as ih =>
        intro r
        rw [List.foldl_cons, ih, List.length_cons]
        omega
  rw [List.foldl_append, List.foldl_cons, List.foldl_nil, hcount, Nat.zero_add]

/-- The last action of a list whose actions see those before them. -/
theorem foldl_history_snoc (step : List α → σ → α → σ) (s : σ) (past : List α) (a : α) :
    ((past ++ [a]).foldl (fun r a => (r.1 ++ [a], step r.1 r.2 a)) ([], s)).2 =
      step past (past.foldl (fun r a => (r.1 ++ [a], step r.1 r.2 a)) ([], s)).2 a := by
  have hseen : ∀ (as : List α) (r : List α × σ),
      (as.foldl (fun r a => (r.1 ++ [a], step r.1 r.2 a)) r).1 = r.1 ++ as := by
    intro as
    induction as with
    | nil => simp
    | cons a as ih =>
        intro r
        rw [List.foldl_cons, ih, List.append_assoc, List.singleton_append]
  rw [List.foldl_append, List.foldl_cons, List.foldl_nil, hseen, List.nil_append]

end Traces
