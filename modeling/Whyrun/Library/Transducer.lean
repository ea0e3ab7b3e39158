import Mathlib.Data.List.Induction
import Mathlib.Tactic.Common

/-!
Machines that read inputs one at a time, emit a list of outputs at each
input and may fail. A run over a list of inputs collects the outputs in
order. The rules below are the ones an invariant proof needs: how runs
compose, where an output of a run was emitted, and induction over the
inputs read so far.
-/

namespace Transducer

variable {σ ι ω ε : Type*} (step : σ → ι → Except ε (σ × List ω))

/-- Feed the inputs in order; the outputs of a run are those of its steps. -/
def run : σ → List ι → Except ε (σ × List ω)
  | s, [] => .ok (s, [])
  | s, i :: is =>
      match step s i with
      | .error e => .error e
      | .ok (s', out) =>
          match run s' is with
          | .error e => .error e
          | .ok (s'', out') => .ok (s'', out ++ out')

variable {step}

@[simp] theorem run_nil (s : σ) : run step s [] = .ok (s, []) := rfl

theorem run_cons_of_ok {s s' : σ} {i : ι} {out : List ω} (is : List ι)
    (hstep : step s i = .ok (s', out)) :
    run step s (i :: is) = (run step s' is).map fun r => (r.1, out ++ r.2) := by
  rw [run, hstep]
  cases hrun : run step s' is <;> simp [Except.map, hrun]

theorem run_cons_of_error {s : σ} {i : ι} {e : ε} (is : List ι)
    (hstep : step s i = .error e) : run step s (i :: is) = .error e := by
  rw [run, hstep]

theorem run_cons_ok_iff {s t : σ} {i : ι} {is : List ι} {out : List ω} :
    run step s (i :: is) = .ok (t, out) ↔
      ∃ s' o o', step s i = .ok (s', o) ∧ run step s' is = .ok (t, o') ∧ out = o ++ o' := by
  cases hstep : step s i with
  | error e => simp [run_cons_of_error is hstep]
  | ok r =>
      obtain ⟨s', o⟩ := r
      rw [run_cons_of_ok is hstep]
      cases hrun : run step s' is with
      | error e => simp [Except.map, hrun]
      | ok r =>
          obtain ⟨s'', o'⟩ := r
          simp only [Except.map, Except.ok.injEq, Prod.mk.injEq]
          constructor
          · rintro ⟨rfl, rfl⟩
            exact ⟨s', o, o', ⟨rfl, rfl⟩, hrun, rfl⟩
          · rintro ⟨a, b, c, ⟨rfl, rfl⟩, hrest, rfl⟩
            rw [hrun] at hrest
            simp only [Except.ok.injEq, Prod.mk.injEq] at hrest
            exact ⟨hrest.1, by rw [hrest.2]⟩

theorem run_append_ok_iff {s t : σ} {is js : List ι} {out : List ω} :
    run step s (is ++ js) = .ok (t, out) ↔
      ∃ s' o o', run step s is = .ok (s', o) ∧ run step s' js = .ok (t, o') ∧
        out = o ++ o' := by
  induction is generalizing s out with
  | nil => simp
  | cons i is ih =>
      rw [List.cons_append, run_cons_ok_iff]
      constructor
      · rintro ⟨s', o, o', hstep, hrest, rfl⟩
        obtain ⟨s'', p, q, hp, hq, rfl⟩ := ih.mp hrest
        exact ⟨s'', o ++ p, q, run_cons_ok_iff.mpr ⟨s', o, p, hstep, hp, rfl⟩, hq, by simp⟩
      · rintro ⟨s'', p, q, hp, hq, rfl⟩
        obtain ⟨s', o, o', hstep, hrest, rfl⟩ := run_cons_ok_iff.mp hp
        exact ⟨s', o, o' ++ q, hstep, ih.mpr ⟨s'', o', q, hrest, hq, rfl⟩, by simp⟩

@[simp] theorem run_singleton (s : σ) (i : ι) : run step s [i] = step s i := by
  cases hstep : step s i with
  | error e => exact run_cons_of_error [] hstep
  | ok r => simp [run_cons_of_ok [] hstep, Except.map]

theorem run_append_of_ok {s s' : σ} {is : List ι} {out : List ω} (js : List ι)
    (hrun : run step s is = .ok (s', out)) :
    run step s (is ++ js) = (run step s' js).map fun r => (r.1, out ++ r.2) := by
  induction is generalizing s out with
  | nil =>
      simp only [run_nil, Except.ok.injEq, Prod.mk.injEq] at hrun
      obtain ⟨rfl, rfl⟩ := hrun
      cases hrest : run step s js <;> simp [Except.map, hrest]
  | cons i is ih =>
      obtain ⟨u, o, o', hstep, hrest, rfl⟩ := run_cons_ok_iff.mp hrun
      rw [List.cons_append, run_cons_of_ok _ hstep, ih hrest]
      cases run step s' js <;> simp [Except.map]

theorem run_append_of_error {s : σ} {is : List ι} {e : ε} (js : List ι)
    (hrun : run step s is = .error e) : run step s (is ++ js) = .error e := by
  induction is generalizing s with
  | nil => simp at hrun
  | cons i is ih =>
      cases hstep : step s i with
      | error e' =>
          rw [run_cons_of_error is hstep] at hrun
          rw [List.cons_append, run_cons_of_error _ hstep, hrun]
      | ok r =>
          rw [run_cons_of_ok is hstep] at hrun
          cases hrest : run step r.1 is with
          | ok r' => simp [hrest, Except.map] at hrun
          | error e' =>
              simp only [hrest, Except.map, Except.error.injEq] at hrun
              subst hrun
              rw [List.cons_append, run_cons_of_ok _ hstep, ih hrest]
              rfl

theorem run_append_congr {s : σ} {is is' : List ι} (h : run step s is = run step s is')
    (js : List ι) : run step s (is ++ js) = run step s (is' ++ js) := by
  cases hrun : run step s is' with
  | error e => rw [run_append_of_error js hrun, run_append_of_error js (h.trans hrun)]
  | ok r => rw [run_append_of_ok js hrun, run_append_of_ok js (h.trans hrun)]

theorem run_of_idle {s : σ} {is : List ι} (h : ∀ i ∈ is, step s i = .ok (s, [])) :
    run step s is = .ok (s, []) := by
  induction is with
  | nil => rfl
  | cons i is ih =>
      rw [run_cons_of_ok is (h i (by simp)), ih fun j hj => h j (by simp [hj])]
      rfl

/-- Inputs that find the machine idle can be left out. -/
theorem run_filter_of_idle {p : ι → Bool} {s : σ} {is : List ι}
    (h : ∀ before i after s' o, is = before ++ i :: after → p i = false →
      run step s before = .ok (s', o) → step s' i = .ok (s', [])) :
    run step s is = run step s (is.filter p) := by
  induction is generalizing s with
  | nil => rfl
  | cons i is ih =>
      cases hi : p i with
      | false =>
          have hidle : step s i = .ok (s, []) := h [] i is s [] rfl hi rfl
          have hrest := ih (s := s) fun before j after s' o hsplit hj hrun =>
            h (i :: before) j after s' o (by rw [hsplit]; rfl) hj
              (by rw [run_cons_of_ok _ hidle, hrun]; rfl)
          rw [run_cons_of_ok is hidle, hrest, List.filter_cons_of_neg (by simp [hi])]
          cases run step s (is.filter p) <;> rfl
      | true =>
          rw [List.filter_cons_of_pos hi]
          cases hstep : step s i with
          | error e => rw [run_cons_of_error _ hstep, run_cons_of_error _ hstep]
          | ok r =>
              obtain ⟨t, out⟩ := r
              have hrest := ih (s := t) fun before j after s' o hsplit hj hrun =>
                h (i :: before) j after s' (out ++ o) (by rw [hsplit]; rfl) hj
                  (by rw [run_cons_of_ok _ hstep, hrun]; rfl)
              rw [run_cons_of_ok _ hstep, run_cons_of_ok _ hstep, hrest]

/-- Runs on consecutive pieces are one run on the whole input. -/
theorem run_run {s : σ} {pieces : List (List ι)} :
    run (run step) s pieces = run step s pieces.flatten := by
  induction pieces generalizing s with
  | nil => rfl
  | cons piece pieces ih =>
      rw [List.flatten_cons]
      cases hpiece : run step s piece with
      | error e => rw [run_cons_of_error _ hpiece, run_append_of_error _ hpiece]
      | ok r => rw [run_cons_of_ok _ hpiece, run_append_of_ok _ hpiece, ih]

/-! ### Folds that may fail

The machine without outputs: `List.foldlM` in `Except`. -/

/-- A computation in two parts succeeds when both do. -/
theorem bind_ok_iff.{u, v} {ε : Type u} {α β : Type v} {x : Except ε α} {f : α → Except ε β}
    {b : β} :
    x >>= f = .ok b ↔ ∃ a, x = .ok a ∧ f a = .ok b := by
  cases x with
  | error e => simp [Bind.bind, Except.bind]
  | ok a => simp [Bind.bind, Except.bind]

section folds

variable {f : σ → ι → Except ε σ}

theorem foldlM_nil_ok_iff {s t : σ} : [].foldlM f s = .ok t ↔ t = s := by
  simp [pure, Except.pure, eq_comm]

theorem foldlM_cons_ok_iff {s t : σ} {i : ι} {is : List ι} :
    (i :: is).foldlM f s = .ok t ↔ ∃ s', f s i = .ok s' ∧ is.foldlM f s' = .ok t := by
  rw [List.foldlM_cons, bind_ok_iff]

theorem foldlM_append_ok_iff {s t : σ} {is js : List ι} :
    (is ++ js).foldlM f s = .ok t ↔ ∃ s', is.foldlM f s = .ok s' ∧ js.foldlM f s' = .ok t := by
  rw [List.foldlM_append, bind_ok_iff]

/-- Induction over the inputs folded so far. -/
theorem foldlM_induction {motive : List ι → σ → Prop} {s₀ : σ} (start : motive [] s₀)
    (next : ∀ past s i s', motive past s → f s i = .ok s' → motive (past ++ [i]) s')
    {is : List ι} {s : σ} (hfold : is.foldlM f s₀ = .ok s) : motive is s := by
  induction is using List.reverseRecOn generalizing s with
  | nil =>
      obtain rfl := foldlM_nil_ok_iff.mp hfold
      exact start
  | append_singleton past i ih =>
      obtain ⟨s', hpast, hlast⟩ := foldlM_append_ok_iff.mp hfold
      obtain ⟨s'', hstep, hnil⟩ := foldlM_cons_ok_iff.mp hlast
      obtain rfl := foldlM_nil_ok_iff.mp hnil
      exact next past s' i s (ih hpast) hstep

end folds

/-! ### Histories

`admits past i` says that input `i` may come after the inputs `past`. -/

/-- Every input of the list is admitted by the inputs before it. -/
def Legal (admits : List ι → ι → Prop) (is : List ι) : Prop :=
  ∀ past i rest, is = past ++ i :: rest → admits past i

theorem legal_nil (admits : List ι → ι → Prop) : Legal admits [] := by
  intro past i rest h
  simp at h

theorem Legal.init {admits : List ι → ι → Prop} {is : List ι} {i : ι}
    (h : Legal admits (is ++ [i])) : Legal admits is := by
  intro past j rest hsplit
  exact h past j (rest ++ [i]) (by simp [hsplit])

theorem Legal.last {admits : List ι → ι → Prop} {is : List ι} {i : ι}
    (h : Legal admits (is ++ [i])) : admits is i :=
  h is i [] rfl

theorem Legal.of_append {admits : List ι → ι → Prop} {is js : List ι}
    (h : Legal admits (is ++ js)) : Legal admits is := by
  intro past j rest hsplit
  exact h past j (rest ++ js) (by simp [hsplit])

theorem Legal.snoc {admits : List ι → ι → Prop} {is : List ι} {i : ι} (h : Legal admits is)
    (hi : admits is i) : Legal admits (is ++ [i]) := by
  intro past j rest hsplit
  rcases List.eq_nil_or_concat rest with rfl | ⟨rest, k, rfl⟩
  · obtain ⟨rfl, hij⟩ := List.append_inj' hsplit rfl
    obtain ⟨rfl, -⟩ := List.cons.inj hij
    exact hi
  · rw [List.concat_eq_append, ← List.cons_append, ← List.append_assoc] at hsplit
    exact h past j rest (List.append_inj' hsplit rfl).1

theorem legal_cons_iff {admits : List ι → ι → Prop} {i : ι} {is : List ι} :
    Legal admits (i :: is) ↔ admits [] i ∧ Legal (fun past => admits (i :: past)) is := by
  constructor
  · intro h
    exact ⟨h [] i is rfl, fun past j rest hsplit => h (i :: past) j rest (by rw [hsplit]; rfl)⟩
  · rintro ⟨hfirst, hrest⟩ past j rest hsplit
    cases past with
    | nil =>
        obtain ⟨rfl, -⟩ := List.cons.inj hsplit
        exact hfirst
    | cons k past =>
        obtain ⟨rfl, htail⟩ := List.cons.inj hsplit
        exact hrest past j rest htail

/-- Every input of a legal list comes after a legal history. -/
theorem Legal.history {admits : List ι → ι → Prop} {is : List ι} (h : Legal admits is) :
    Legal (fun past i => Legal admits past ∧ admits past i) is := by
  rintro past i rest rfl
  exact ⟨h.of_append, h past i rest rfl⟩

/-- Some input satisfies `p`, and none after it satisfies `q`. -/
def Since (p q : ι → Prop) (is : List ι) : Prop :=
  ∃ before i after, is = before ++ i :: after ∧ p i ∧ ∀ j ∈ after, ¬ q j

theorem since_snoc {p q : ι → Prop} {is : List ι} {i : ι} :
    Since p q (is ++ [i]) ↔ p i ∨ (Since p q is ∧ ¬ q i) := by
  constructor
  · rintro ⟨before, j, after, hsplit, hp, hq⟩
    rcases List.eq_nil_or_concat after with rfl | ⟨after, k, rfl⟩
    · obtain ⟨-, hij⟩ := List.append_inj' hsplit rfl
      obtain ⟨rfl, -⟩ := List.cons.inj hij
      exact .inl hp
    · rw [List.concat_eq_append] at hsplit hq
      rw [← List.cons_append, ← List.append_assoc] at hsplit
      obtain ⟨rfl, hik⟩ := List.append_inj' hsplit rfl
      obtain ⟨rfl, -⟩ := List.cons.inj hik
      exact .inr ⟨⟨before, j, after, rfl, hp, fun k hk => hq k (by simp [hk])⟩, hq _ (by simp)⟩
  · rintro (hp | ⟨⟨before, j, after, rfl, hp, hq⟩, hi⟩)
    · exact ⟨is, i, [], rfl, hp, by simp⟩
    · refine ⟨before, j, after ++ [i], by simp, hp, fun k hk => ?_⟩
      rcases List.mem_append.mp hk with hk | hk
      · exact hq k hk
      · rw [List.mem_singleton.mp hk]
        exact hi

/-- Induction over the inputs read so far: an invariant of the history,
the state and the outputs that each admitted step keeps holds after every
legal run. -/
theorem run_induction {admits : List ι → ι → Prop} {motive : List ι → σ → List ω → Prop}
    {s₀ : σ} (start : motive [] s₀ [])
    (next : ∀ past s out i s' o, run step s₀ past = .ok (s, out) → motive past s out →
      admits past i → step s i = .ok (s', o) → motive (past ++ [i]) s' (out ++ o))
    {is : List ι} {s : σ} {out : List ω} (legal : Legal admits is)
    (hrun : run step s₀ is = .ok (s, out)) : motive is s out := by
  induction is using List.reverseRecOn generalizing s out with
  | nil =>
      simp only [run_nil, Except.ok.injEq, Prod.mk.injEq] at hrun
      obtain ⟨rfl, rfl⟩ := hrun
      exact start
  | append_singleton past i ih =>
      obtain ⟨s', o, o', hpast, hlast, rfl⟩ := run_append_ok_iff.mp hrun
      rw [run_singleton] at hlast
      exact next past s' o i s o' hpast (ih legal.init hpast) legal.last hlast

/-- The same rule when every input is admitted. -/
theorem run_invariant {motive : List ι → σ → List ω → Prop} {s₀ : σ} (start : motive [] s₀ [])
    (next : ∀ past s out i s' o, motive past s out → step s i = .ok (s', o) →
      motive (past ++ [i]) s' (out ++ o))
    {is : List ι} {s : σ} {out : List ω} (hrun : run step s₀ is = .ok (s, out)) :
    motive is s out :=
  run_induction start
    (fun past s out i s' o _ hinv _ hstep => next past s out i s' o hinv hstep)
    (fun _ _ _ _ => trivial) hrun

/-- An output of a run was emitted by one of its steps. -/
theorem exists_step_of_mem_run {s₀ s : σ} {is : List ι} {out : List ω} {x : ω}
    (hrun : run step s₀ is = .ok (s, out)) (hx : x ∈ out) :
    ∃ past i rest s₁ o₁ s₂ o₂, is = past ++ i :: rest ∧ run step s₀ past = .ok (s₁, o₁) ∧
      step s₁ i = .ok (s₂, o₂) ∧ x ∈ o₂ := by
  induction is generalizing s₀ out with
  | nil =>
      simp only [run_nil, Except.ok.injEq, Prod.mk.injEq] at hrun
      simp [← hrun.2] at hx
  | cons i is ih =>
      obtain ⟨s', o, o', hstep, hrest, rfl⟩ := run_cons_ok_iff.mp hrun
      rcases List.mem_append.mp hx with hx | hx
      · exact ⟨[], i, is, s₀, [], s', o, rfl, rfl, hstep, hx⟩
      · obtain ⟨past, j, rest, s₁, o₁, s₂, o₂, rfl, hpast, hj, hmem⟩ := ih hrest hx
        exact ⟨i :: past, j, rest, s₁, o ++ o₁, s₂, o₂, rfl,
          run_cons_ok_iff.mpr ⟨s', o, o₁, hstep, hpast, rfl⟩, hj, hmem⟩

/-! ### Slices

`keep past i` says that input `i` is in the slice when it comes after the
inputs `past`. -/

/-- The inputs of the slice, from the inputs that come after `past`. -/
def slice (keep : List ι → ι → Bool) : List ι → List ι → List ι
  | _, [] => []
  | past, i :: is =>
      if keep past i then i :: slice keep (past ++ [i]) is else slice keep (past ++ [i]) is

/-- The second machine refuses what the first refuses. Otherwise it emits what
is seen of the first one's outputs and ends in a related state. -/
def Follows {τ : Type*} (seen : ω → Bool) (related : τ → σ → Prop) :
    (r : Except ε (σ × List ω)) → (r' : Except ε (τ × List ω)) → Prop
  | .error e, r' => r' = .error e
  | .ok (t, o), r' => ∃ s, r' = .ok (s, o.filter seen) ∧ related s t

/-- The run on a slice follows the run on everything, when a step follows its
kept inputs and does not notice the others. -/
theorem run_slice {keep : List ι → ι → Bool} (seen : ω → Bool) {admits : List ι → ι → Prop}
    {related : List ι → σ → σ → Prop}
    (kept : ∀ past i s t, related past s t → admits past i → keep past i = true →
      Follows seen (related (past ++ [i])) (step t i) (step s i))
    (left : ∀ past i s t, related past s t → admits past i → keep past i = false →
      ∃ t' o, step t i = .ok (t', o) ∧ o.filter seen = [] ∧ related (past ++ [i]) s t')
    {past is : List ι} {s t : σ} (hstart : related past s t) (legal : Legal admits (past ++ is)) :
    Follows seen (related (past ++ is)) (run step t is) (run step s (slice keep past is)) := by
  induction is generalizing past s t with
  | nil => exact ⟨s, rfl, by simpa using hstart⟩
  | cons i is ih =>
      have hadmits := legal past i is rfl
      have hsplit : past ++ i :: is = past ++ [i] ++ is := by simp
      rw [hsplit] at legal ⊢
      cases hkeep : keep past i with
      | true =>
          have hfirst := kept past i s t hstart hadmits hkeep
          rw [slice, if_pos hkeep]
          cases hstep : step t i with
          | error e =>
              rw [hstep] at hfirst
              rw [run_cons_of_error _ hstep, run_cons_of_error _ (show step s i = .error e
                from hfirst)]
              rfl
          | ok r =>
              obtain ⟨t', o⟩ := r
              rw [hstep] at hfirst
              obtain ⟨s', hs, hrelated⟩ := hfirst
              have hrest := ih hrelated legal
              rw [run_cons_of_ok _ hstep, run_cons_of_ok _ hs]
              cases hrun : run step t' is with
              | error e =>
                  rw [hrun] at hrest
                  rw [show run step s' _ = .error e from hrest]
                  rfl
              | ok r =>
                  obtain ⟨u, o'⟩ := r
                  rw [hrun] at hrest
                  obtain ⟨u', hrun', hlast⟩ := hrest
                  exact ⟨u', by simp [hrun', Except.map], hlast⟩
      | false =>
          obtain ⟨t', o, hstep, hunseen, hrelated⟩ := left past i s t hstart hadmits hkeep
          have hrest := ih hrelated legal
          rw [slice, if_neg (by simp [hkeep]), run_cons_of_ok _ hstep]
          cases hrun : run step t' is with
          | error e =>
              rw [hrun] at hrest
              exact hrest
          | ok r =>
              obtain ⟨u, o'⟩ := r
              rw [hrun] at hrest
              obtain ⟨u', hrun', hlast⟩ := hrest
              exact ⟨u', by simp [hrun', hunseen], hlast⟩

/-! ### Refinement

A machine and its specification read the same inputs, each in its own form. -/

section refinement

variable {τ κ π γ ε' : Type*} {spec : τ → κ → Except ε' (τ × List π)} {form : κ → ι}
  {observe : ω → Option γ} {shown : π → γ}

/-- A machine refines a specification when the specification can follow each
of its steps, so that the states stay related and the observations are the
same. -/
theorem run_refines {admits : List κ → κ → Prop} {related : τ → σ → Prop} {t₀ : τ} {s₀ : σ}
    (next : ∀ past k t s s' log o, run spec t₀ past = .ok (t, log) → related t s →
      admits past k → step s (form k) = .ok (s', o) →
      ∃ t' o', spec t k = .ok (t', o') ∧ related t' s' ∧ o.filterMap observe = o'.map shown)
    (hstart : related t₀ s₀) {ks : List κ} {s : σ} {out : List ω} (legal : Legal admits ks)
    (hrun : run step s₀ (ks.map form) = .ok (s, out)) :
    ∃ t log, run spec t₀ ks = .ok (t, log) ∧ related t s ∧
      out.filterMap observe = log.map shown := by
  induction ks using List.reverseRecOn generalizing s out with
  | nil =>
      simp only [List.map_nil, run_nil, Except.ok.injEq, Prod.mk.injEq] at hrun
      obtain ⟨rfl, rfl⟩ := hrun
      exact ⟨t₀, [], rfl, hstart, rfl⟩
  | append_singleton past k ih =>
      rw [List.map_append, List.map_singleton] at hrun
      obtain ⟨s', o, o', hpast, hlast, rfl⟩ := run_append_ok_iff.mp hrun
      rw [run_singleton] at hlast
      obtain ⟨t, log, hspec, hrelated, hobserved⟩ := ih legal.init hpast
      obtain ⟨t', log', hstep, hrelated', hobserved'⟩ :=
        next past k t s' s log o' hspec hrelated legal.last hlast
      refine ⟨t', log ++ log', ?_, hrelated', ?_⟩
      · exact run_append_ok_iff.mpr ⟨t, log, log', hspec, by rw [run_singleton, hstep], rfl⟩
      · rw [List.filterMap_append, List.map_append, hobserved, hobserved']

end refinement

end Transducer
