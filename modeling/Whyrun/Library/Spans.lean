import Mathlib.Data.List.Basic
import Mathlib.Tactic.Common

/-!
Finite stretches of a partial sequence: the elements from a position on, when
all of them are present. A reader that can only fetch whole blocks of a fixed
width sees a stretch rounded up to that width.
-/

namespace Spans

variable {β : Type*} {source : ℕ → Option β} {start m n width : ℕ} {xs : List β}

/-- The `n` elements from position `start` on, when all of them are present. -/
def span (source : ℕ → Option β) (start : ℕ) : ℕ → Option (List β)
  | 0 => some []
  | n + 1 => (source start).bind fun x => (span source (start + 1) n).map (x :: ·)

@[simp] theorem span_zero : span source start 0 = some [] := rfl

theorem length_of_span (h : span source start n = some xs) : xs.length = n := by
  induction n generalizing start xs with
  | zero =>
      obtain rfl := Option.some.inj h
      rfl
  | succ n ih =>
      simp only [span, Option.bind_eq_some_iff, Option.map_eq_some_iff] at h
      obtain ⟨x, -, rest, hrest, rfl⟩ := h
      rw [List.length_cons, ih hrest]

/-- A stretch is one part of it followed by the other. -/
theorem span_add (source : ℕ → Option β) (start m n : ℕ) :
    span source start (m + n) =
      (span source start m).bind fun xs => (span source (start + m) n).map (xs ++ ·) := by
  induction m generalizing start with
  | zero => simp
  | succ m ih =>
      rw [Nat.succ_add_eq_add_succ, Nat.add_succ, span, span, ih]
      cases source start with
      | none => rfl
      | some x =>
          rw [Nat.add_right_comm start 1 m, ← Nat.add_assoc start m 1]
          cases span source (start + 1) m <;> cases span source (start + m + 1) n <;> simp

theorem span_eq_some_add_iff :
    span source start (m + n) = some xs ↔
      span source start m = some (xs.take m) ∧ span source (start + m) n = some (xs.drop m) := by
  rw [span_add]
  constructor
  · intro h
    simp only [Option.bind_eq_some_iff, Option.map_eq_some_iff] at h
    obtain ⟨front, hfront, back, hback, rfl⟩ := h
    obtain rfl := length_of_span hfront
    simpa using ⟨hfront, hback⟩
  · rintro ⟨hfront, hback⟩
    simp [hfront, hback]

theorem span_take (h : span source start n = some xs) (hm : m ≤ n) :
    span source start m = some (xs.take m) := by
  obtain ⟨k, rfl⟩ := Nat.exists_eq_add_of_le hm
  exact (span_eq_some_add_iff.mp h).1

theorem span_drop (h : span source start (m + n) = some xs) :
    span source (start + m) n = some (xs.drop m) :=
  (span_eq_some_add_iff.mp h).2

theorem isSome_span_iff :
    (span source start n).isSome ↔ ∀ i < n, (source (start + i)).isSome := by
  induction n generalizing start with
  | zero => simp
  | succ n ih =>
      have hsplit : (∀ i < n + 1, (source (start + i)).isSome) ↔
          (source start).isSome ∧ ∀ i < n, (source (start + 1 + i)).isSome := by
        rw [Nat.forall_lt_succ_left]
        simp only [Nat.add_zero, Nat.add_assoc, Nat.add_comm 1]
      rw [hsplit, ← ih, span]
      cases source start <;> simp

theorem getElem?_of_span (h : span source start n = some xs) {i : ℕ} (hi : i < n) :
    source (start + i) = xs[i]? := by
  induction n generalizing start xs i with
  | zero => omega
  | succ n ih =>
      simp only [span, Option.bind_eq_some_iff, Option.map_eq_some_iff] at h
      obtain ⟨x, hx, rest, hrest, rfl⟩ := h
      cases i with
      | zero => simpa using hx
      | succ i =>
          rw [List.getElem?_cons_succ, ← ih hrest (by omega), Nat.add_assoc, Nat.add_comm 1 i]

/-- The same stretch seen from another origin. -/
theorem span_shift (source : ℕ → Option β) (origin start n : ℕ) :
    span (fun i => source (origin + i)) start n = span source (origin + start) n := by
  induction n generalizing start with
  | zero => rfl
  | succ n ih => rw [span, span, ih, Nat.add_assoc]

/-! ### Terminated texts -/

variable {stop : β} {limit : ℕ} {text : List β}

/-- `text` stands at `start`: elements other than `stop`, up to a `stop` below
the limit or up to the limit itself. -/
structure TextAt (stop : β) (source : ℕ → Option β) (start limit : ℕ) (text : List β) :
    Prop where
  elements : span source start text.length = some text
  clean : stop ∉ text
  ends : text.length = limit ∨
    text.length < limit ∧ source (start + text.length) = some stop

/-- How many elements show where the text ends. -/
def seen (limit : ℕ) (text : List β) : ℕ := min (text.length + 1) limit

theorem TextAt.length_le (h : TextAt stop source start limit text) : text.length ≤ limit := by
  obtain hend | ⟨hlt, -⟩ := h.ends <;> omega

/-- A stretch that ends inside the text is a part of it. -/
theorem TextAt.take_eq (h : TextAt stop source start limit text)
    (hspan : span source start n = some xs) (hn : n ≤ text.length) : xs = text.take n :=
  Option.some.inj (hspan.symm.trans (span_take h.elements hn))

/-- A stretch that goes past the text shows it and its terminator. -/
theorem TextAt.eq_append (h : TextAt stop source start limit text)
    (hspan : span source start n = some xs) (hn : text.length < n)
    (hlimit : text.length < limit) : ∃ rest, xs = text ++ stop :: rest := by
  have hfront : xs.take text.length = text :=
    (Option.some.inj ((span_take hspan (Nat.le_of_lt hn)).symm.trans h.elements))
  have hstop : xs[text.length]? = some stop := by
    obtain hend | ⟨-, hnext⟩ := h.ends
    · omega
    · rw [← getElem?_of_span hspan hn, hnext]
  obtain ⟨hlt, hget⟩ := List.getElem?_eq_some_iff.mp hstop
  refine ⟨xs.drop (text.length + 1), ?_⟩
  conv_lhs => rw [← List.take_append_drop text.length xs, List.drop_eq_getElem_cons hlt]
  rw [hfront, hget]

theorem TextAt.drop (h : TextAt stop source start limit text) (hn : n ≤ text.length) :
    TextAt stop source (start + n) (limit - n) (text.drop n) := by
  have hlimit := h.length_le
  have hsum : n + (text.drop n).length = text.length := by
    rw [List.length_drop]
    omega
  constructor
  · apply span_drop
    rw [hsum]
    exact h.elements
  · exact fun hmem => h.clean (List.mem_of_mem_drop hmem)
  · rw [Nat.add_assoc, hsum]
    obtain hend | ⟨hlt, hnext⟩ := h.ends
    · left
      omega
    · right
      exact ⟨by omega, hnext⟩

theorem seen_drop (hn : n ≤ text.length) (hlimit : text.length ≤ limit) :
    seen limit text = n + seen (limit - n) (text.drop n) := by
  rw [seen, seen, List.length_drop]
  omega

/-! ### Whole blocks -/

/-- The length that whole blocks of `width` elements need for `n` elements. -/
def roundUp (width n : ℕ) : ℕ := width * ((n + width - 1) / width)

theorem roundUp_zero (hwidth : 0 < width) : roundUp width 0 = 0 := by
  rw [roundUp, Nat.zero_add, Nat.div_eq_of_lt (by omega), Nat.mul_zero]

theorem le_roundUp (hwidth : 0 < width) : n ≤ roundUp width n := by
  have h := Nat.lt_mul_div_succ (n + width - 1) hwidth
  rw [roundUp]
  rw [Nat.mul_add_one] at h
  omega

/-- Up to one block, one block. -/
theorem roundUp_of_le (hpos : 0 < n) (hle : n ≤ width) : roundUp width n = width := by
  rw [roundUp, Nat.div_eq_of_lt_le (k := 1) (by omega) (by omega), Nat.mul_one]

theorem roundUp_add (hwidth : 0 < width) : roundUp width (width + n) = width + roundUp width n := by
  rw [roundUp, roundUp, show width + n + width - 1 = n + width - 1 + width by omega,
    Nat.add_div_right _ hwidth, Nat.mul_succ, Nat.add_comm]

end Spans
