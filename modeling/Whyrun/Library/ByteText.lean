import Mathlib.Data.List.TakeWhile
import Mathlib.Data.Nat.Digits.Lemmas
import Mathlib.Tactic.Common

/-!
Texts as byte strings: ASCII literals, the decimal text of an integer as
`std::to_string` and a shell's `%s` write it, and the decimal readers of
the C++ library (`std::from_chars`, `std::stoll`). The round trips between
the writer and the readers are the results of this module.
-/

namespace ByteText

/-- A `std::string`: any bytes, no terminator. -/
abbrev Bytes := List UInt8

/-- The bytes of an ASCII literal. -/
def lit (s : String) : Bytes := s.toList.map fun c => c.toNat.toUInt8

/-! ### Writing decimals -/

def digitByte (d : ℕ) : UInt8 := (48 + d).toUInt8

/-- Decimal text of a natural number, most significant digit first. -/
def decimalNat (n : ℕ) : Bytes :=
  if n = 0 then [48] else (Nat.digits 10 n).reverse.map digitByte

/-- Decimal text of an integer, with a leading `-` when negative. -/
def decimal (i : ℤ) : Bytes :=
  if i < 0 then 45 :: decimalNat i.natAbs else decimalNat i.natAbs

/-- Lower-case hexadecimal digit. -/
def hexByte (d : ℕ) : UInt8 := if d < 10 then (48 + d).toUInt8 else (87 + d).toUInt8

/-- Hexadecimal text of a natural number, as `std::hex` and `%x` write it. -/
def hexNat (n : ℕ) : Bytes :=
  if n = 0 then [48] else (Nat.digits 16 n).reverse.map hexByte

/-- Two hexadecimal digits of a byte. -/
def hexPair (b : UInt8) : Bytes := [hexByte (b.toNat / 16), hexByte (b.toNat % 16)]

/-- `isprint` in the C locale. -/
def isPrint (b : UInt8) : Bool := 0x20 ≤ b && b ≤ 0x7e

/-- The number that bytes in little-endian order denote. -/
def littleEndian (bytes : Bytes) : ℕ := Nat.ofDigits 256 (bytes.map UInt8.toNat)

/-! ### Reading decimals -/

def isDigit (b : UInt8) : Bool := 48 ≤ b && b ≤ 57

def digitsValue (text : Bytes) : ℕ :=
  text.foldl (fun value b => 10 * value + (b.toNat - 48)) 0

/-- `std::from_chars` on an unsigned type holding the values below `limit`:
the value and the text after the last digit, or nothing when there is no
digit or the value is out of range. A sign is not recognised. -/
def fromCharsUnsigned (limit : ℕ) (text : Bytes) : Option (ℕ × Bytes) :=
  let digits := text.takeWhile isDigit
  if digits = [] then none
  else if digitsValue digits < limit then
    some (digitsValue digits, text.dropWhile isDigit)
  else none

/-- `std::from_chars` on a signed type with values from `-limit` to
`limit - 1`: an optional `-`, then digits. -/
def fromCharsSigned (limit : ℕ) (text : Bytes) : Option (ℤ × Bytes) :=
  match text with
  | 45 :: rest => (fromCharsUnsigned (limit + 1) rest).map fun r => (-(r.1 : ℤ), r.2)
  | _ => (fromCharsUnsigned limit text).map fun r => ((r.1 : ℤ), r.2)

/-- `isspace` in the C locale. -/
def isSpace (b : UInt8) : Bool := b == 32 || (9 ≤ b && b ≤ 13)

/-- Why `std::stoll` throws. -/
inductive StollError
  | invalidArgument
  | outOfRange
  deriving DecidableEq

/-- `std::stoll` in base ten: blanks, an optional sign, digits; whatever
follows the digits is ignored. -/
def stoll (text : Bytes) : Except StollError ℤ :=
  let body := text.dropWhile isSpace
  let negative := body.head? = some 45
  let unsigned := if body.head? = some 45 ∨ body.head? = some 43 then body.tail else body
  let digits := unsigned.takeWhile isDigit
  if digits = [] then .error .invalidArgument
  else
    let value : ℤ := if negative then -(digitsValue digits : ℤ) else digitsValue digits
    if -(2 ^ 63) ≤ value ∧ value < 2 ^ 63 then .ok value else .error .outOfRange

/-! ### Round trips -/

theorem isDigit_digitByte {d : ℕ} (h : d < 10) : isDigit (digitByte d) = true := by
  interval_cases d <;> rfl

theorem toNat_digitByte {d : ℕ} (h : d < 10) : (digitByte d).toNat = 48 + d := by
  interval_cases d <;> rfl

theorem isDigit_of_mem_decimalNat {n : ℕ} {b : UInt8} (h : b ∈ decimalNat n) :
    isDigit b = true := by
  unfold decimalNat at h
  split at h
  · simp only [List.mem_singleton] at h
    subst h
    rfl
  · simp only [List.mem_map, List.mem_reverse] at h
    obtain ⟨d, hd, rfl⟩ := h
    exact isDigit_digitByte (Nat.digits_lt_base (by omega) hd)

theorem decimalNat_ne_nil (n : ℕ) : decimalNat n ≠ [] := by
  unfold decimalNat
  split
  · simp
  · simpa using Nat.digits_ne_nil_iff_ne_zero.mpr ‹_›

theorem length_decimalNat_le {n k : ℕ} (hk : 0 < k) (h : n < 10 ^ k) :
    (decimalNat n).length ≤ k := by
  unfold decimalNat
  split
  · exact hk
  · simpa using (Nat.digits_length_le_iff (by omega) n).mpr h

theorem digitsValue_append_singleton (text : Bytes) (b : UInt8) :
    digitsValue (text ++ [b]) = 10 * digitsValue text + (b.toNat - 48) := by
  simp [digitsValue, List.foldl_append]

theorem digitsValue_reverse_map {ds : List ℕ} (h : ∀ d ∈ ds, d < 10) :
    digitsValue (ds.reverse.map digitByte) = Nat.ofDigits 10 ds := by
  induction ds with
  | nil => rfl
  | cons d ds ih =>
      have hd : d < 10 := h d (by simp)
      rw [List.reverse_cons, List.map_append, List.map_singleton,
        digitsValue_append_singleton, ih fun e he => h e (by simp [he]),
        toNat_digitByte hd, Nat.ofDigits_cons]
      omega

@[simp] theorem digitsValue_decimalNat (n : ℕ) : digitsValue (decimalNat n) = n := by
  unfold decimalNat
  split
  · subst n
    rfl
  · rw [digitsValue_reverse_map fun d hd => Nat.digits_lt_base (by omega) hd,
      Nat.ofDigits_digits]

theorem takeWhile_decimalNat (n : ℕ) (rest : Bytes)
    (hrest : ∀ b ∈ rest.head?, isDigit b = false) :
    (decimalNat n ++ rest).takeWhile isDigit = decimalNat n := by
  rw [List.takeWhile_append_of_pos fun b hb => isDigit_of_mem_decimalNat hb]
  cases rest with
  | nil => simp
  | cons b rest => simp [hrest b (by simp)]

theorem dropWhile_decimalNat (n : ℕ) (rest : Bytes)
    (hrest : ∀ b ∈ rest.head?, isDigit b = false) :
    (decimalNat n ++ rest).dropWhile isDigit = rest := by
  rw [List.dropWhile_append_of_pos fun b hb => isDigit_of_mem_decimalNat hb]
  cases rest with
  | nil => simp
  | cons b rest => simp [hrest b (by simp)]

theorem fromCharsUnsigned_decimalNat (limit n : ℕ) :
    fromCharsUnsigned limit (decimalNat n) = if n < limit then some (n, []) else none := by
  have htake := takeWhile_decimalNat n [] (by simp)
  have hdrop := dropWhile_decimalNat n [] (by simp)
  rw [List.append_nil] at htake hdrop
  simp [fromCharsUnsigned, htake, hdrop, decimalNat_ne_nil]

theorem head_decimalNat (n : ℕ) : ∃ b rest, decimalNat n = b :: rest ∧ isDigit b = true := by
  obtain ⟨b, rest, h⟩ := List.exists_cons_of_ne_nil (decimalNat_ne_nil n)
  exact ⟨b, rest, h, isDigit_of_mem_decimalNat (n := n) (by simp [h])⟩

theorem fromCharsSigned_decimalNat (limit n : ℕ) :
    fromCharsSigned limit (decimalNat n) =
      if n < limit then some ((n : ℤ), []) else none := by
  obtain ⟨b, rest, hdec, hb⟩ := head_decimalNat n
  have hsign : b ≠ 45 := by rintro rfl; simp [isDigit] at hb
  have hfrom := fromCharsUnsigned_decimalNat limit n
  rw [hdec] at hfrom ⊢
  unfold fromCharsSigned
  split
  · rename_i heq
    exact absurd (List.cons.inj heq).1 hsign
  · rw [hfrom]
    split <;> simp

/-- A minus sign is no digit: an unsigned reader finds no number there. -/
theorem fromCharsUnsigned_decimal_neg (limit : ℕ) {i : ℤ} (h : i < 0) :
    fromCharsUnsigned limit (decimal i) = none := by
  have hminus : isDigit 45 = false := rfl
  simp [fromCharsUnsigned, decimal, h, hminus]

theorem decimal_of_nonneg {i : ℤ} (h : 0 ≤ i) : decimal i = decimalNat i.toNat := by
  have habs : i.natAbs = i.toNat := by omega
  rw [decimal, if_neg (by omega), habs]

theorem isDigit_or_minus_of_mem_decimal {i : ℤ} {b : UInt8} (h : b ∈ decimal i) :
    isDigit b = true ∨ b = 45 := by
  unfold decimal at h
  split at h
  · rcases List.mem_cons.mp h with rfl | h
    · exact .inr rfl
    · exact .inl (isDigit_of_mem_decimalNat h)
  · exact .inl (isDigit_of_mem_decimalNat h)

theorem ne_zero_of_mem_decimal {i : ℤ} {b : UInt8} (h : b ∈ decimal i) : b ≠ 0 := by
  rcases isDigit_or_minus_of_mem_decimal h with hb | rfl
  · rintro rfl
    simp [isDigit] at hb
  · decide

theorem stoll_decimal (i : ℤ) :
    stoll (decimal i) =
      if -(2 ^ 63) ≤ i ∧ i < 2 ^ 63 then .ok i else .error .outOfRange := by
  have htake := takeWhile_decimalNat i.natAbs [] (by simp)
  rw [List.append_nil] at htake
  by_cases hneg : i < 0
  · have hspace : isSpace 45 = false := rfl
    simp [stoll, decimal, hneg, hspace, htake, decimalNat_ne_nil, abs_of_neg hneg]
  · obtain ⟨b, rest, hdec, hb⟩ := head_decimalNat i.natAbs
    have hspace : isSpace b = false := by
      simp only [isDigit, Bool.and_eq_true, decide_eq_true_eq] at hb
      have h48 : (48 : ℕ) ≤ b.toNat := UInt8.le_iff_toNat_le.mp hb.1
      have h32 : b ≠ 32 := by rintro rfl; simp at h48
      have h13 : ¬ b ≤ 13 := fun h => by have := UInt8.le_iff_toNat_le.mp h; simp at this; omega
      simp [isSpace, h32, h13]
    have hminus : b ≠ 45 := by rintro rfl; simp [isDigit] at hb
    have hplus : b ≠ 43 := by rintro rfl; simp [isDigit] at hb
    have hvalue : (i.natAbs : ℤ) = i := by omega
    rw [decimal, if_neg hneg]
    rw [hdec] at htake
    have hdigits : digitsValue (b :: rest) = i.natAbs := by
      rw [← hdec, digitsValue_decimalNat]
    simp [stoll, hdec, hspace, htake, hminus, hplus, hdigits, hvalue]

/-! ### Codes of single bytes -/

/-- A text put together from delimited pieces determines its pieces. -/
theorem flatMap_injective {α β : Type} {f : α → List β} (nonempty : ∀ a, f a ≠ [])
    (delimited : ∀ a b s t, f a ++ s = f b ++ t → a = b ∧ s = t) :
    Function.Injective fun as : List α => as.flatMap f := by
  intro as bs h
  induction as generalizing bs with
  | nil =>
      cases bs with
      | nil => rfl
      | cons b bs => simp [nonempty b] at h
  | cons a as ih =>
      cases bs with
      | nil => simp [nonempty a] at h
      | cons b bs =>
          simp only [List.flatMap_cons] at h
          obtain ⟨rfl, hrest⟩ := delimited _ _ _ _ h
          rw [ih hrest]

theorem hexByte_inj {d e : ℕ} (hd : d < 16) (he : e < 16) (h : hexByte d = hexByte e) : d = e := by
  have hall : ∀ d < 16, ∀ e < 16, hexByte d = hexByte e → d = e := by decide
  exact hall d hd e he h

theorem isPrint_hexByte {d : ℕ} (hd : d < 16) : isPrint (hexByte d) = true := by
  have hall : ∀ d < 16, isPrint (hexByte d) = true := by decide
  exact hall d hd

theorem hexPair_injective : Function.Injective hexPair := by
  intro a b h
  have ha := a.toNat_lt
  have hb := b.toNat_lt
  obtain ⟨hhigh, hlow⟩ := List.cons.inj h
  have hhigh' := hexByte_inj (by omega) (by omega) hhigh
  have hlow' := hexByte_inj (by omega) (by omega) (List.cons.inj hlow).1
  exact UInt8.toNat_inj.mp (by omega)

/-! ### What the readers accept whole -/

theorem fromCharsUnsigned_eq_some_iff {limit : ℕ} {text : Bytes} {v : ℕ} :
    fromCharsUnsigned limit text = some (v, []) ↔
      text ≠ [] ∧ (∀ b ∈ text, isDigit b = true) ∧ digitsValue text = v ∧ v < limit := by
  constructor
  · intro h
    simp only [fromCharsUnsigned] at h
    split at h
    · contradiction
    rename_i hne
    split at h
    · rename_i hlt
      simp only [Option.some.injEq, Prod.mk.injEq] at h
      obtain ⟨rfl, hrest⟩ := h
      have hall : text.takeWhile isDigit = text := by
        have hsplit := List.takeWhile_append_dropWhile (p := isDigit) (l := text)
        rwa [hrest, List.append_nil] at hsplit
      rw [hall] at hne hlt ⊢
      exact ⟨hne, List.takeWhile_eq_self_iff.mp hall, rfl, hlt⟩
    · contradiction
  · rintro ⟨hne, hdigits, rfl, hlt⟩
    have htake : text.takeWhile isDigit = text := List.takeWhile_eq_self_iff.mpr hdigits
    have hdrop : text.dropWhile isDigit = [] := List.dropWhile_eq_nil_iff.mpr hdigits
    simp [fromCharsUnsigned, htake, hdrop, hne, hlt]

theorem fromCharsSigned_eq_some_iff {limit : ℕ} {text : Bytes} {v : ℤ} :
    fromCharsSigned limit text = some (v, []) ↔
      ∃ digits, digits ≠ [] ∧ (∀ b ∈ digits, isDigit b = true) ∧
        ((text = digits ∧ v = digitsValue digits ∧ v < limit) ∨
          (text = 45 :: digits ∧ v = -(digitsValue digits : ℤ) ∧ -(limit : ℤ) ≤ v)) := by
  unfold fromCharsSigned
  split
  · rename_i rest
    simp only [Option.map_eq_some_iff, Prod.mk.injEq, Prod.exists]
    constructor
    · rintro ⟨n, r, h, rfl, rfl⟩
      obtain ⟨hne, hdigits, rfl, hlt⟩ := fromCharsUnsigned_eq_some_iff.mp h
      exact ⟨rest, hne, hdigits, .inr ⟨rfl, rfl, by omega⟩⟩
    · rintro ⟨digits, hne, hdigits, ⟨rfl, -, -⟩ | ⟨heq, rfl, hle⟩⟩
      · have hminus : isDigit 45 = true := hdigits 45 (by simp)
        contradiction
      · obtain rfl : rest = digits := (List.cons.inj heq).2
        exact ⟨_, [], fromCharsUnsigned_eq_some_iff.mpr ⟨hne, hdigits, rfl, by omega⟩, rfl, rfl⟩
  · rename_i hsign
    simp only [Option.map_eq_some_iff, Prod.mk.injEq, Prod.exists]
    constructor
    · rintro ⟨n, r, h, rfl, rfl⟩
      obtain ⟨hne, hdigits, rfl, hlt⟩ := fromCharsUnsigned_eq_some_iff.mp h
      exact ⟨text, hne, hdigits, .inl ⟨rfl, rfl, by omega⟩⟩
    · rintro ⟨digits, hne, hdigits, ⟨rfl, rfl, hlt⟩ | ⟨rfl, -, -⟩⟩
      · exact ⟨_, [], fromCharsUnsigned_eq_some_iff.mpr ⟨hne, hdigits, rfl, by omega⟩, rfl, rfl⟩
      · exact absurd rfl (hsign digits)

end ByteText
