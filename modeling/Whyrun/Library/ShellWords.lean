import Whyrun.Library.ByteText

/-!
Splitting a command line into words by the rules of the POSIX shell: blanks
separate words, single quotes keep everything up to the next one, a backslash
keeps one byte and a backslash before a newline is removed with it. The quotes
do not belong to the words. Text that asks for more than this is refused:
operators, expansions, patterns, comments, double quotes, an open quote.
-/

namespace ShellWords

open ByteText

inductive Mode
  | plain
  | quoted
  | escaped

def quote : UInt8 := 39

def backslash : UInt8 := 92

def newline : UInt8 := 10

def isBlank (b : UInt8) : Bool := b = 32 || b = 9

/-- What an unquoted word must not hold. -/
def special : Bytes := lit "|&;<>()$`\"*?[]#~=%!^\x7b\x7d\n"

/-- The words of a text, where `current` is the word begun so far. -/
def splitFrom : Mode → Option Bytes → Bytes → Option (List Bytes)
  | .plain, current, [] => some current.toList
  | .quoted, _, [] => none
  | .escaped, _, [] => none
  | .plain, current, b :: rest =>
      if isBlank b then (splitFrom .plain none rest).map (current.toList ++ ·)
      else if b = quote then splitFrom .quoted (some (current.getD [])) rest
      else if b = backslash then splitFrom .escaped current rest
      else if b ∈ special then none
      else splitFrom .plain (some (current.getD [] ++ [b])) rest
  | .quoted, current, b :: rest =>
      if b = quote then splitFrom .plain current rest
      else splitFrom .quoted (some (current.getD [] ++ [b])) rest
  | .escaped, current, b :: rest =>
      if b = newline then splitFrom .plain current rest
      else splitFrom .plain (some (current.getD [] ++ [b])) rest

def splitWords (text : Bytes) : Option (List Bytes) := splitFrom .plain none text

/-- A byte that stands for itself outside quotes. -/
def isOrdinary (b : UInt8) : Bool :=
  !isBlank b && b ≠ quote && b ≠ backslash && b ∉ special

/-! ### Pieces of words -/

/-- The text adds these bytes to the word, wherever it stands outside quotes. -/
def Adds (text added : Bytes) : Prop :=
  ∀ current rest, splitFrom .plain current (text ++ rest) =
    splitFrom .plain (some (current.getD [] ++ added)) rest

variable {text text' added added' word rest : Bytes} {b : UInt8}

theorem Adds.append (h : Adds text added) (h' : Adds text' added') :
    Adds (text ++ text') (added ++ added') := by
  intro current rest
  rw [List.append_assoc, h, h', Option.getD_some, List.append_assoc]

theorem adds_ordinary (h : isOrdinary b = true) : Adds [b] [b] := by
  intro current rest
  simp only [isOrdinary, Bool.and_eq_true, Bool.not_eq_true', decide_eq_true_eq] at h
  obtain ⟨⟨⟨hblank, hquote⟩, hbackslash⟩, hspecial⟩ := h
  rw [List.singleton_append, splitFrom, if_neg (by simp [hblank]), if_neg hquote,
    if_neg hbackslash, if_neg hspecial]

/-- A word of ordinary bytes is its own text. -/
theorem adds_self (hne : text ≠ []) (h : ∀ b ∈ text, isOrdinary b = true) : Adds text text := by
  induction text with
  | nil => exact absurd rfl hne
  | cons b text ih =>
      have hb := adds_ordinary (h b List.mem_cons_self)
      cases text with
      | nil => exact hb
      | cons c text =>
          exact hb.append (ih (List.cons_ne_nil c text) fun d hd => h d (List.mem_cons_of_mem b hd))

/-- Bytes other than the quote stand for themselves inside quotes. -/
theorem splitFrom_quoted_of_ne (h : b ≠ quote) :
    splitFrom .quoted (some word) (b :: rest) = splitFrom .quoted (some (word ++ [b])) rest := by
  rw [splitFrom, if_neg h, Option.getD_some]

/-- An embedded quote: close, escape, open again. -/
theorem splitFrom_quoted_quote :
    splitFrom .quoted (some word) ([quote, backslash, quote, quote] ++ rest) =
      splitFrom .quoted (some (word ++ [quote])) rest := by
  rfl

/-- What is read inside quotes as a word adds the word. -/
theorem adds_of_quoted
    (h : ∀ current rest, splitFrom .quoted (some current) (text ++ rest) =
      splitFrom .quoted (some (current ++ added)) rest) :
    Adds ([quote] ++ text ++ [quote]) added := by
  intro current rest
  calc splitFrom .plain current ([quote] ++ text ++ [quote] ++ rest)
      = splitFrom .quoted (some (current.getD [])) (text ++ ([quote] ++ rest)) := by
        simp [splitFrom, isBlank, quote]
    _ = splitFrom .quoted (some (current.getD [] ++ added)) ([quote] ++ rest) := h _ _
    _ = splitFrom .plain (some (current.getD [] ++ added)) rest := rfl

/-! ### Command lines -/

/-- Texts joined by single spaces are split into the words that they add. -/
theorem splitWords_intercalate {texts words : List Bytes} (h : List.Forall₂ Adds texts words) :
    splitWords ([32].intercalate texts) = some words := by
  induction h with
  | nil => rfl
  | @cons text word texts words hadds htail ih =>
      cases htail with
      | nil =>
          have hend := hadds none []
          rw [List.append_nil] at hend
          rw [List.intercalate_singleton, splitWords, hend]
          rfl
      | @cons text' word' texts words hadds' htail =>
          rw [List.intercalate_cons_cons, List.append_assoc, splitWords, hadds,
            List.singleton_append, splitFrom, if_pos (by decide), ← splitWords, ih]
          rfl

end ShellWords
