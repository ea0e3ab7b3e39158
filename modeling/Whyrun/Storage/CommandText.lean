import Whyrun.Library.ShellWords
import Whyrun.Model.SqliteStore

/-!
The command line in the `run` table. A shell splits it into the arguments that
were executed.
-/

namespace Whyrun

open ByteText ShellWords

/-- The bytes that `shell_quote` leaves unquoted have no meaning to a shell. -/
theorem isOrdinary_of_plain {b : UInt8}
    (h : (isAlnum b || b = 47 || b = 95 || b = 45 || b = 46 || b = 58) = true) :
    isOrdinary b = true := by
  have hall : ∀ n < 256, (isAlnum (UInt8.ofNat n) || UInt8.ofNat n = 47 || UInt8.ofNat n = 95 ||
      UInt8.ofNat n = 45 || UInt8.ofNat n = 46 || UInt8.ofNat n = 58) = true →
        isOrdinary (UInt8.ofNat n) = true := by
    decide +kernel
  have hb := hall b.toNat b.toNat_lt
  rw [UInt8.ofNat_toNat] at hb
  exact hb h

/-- Inside the quotes that `shell_quote` writes, the argument is read as it is. -/
theorem splitFrom_quoted_argument (argument word rest : Bytes) :
    splitFrom .quoted (some word)
        ((argument.flatMap fun b => if b = 39 then lit "'\\''" else [b]) ++ rest) =
      splitFrom .quoted (some (word ++ argument)) rest := by
  induction argument generalizing word with
  | nil => rw [List.flatMap_nil, List.nil_append, List.append_nil]
  | cons b argument ih =>
      rw [List.flatMap_cons, List.append_assoc]
      by_cases hquote : b = 39
      · subst hquote
        show splitFrom .quoted (some word) ([quote, backslash, quote, quote] ++ _) = _
        rw [splitFrom_quoted_quote, ih, List.append_assoc]
        rfl
      · rw [if_neg hquote, List.singleton_append, splitFrom_quoted_of_ne hquote, ih,
          List.append_assoc, List.singleton_append]

theorem adds_shellQuote (argument : Bytes) : Adds (shellQuote argument) argument := by
  rw [shellQuote]
  split
  · rename_i hplain
    apply adds_self hplain.1
    intro b hb
    exact isOrdinary_of_plain (List.all_eq_true.mp hplain.2 b hb)
  · exact adds_of_quoted fun word rest => splitFrom_quoted_argument argument word rest

theorem splitWords_formatCommand (command : List Bytes) :
    splitWords (formatCommand command) = some command := by
  apply splitWords_intercalate
  induction command with
  | nil => exact .nil
  | cons argument command ih => exact .cons (adds_shellQuote argument) ih

/-- The recorded text of a command is split into its arguments, so no two
commands have the same text. -/
theorem formatCommand_faithful :
    (∀ command, splitWords (formatCommand command) = some command) ∧
      (∀ run, splitWords (CapsuleWriter.create run).run.command = some run.command) ∧
      Function.Injective formatCommand := by
  refine ⟨splitWords_formatCommand, fun run => splitWords_formatCommand run.command, ?_⟩
  intro command command' h
  have hwords := congrArg splitWords h
  rw [splitWords_formatCommand, splitWords_formatCommand] at hwords
  exact Option.some.inj hwords

example : formatCommand [lit "echo", [], lit "it's", lit "*"] = lit "echo '' 'it'\\''s' '*'" := by
  decide

end Whyrun
