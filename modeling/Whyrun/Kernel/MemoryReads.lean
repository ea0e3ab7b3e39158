import Whyrun.Model.TraceeMemory

/-!
What the readers of tracee memory deliver. Where `process_vm_readv` delivers
too little, the code fetches whole words, and so needs readable bytes up to the
end of the last word it looks at, also behind the bytes it was asked for.
-/

namespace Whyrun.LinuxTraceeMemory

open ByteText Spans

variable {memory : LinuxTraceeMemory} {tid : Pid} {address : UInt64}
  {size offset limit maxLength : ℕ} {bytes output result text word : Bytes}

theorem wordSize_pos : 0 < wordSize := by decide

/-- The bytes that `process_vm_readv` delivers; none when it fails. -/
def delivered (memory : LinuxTraceeMemory) (tid : Pid) (address : UInt64) (size : ℕ) : Bytes :=
  (memory.processVmReadv tid address size).getD []

theorem span_delivered (memory : LinuxTraceeMemory) (tid : Pid) (address : UInt64) (size : ℕ) :
    span (memory.bytesFrom tid address) 0 (memory.delivered tid address size).length =
      some (memory.delivered tid address size) := by
  rw [delivered]
  cases h : memory.processVmReadv tid address size with
  | none => rfl
  | some bytes => exact (memory.copies_prefix h).2

theorem delivered_length_le (memory : LinuxTraceeMemory) (tid : Pid) (address : UInt64)
    (size : ℕ) : (memory.delivered tid address size).length ≤ size := by
  rw [delivered]
  cases h : memory.processVmReadv tid address size with
  | none => exact Nat.zero_le _
  | some bytes => exact (memory.copies_prefix h).1

theorem peekData_eq (memory : LinuxTraceeMemory) (tid : Pid) (address : UInt64) (offset : ℕ) :
    memory.peekData tid (address + UInt64.ofNat offset) =
      span (memory.bytesFrom tid address) offset wordSize := by
  have hshift := span_shift (memory.bytesFrom tid address) offset 0 wordSize
  rw [Nat.add_zero] at hshift
  rw [peekData, ← hshift]
  congr 1
  funext i
  rw [bytesFrom, bytesFrom, UInt64.ofNat_add, UInt64.add_assoc]

/-! ### Fixed sizes -/

/-- The loop delivers the bytes asked for exactly when the words that hold them
can be read whole. -/
theorem peekBytes_eq (memory : LinuxTraceeMemory) (tid : Pid) (address : UInt64)
    (size offset : ℕ) (output : Bytes) :
    memory.peekBytes tid address size offset output =
      (span (memory.bytesFrom tid address) offset (roundUp wordSize (size - offset))).map
        fun bytes => output ++ bytes.take (size - offset) := by
  rw [peekBytes]
  split
  · rename_i hlt
    rw [peekData_eq]
    by_cases hlast : size - offset ≤ wordSize
    · rw [roundUp_of_le (by omega) hlast]
      cases span (memory.bytesFrom tid address) offset wordSize with
      | none => rfl
      | some word =>
          rw [Option.map_some]
          show memory.peekBytes tid address size (offset + min wordSize (size - offset))
            (output ++ word.take (min wordSize (size - offset))) = _
          rw [peekBytes_eq, Nat.min_eq_right hlast, show size - (offset + (size - offset)) = 0 by
            omega, roundUp_zero wordSize_pos]
          simp
    · obtain ⟨rest, hrest⟩ : ∃ rest, rest = size - (offset + wordSize) := ⟨_, rfl⟩
      have hmore : size - offset = wordSize + rest := by omega
      rw [hmore, roundUp_add wordSize_pos, span_add]
      cases hword : span (memory.bytesFrom tid address) offset wordSize with
      | none => rfl
      | some word =>
          have hlength := length_of_span hword
          show memory.peekBytes tid address size (offset + min wordSize (wordSize + rest))
            (output ++ word.take (min wordSize (wordSize + rest))) = _
          rw [Nat.min_eq_left (Nat.le_add_right _ _), peekBytes_eq, ← hrest, ← hlength,
            List.take_length]
          simp [Function.comp_def, List.take_append, List.take_of_length_le]
  · rename_i hlt
    rw [show size - offset = 0 by omega, roundUp_zero wordSize_pos]
    simp
termination_by size - offset
decreasing_by all_goals simp only [wordSize] at *; omega

theorem peekBytes_start (memory : LinuxTraceeMemory) (tid : Pid) (address : UInt64)
    (size : ℕ) :
    memory.peekBytes tid address size 0 [] =
      (span (memory.bytesFrom tid address) 0 (roundUp wordSize size)).map (·.take size) := by
  rw [peekBytes_eq]
  simp

theorem readBytes_eq (haddress : address ≠ 0) (hsize : 0 < size) :
    memory.readBytes tid address size =
      if (memory.delivered tid address size).length = size then
        some (memory.delivered tid address size)
      else
        (span (memory.bytesFrom tid address) 0 (roundUp wordSize size)).map (·.take size) := by
  rw [readBytes, if_neg (by simp [haddress]; omega), delivered, ← peekBytes_start]
  cases memory.processVmReadv tid address size with
  | none => rw [Option.getD_none, List.length_nil, if_neg (by omega)]
  | some bytes => rfl

/-- What `read_bytes` delivers is what stands in memory. -/
theorem span_of_readBytes (h : memory.readBytes tid address size = some bytes) :
    span (memory.bytesFrom tid address) 0 size = some bytes := by
  by_cases hnull : address = 0 ∨ size = 0
  · rw [readBytes, if_pos hnull] at h
    cases h
  · obtain ⟨haddress, hsize⟩ := not_or.mp hnull
    rw [readBytes_eq haddress (by omega)] at h
    split at h
    · rename_i hlength
      rw [← h, ← span_delivered memory tid address size, hlength]
    · obtain ⟨whole, hwhole, rfl⟩ := Option.map_eq_some_iff.mp h
      exact span_take hwhole (le_roundUp wordSize_pos)

theorem readBytes_length (h : memory.readBytes tid address size = some bytes) :
    bytes.length = size :=
  length_of_span (span_of_readBytes h)

/-- The tracee memory that the collector hands to the execution state. -/
def toTraceeMemory (memory : LinuxTraceeMemory) : TraceeMemory where
  readString tid address := memory.readString tid address defaultMaxLength
  readBytes := memory.readBytes
  readBytes_length := readBytes_length

/-- The first `n` bytes at an address can be read. -/
def Readable (memory : LinuxTraceeMemory) (tid : Pid) (address : UInt64) (n : ℕ) : Prop :=
  ∀ i < n, (memory.bytesFrom tid address i).isSome

instance (n : ℕ) : Decidable (memory.Readable tid address n) :=
  inferInstanceAs (Decidable (∀ i < n, (memory.bytesFrom tid address i).isSome))

theorem readable_iff {n : ℕ} :
    memory.Readable tid address n ↔ (span (memory.bytesFrom tid address) 0 n).isSome := by
  rw [Readable, isSome_span_iff]
  simp only [Nat.zero_add]

/-- `read_bytes` is right about a stretch of memory exactly when the stretch
cannot be read, or `process_vm_readv` delivers it, or the words that hold it can
be read whole. -/
theorem readBytes_eq_span_iff (haddress : address ≠ 0) (hsize : 0 < size) :
    memory.readBytes tid address size = span (memory.bytesFrom tid address) 0 size ↔
      (memory.Readable tid address size →
        (memory.delivered tid address size).length = size ∨
          memory.Readable tid address (roundUp wordSize size)) := by
  rw [readable_iff, readable_iff]
  constructor
  · intro h hsome
    obtain ⟨bytes, hbytes⟩ := Option.isSome_iff_exists.mp hsome
    rw [hbytes, readBytes_eq haddress hsize] at h
    split at h
    · left
      assumption
    · right
      obtain ⟨whole, hspan, -⟩ := Option.map_eq_some_iff.mp h
      rw [hspan, Option.isSome_some]
  · intro h
    cases hread : memory.readBytes tid address size with
    | some bytes => exact (span_of_readBytes hread).symm
    | none =>
        cases hspan : span (memory.bytesFrom tid address) 0 size with
        | none => rfl
        | some bytes =>
            rw [hspan] at h
            rw [readBytes_eq haddress hsize] at hread
            obtain hlength | hsome := h rfl
            · rw [if_pos hlength] at hread
              cases hread
            · obtain ⟨whole, hwhole⟩ := Option.isSome_iff_exists.mp hsome
              rw [hwhole] at hread
              split at hread <;> cases hread

/-! ### Terminated strings -/

theorem takeBytes_append (hclean : 0 ∉ text) (hlimit : result.length + text.length ≤ maxLength)
    (rest : Bytes) :
    takeBytes maxLength result (text ++ rest) = takeBytes maxLength (result ++ text) rest := by
  induction text generalizing result with
  | nil => rw [List.nil_append, List.append_nil]
  | cons byte text ih =>
      obtain ⟨hbyte, htext⟩ := not_or.mp (fun h => hclean (List.mem_cons.mpr h))
      rw [List.length_cons] at hlimit
      have hgoes : ¬ (byte = 0 ∨ result.length = maxLength) := by
        rintro (rfl | hfull)
        · exact hbyte rfl
        · omega
      rw [List.cons_append, takeBytes, if_neg hgoes, ih htext (by simp; omega)]
      simp

/-- The bytes of a word up to the end of the text, then the return. -/
theorem takeBytes_end {byte : UInt8} {rest : Bytes} (hclean : 0 ∉ text)
    (hlimit : result.length + text.length ≤ maxLength)
    (hend : byte = 0 ∨ result.length + text.length = maxLength) :
    takeBytes maxLength result (text ++ byte :: rest) = (result ++ text, true) := by
  rw [takeBytes_append hclean hlimit, takeBytes, if_pos (by simpa using hend)]

theorem takeBytes_whole (hclean : 0 ∉ word) (hlimit : result.length + word.length ≤ maxLength) :
    takeBytes maxLength result word = (result ++ word, false) := by
  have h := takeBytes_append hclean hlimit []
  rwa [List.append_nil] at h

/-- The words that show where a text ends can be read whole. -/
def WordsReadable (source : ℕ → Option UInt8) (offset limit : ℕ) (text : Bytes) : Prop :=
  (span source offset (roundUp wordSize (seen limit text))).isSome

/-- A word that ends inside the text leaves the rest of the text to the words after it. -/
theorem wordsReadable_drop {source : ℕ → Option UInt8}
    (htext : TextAt 0 source offset limit text) (hlong : wordSize ≤ text.length) :
    WordsReadable source offset limit text ↔
      WordsReadable source (offset + wordSize) (limit - wordSize) (text.drop wordSize) := by
  obtain ⟨front, hfront⟩ : ∃ front, span source offset wordSize = some front :=
    ⟨_, span_take htext.elements hlong⟩
  rw [WordsReadable, WordsReadable, seen_drop hlong htext.length_le, roundUp_add wordSize_pos,
    span_add, hfront, Option.bind_some, Option.isSome_map]

/-- A text that ends in the first word needs that word only. -/
theorem wordsReadable_short {source : ℕ → Option UInt8} (hlimit : 0 < limit)
    (hshort : text.length < wordSize) :
    WordsReadable source offset limit text ↔ (span source offset wordSize).isSome := by
  rw [WordsReadable, roundUp_of_le]
  · rw [seen]
    omega
  · rw [seen]
    omega

/-- A word that cannot be read ends the loop. -/
theorem peekString_unreadable
    (hword : span (memory.bytesFrom tid address) offset wordSize = none) :
    memory.peekString tid address maxLength offset result = result := by
  rw [peekString]
  split
  · rw [peekData_eq, hword]
  · rfl

/-- A word inside the text is taken whole. -/
theorem peekString_long (hresult : result.length = offset)
    (htext : TextAt 0 (memory.bytesFrom tid address) offset (maxLength - offset) text)
    (hlong : wordSize ≤ text.length) :
    memory.peekString tid address maxLength offset result =
      memory.peekString tid address maxLength (offset + wordSize)
        (result ++ text.take wordSize) := by
  have hlimit := htext.length_le
  have hpos := wordSize_pos
  have hlength : (text.take wordSize).length = wordSize := by simpa using hlong
  have hclean : 0 ∉ text.take wordSize := fun hmem => htext.clean (List.mem_of_mem_take hmem)
  rw [peekString, if_pos (by omega), peekData_eq, span_take htext.elements hlong]
  simp only
  rw [takeBytes_whole hclean (by omega)]

/-- A word that shows the end of the text ends the loop with the text. -/
theorem peekString_short (hresult : result.length = offset) (hlt : offset < maxLength)
    (htext : TextAt 0 (memory.bytesFrom tid address) offset (maxLength - offset) text)
    (hshort : text.length < wordSize)
    (hword : span (memory.bytesFrom tid address) offset wordSize = some word) :
    memory.peekString tid address maxLength offset result = result ++ text := by
  have hlimit := htext.length_le
  have hlength := length_of_span hword
  obtain ⟨byte, rest, hsplit, hend⟩ : ∃ byte rest, word = text ++ byte :: rest ∧
      (byte = 0 ∨ result.length + text.length = maxLength) := by
    obtain hfull | ⟨hbelow, -⟩ := htext.ends
    · have hfront := htext.take_eq (span_take hword (m := text.length) (by omega)) le_rfl
      have hinside : text.length < word.length := by omega
      refine ⟨word[text.length], word.drop (text.length + 1), ?_, Or.inr (by omega)⟩
      rw [List.take_length] at hfront
      conv_lhs =>
        rw [← List.take_append_drop text.length word, List.drop_eq_getElem_cons hinside]
      rw [hfront]
    · obtain ⟨rest, hrest⟩ := htext.eq_append hword (by omega) hbelow
      exact ⟨0, rest, hrest, Or.inl rfl⟩
  rw [peekString, if_pos hlt, peekData_eq, hword, hsplit]
  simp only
  rw [takeBytes_end htext.clean (by omega) hend]

/-- The loop finds a text exactly when the words that show its end can be read
whole, or when the terminator begins a word: then the failed fetch of that word
ends the text at the right place. -/
theorem peekString_eq_iff {offset : ℕ} {result text : Bytes} (hresult : result.length = offset)
    (htext : TextAt 0 (memory.bytesFrom tid address) offset (maxLength - offset) text) :
    memory.peekString tid address maxLength offset result = result ++ text ↔
      WordsReadable (memory.bytesFrom tid address) offset (maxLength - offset) text ∨
        text.length < maxLength - offset ∧ wordSize ∣ text.length := by
  have hlimit := htext.length_le
  by_cases hlong : wordSize ≤ text.length
  · have hpos := wordSize_pos
    have hdrop := htext.drop hlong
    have hnext : maxLength - offset - wordSize = maxLength - (offset + wordSize) := by omega
    have htake : result ++ text = result ++ text.take wordSize ++ text.drop wordSize := by
      rw [List.append_assoc, List.take_append_drop]
    have hdvd : text.length < maxLength - offset ∧ wordSize ∣ text.length ↔
        (text.drop wordSize).length < maxLength - (offset + wordSize) ∧
          wordSize ∣ (text.drop wordSize).length := by
      rw [List.length_drop, ← hnext, Nat.dvd_sub_iff_left hlong (dvd_refl wordSize)]
      omega
    rw [hnext] at hdrop
    rw [peekString_long hresult htext hlong, wordsReadable_drop htext hlong, hnext, htake, hdvd]
    apply peekString_eq_iff _ hdrop
    rw [List.length_append, List.length_take]
    omega
  · obtain hend | hlt := Nat.eq_zero_or_pos (maxLength - offset)
    · have hnil : text = [] := List.length_eq_zero_iff.mp (by omega)
      have hseen : seen (maxLength - offset) text = 0 := by rw [seen, hend, Nat.min_zero]
      rw [peekString, if_neg (by omega), WordsReadable, hseen, roundUp_zero wordSize_pos, hnil]
      simp
    · rw [wordsReadable_short hlt (by omega)]
      cases hword : span (memory.bytesFrom tid address) offset wordSize with
      | none =>
          have hzero : wordSize ∣ text.length ↔ text = [] := by
            rw [← List.length_eq_zero_iff]
            exact ⟨fun hdvd => Nat.eq_zero_of_dvd_of_lt hdvd (by omega),
              fun h => h ▸ Nat.dvd_zero wordSize⟩
          rw [peekString_unreadable hword, hzero]
          constructor
          · intro h
            have hnil : text = [] := by simpa using h
            exact Or.inr ⟨by rw [hnil]; exact hlt, hnil⟩
          · rintro (hsome | ⟨-, rfl⟩)
            · cases hsome
            · rw [List.append_nil]
      | some word =>
          simp only [Option.isSome_some, true_or, iff_true]
          exact peekString_short hresult (by omega) htext (by omega) hword
termination_by maxLength - offset
decreasing_by
  simp only [wordSize] at hlong ⊢
  omega

theorem mem_delivered_or_length_eq_iff
    (htext : TextAt 0 (memory.bytesFrom tid address) 0 maxLength text) :
    0 ∈ memory.delivered tid address maxLength ∨
        (memory.delivered tid address maxLength).length = maxLength ↔
      seen maxLength text ≤ (memory.delivered tid address maxLength).length := by
  have hlimit := htext.length_le
  have hspan := span_delivered memory tid address maxLength
  have hle := delivered_length_le memory tid address maxLength
  rw [seen]
  constructor
  · rintro (hmem | hfull)
    · by_contra hshort
      rw [htext.take_eq hspan (by omega)] at hmem
      exact htext.clean (List.mem_of_mem_take hmem)
    · omega
  · intro hseen
    by_cases hfull : (memory.delivered tid address maxLength).length = maxLength
    · exact Or.inr hfull
    · left
      obtain ⟨rest, hrest⟩ := htext.eq_append hspan (by omega) (by omega)
      rw [hrest]
      simp

/-- Where `process_vm_readv` shows the end of the text, it gives the text. -/
theorem takeWhile_delivered (htext : TextAt 0 (memory.bytesFrom tid address) 0 maxLength text)
    (hseen : seen maxLength text ≤ (memory.delivered tid address maxLength).length) :
    (memory.delivered tid address maxLength).takeWhile (· ≠ 0) = text := by
  have hlimit := htext.length_le
  have hspan := span_delivered memory tid address maxLength
  have hle := delivered_length_le memory tid address maxLength
  have hclean : ∀ byte ∈ text, decide (byte ≠ 0) = true := by
    intro byte hmem
    rw [decide_eq_true_iff]
    rintro rfl
    exact htext.clean hmem
  rw [seen] at hseen
  obtain hfull | ⟨hbelow, -⟩ := htext.ends
  · have hall := htext.take_eq hspan (by omega)
    rw [List.take_of_length_le (by omega)] at hall
    rw [hall, List.takeWhile_eq_self_iff]
    exact hclean
  · obtain ⟨rest, hrest⟩ := htext.eq_append hspan (by omega) hbelow
    rw [hrest, List.takeWhile_append_of_pos hclean, List.takeWhile_cons_of_neg (by simp),
      List.append_nil]

/-- `read_string` finds a text exactly when `process_vm_readv` shows where it
ends, or the words that show it can be read whole, or its terminator begins a
word. -/
theorem readString_eq_iff (haddress : address ≠ 0) (hmax : 0 < maxLength)
    (htext : TextAt 0 (memory.bytesFrom tid address) 0 maxLength text) :
    memory.readString tid address maxLength = text ↔
      seen maxLength text ≤ (memory.delivered tid address maxLength).length ∨
        memory.Readable tid address (roundUp wordSize (seen maxLength text)) ∨
          text.length < maxLength ∧ wordSize ∣ text.length := by
  have hpeek : memory.peekString tid address maxLength 0 [] = text ↔
      WordsReadable (memory.bytesFrom tid address) 0 maxLength text ∨
        text.length < maxLength ∧ wordSize ∣ text.length :=
    peekString_eq_iff List.length_nil htext
  rw [readString, if_neg (by simp [haddress]; omega), ← delivered, readable_iff,
    ← WordsReadable, ← hpeek]
  by_cases hseen : seen maxLength text ≤ (memory.delivered tid address maxLength).length
  · have hpos : 0 < (memory.delivered tid address maxLength).length := by
      rw [seen] at hseen
      omega
    rw [if_pos ⟨hpos, (mem_delivered_or_length_eq_iff htext).mpr hseen⟩]
    simp only [takeWhile_delivered htext hseen, hseen, true_or]
  · rw [if_neg fun h => hseen ((mem_delivered_or_length_eq_iff htext).mp h.2)]
    simp only [hseen, false_or]

/-! ### Both readers -/

/-- For every memory, address and length: which texts and which stretches of
memory the two readers give as they stand there. -/
theorem reads_what_stands_iff (memory : LinuxTraceeMemory) (tid : Pid) {address : UInt64}
    (haddress : address ≠ 0) :
    (∀ maxLength, 0 < maxLength → ∀ text,
      TextAt 0 (memory.bytesFrom tid address) 0 maxLength text →
        (memory.readString tid address maxLength = text ↔
          seen maxLength text ≤ (memory.delivered tid address maxLength).length ∨
            memory.Readable tid address (roundUp wordSize (seen maxLength text)) ∨
              text.length < maxLength ∧ wordSize ∣ text.length)) ∧
    ∀ size, 0 < size →
      (memory.readBytes tid address size = span (memory.bytesFrom tid address) 0 size ↔
        (memory.Readable tid address size →
          (memory.delivered tid address size).length = size ∨
            memory.Readable tid address (roundUp wordSize size))) :=
  ⟨fun _ hmax _ htext => readString_eq_iff haddress hmax htext,
    fun _ hsize => readBytes_eq_span_iff haddress hsize⟩

/-- One page with the string `a` in its last two bytes, where
`process_vm_readv` is not available. -/
def samplePage : LinuxTraceeMemory where
  content _ address :=
    if 0x1000 ≤ address ∧ address < 0x2000 then some (if address = 0x1ffe then 97 else 0)
    else none
  processVmReadv _ _ _ := none
  copies_prefix h := by contradiction

theorem textAt_samplePage :
    TextAt 0 (samplePage.bytesFrom 7 0x1ffe) 0 defaultMaxLength (lit "a") where
  elements := by decide
  clean := by decide
  ends := Or.inr (by decide)

/-- The last word of the page can be read; what begins inside it cannot. -/
theorem reads_what_stands_at_samplePage :
    ¬ samplePage.readString 7 0x1ffe defaultMaxLength = lit "a" ∧
      samplePage.readBytes 7 0x1ff8 8 = span (samplePage.bytesFrom 7 0x1ff8) 0 8 := by
  constructor
  · rw [(reads_what_stands_iff samplePage 7 (show (0x1ffe : UInt64) ≠ 0 by decide)).1
      defaultMaxLength (by decide) _ textAt_samplePage]
    decide
  · rw [(reads_what_stands_iff samplePage 7 (show (0x1ff8 : UInt64) ≠ 0 by decide)).2 8
      (by decide)]
    decide

/-- The text and the two bytes stand in memory, and neither reader finds them. -/
theorem samplePage_not_read :
    TextAt 0 (samplePage.bytesFrom 7 0x1ffe) 0 defaultMaxLength (lit "a") ∧
      samplePage.readString 7 0x1ffe defaultMaxLength = [] ∧
      span (samplePage.bytesFrom 7 0x1ffe) 0 2 = some [97, 0] ∧
      samplePage.readBytes 7 0x1ffe 2 = none := by
  have hword : span (samplePage.bytesFrom 7 0x1ffe) 0 wordSize = none := by decide
  refine ⟨textAt_samplePage, ?_, by decide, ?_⟩
  · show samplePage.peekString 7 0x1ffe defaultMaxLength 0 [] = []
    exact peekString_unreadable hword
  · rw [readBytes_eq (by decide) (by decide), if_neg (by decide),
      roundUp_of_le (by decide) (by decide), hword, Option.map_none]

end Whyrun.LinuxTraceeMemory
