import Whyrun.Model.Syscalls

/-!
The text of a Unix socket address. A name is shown byte by byte in a code
that can be read back, but the kinds of names share one text space: an
abstract name is shown as the path that begins with `@`, and an unnamed
socket as the path `<unnamed>`.
-/

namespace Whyrun

open ByteText

/-- What an `AF_UNIX` address denotes. -/
inductive UnixName
  | unnamed
  | path (name : Bytes)
  | abstract (name : Bytes)
  deriving DecidableEq

/-- The name in the bytes of `sun_path` that the address length covers: a
path ends at its first NUL, an abstract name has all its bytes. -/
def unixName (path : Bytes) : UnixName :=
  match path with
  | [] => .unnamed
  | 0 :: name => .abstract name
  | _ => .path (path.takeWhile (· ≠ 0))

/-! ### One byte -/

def shownByte (b : UInt8) : Bytes :=
  if isPrint b ∧ b ≠ 92 then [b] else lit "\\x" ++ hexPair b

theorem shownByte_eq (b : UInt8) :
    (isPrint b = true ∧ b ≠ 92 ∧ shownByte b = [b]) ∨
      shownByte b = 92 :: 120 :: hexPair b := by
  unfold shownByte
  split
  · rename_i h
    exact .inl ⟨h.1, h.2, rfl⟩
  · exact .inr rfl

theorem isPrint_of_mem_shownByte {b c : UInt8} (h : c ∈ shownByte b) : isPrint c = true := by
  rcases shownByte_eq b with ⟨hprint, -, heq⟩ | heq
  · rw [heq, List.mem_singleton] at h
    rwa [h]
  · rw [heq] at h
    simp only [List.mem_cons, hexPair, List.not_mem_nil, or_false] at h
    have hhigh : b.toNat / 16 < 16 := by have := b.toNat_lt; omega
    have hlow : b.toNat % 16 < 16 := Nat.mod_lt _ (by decide)
    rcases h with rfl | rfl | rfl | rfl
    · rfl
    · rfl
    · exact isPrint_hexByte hhigh
    · exact isPrint_hexByte hlow

/-- A shown byte can be told from what follows it. -/
theorem shownByte_delimited {a b : UInt8} {s t : Bytes}
    (h : shownByte a ++ s = shownByte b ++ t) : a = b ∧ s = t := by
  rcases shownByte_eq a with ⟨-, ha, hshownA⟩ | hshownA <;>
    rcases shownByte_eq b with ⟨-, hb, hshownB⟩ | hshownB <;>
    rw [hshownA, hshownB] at h
  · exact List.cons.inj h
  · exact absurd (List.cons.inj h).1 ha
  · exact absurd (List.cons.inj h).1.symm hb
  · simp only [List.cons_append, List.cons.injEq, true_and] at h
    obtain ⟨hpair, hrest⟩ := List.append_inj h rfl
    exact ⟨hexPair_injective hpair, hrest⟩

theorem flatMap_shownByte_injective :
    Function.Injective fun name : Bytes => name.flatMap shownByte :=
  flatMap_injective (fun b => by rcases shownByte_eq b with ⟨-, -, h⟩ | h <;> simp [h])
    fun _ _ _ _ => shownByte_delimited

/-! ### Names -/

/-- The path that has the text of a name. -/
def UnixName.asPath : UnixName → Bytes
  | unnamed => lit "<unnamed>"
  | path name => name
  | abstract name => lit "@" ++ name

theorem renderUnixName_eq (path : Bytes) :
    renderUnixName path = lit "unix:" ++ (unixName path).asPath.flatMap shownByte := by
  match path with
  | [] => decide
  | b :: rest =>
      by_cases hb : b = 0
      · subst hb
        rw [renderUnixName, if_neg (by simp)]
        simp only [unixName, UnixName.asPath, List.flatMap_append]
        rfl
      · have hname : unixName (b :: rest) = .path ((b :: rest).takeWhile (· ≠ 0)) := by
          unfold unixName
          split
          · contradiction
          · rename_i heq
            exact absurd (List.cons.inj heq).1 hb
          · rfl
        rw [renderUnixName, if_neg (by simp), hname]
        simp only [List.head?_cons, Option.some.injEq, if_neg hb, List.append_nil]
        rfl

/-- Names of two kinds that have one text. -/
inductive Confusable : UnixName → UnixName → Prop
  | unnamed : Confusable .unnamed (.path (lit "<unnamed>"))
  | abstract (name : Bytes) : Confusable (.abstract name) (.path (lit "@" ++ name))

theorem Confusable.irrefl {a : UnixName} : ¬ Confusable a a := by
  intro h
  cases a <;> cases h

theorem asPath_eq_iff (a b : UnixName) :
    a.asPath = b.asPath ↔ a = b ∨ Confusable a b ∨ Confusable b a := by
  constructor
  · intro h
    cases a <;> cases b <;> simp only [UnixName.asPath] at h
    · exact .inl rfl
    · exact .inr (.inl (h ▸ .unnamed))
    · exact absurd (List.cons.inj h).1 (by decide)
    · exact .inr (.inr (h ▸ .unnamed))
    · exact .inl (h ▸ rfl)
    · exact .inr (.inr (h ▸ .abstract _))
    · exact absurd (List.cons.inj h).1 (by decide)
    · exact .inr (.inl (h ▸ .abstract _))
    · exact .inl (List.append_cancel_left h ▸ rfl)
  · rintro (rfl | h | h)
    · rfl
    · cases h <;> rfl
    · cases h <;> rfl

theorem renderUnixName_eq_iff (a b : Bytes) :
    renderUnixName a = renderUnixName b ↔
      unixName a = unixName b ∨ Confusable (unixName a) (unixName b) ∨
        Confusable (unixName b) (unixName a) := by
  rw [renderUnixName_eq, renderUnixName_eq, List.append_cancel_left_eq, ← asPath_eq_iff]
  exact flatMap_shownByte_injective.eq_iff

/-- Two addresses that denote different names have different texts exactly
when they are not one of the two confusable kinds; every text is printable. -/
theorem socket_names_distinct_iff (a b : Bytes) :
    ((unixName a ≠ unixName b → renderUnixName a ≠ renderUnixName b) ↔
      ¬ Confusable (unixName a) (unixName b) ∧ ¬ Confusable (unixName b) (unixName a)) ∧
    ∀ c ∈ renderUnixName a, 0x20 ≤ c ∧ c ≤ 0x7e := by
  constructor
  · rw [Ne, Ne, renderUnixName_eq_iff]
    constructor
    · intro h
      refine ⟨fun hab => h ?_ (.inr (.inl hab)), fun hba => h ?_ (.inr (.inr hba))⟩
      · intro heq
        rw [heq] at hab
        exact Confusable.irrefl hab
      · intro heq
        rw [heq] at hba
        exact Confusable.irrefl hba
    · rintro ⟨hab, hba⟩ hne (heq | h | h)
      · exact hne heq
      · exact hab h
      · exact hba h
  · intro c hc
    rw [renderUnixName_eq, List.mem_append, List.mem_flatMap] at hc
    have hprint : isPrint c = true := by
      rcases hc with hc | ⟨b, -, hc⟩
      · have hall : (lit "unix:").all isPrint = true := by decide
        exact List.all_eq_true.mp hall c hc
      · exact isPrint_of_mem_shownByte hc
    simpa [isPrint] using hprint

/-- The abstract name `x` has the text of the path `@x`. -/
theorem abstract_name_shown_as_path :
    unixName [0, 120] ≠ unixName (lit "@x") ∧
      renderUnixName [0, 120] = renderUnixName (lit "@x") := by
  decide

end Whyrun
