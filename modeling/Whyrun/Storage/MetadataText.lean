import Mathlib.Data.List.Sort
import Whyrun.Library.JsonObject
import Whyrun.Model.SqliteStore

/-!
The metadata column of the `events` table. Its text is a JSON object that is
read back as the map it was written from, the keys in increasing order.
-/

namespace Whyrun

open ByteText JsonObject

/-! ### The order of the entries -/

/-- `operator<` of `std::pair<std::string, std::string>`, or equality. -/
abbrev entryLE (a b : Bytes × Bytes) : Prop := a.1 < b.1 ∨ (a.1 = b.1 ∧ a.2 ≤ b.2)

instance : Std.Total entryLE where
  total a b := by
    obtain hlt | heq | hgt := Std.lt_trichotomy a.1 b.1
    · exact Or.inl (Or.inl hlt)
    · obtain hle | hge := List.le_total a.2 b.2
      · exact Or.inl (Or.inr ⟨heq, hle⟩)
      · exact Or.inr (Or.inr ⟨heq.symm, hge⟩)
    · exact Or.inr (Or.inl hgt)

instance : IsTrans (Bytes × Bytes) entryLE where
  trans a b c := by
    rintro (hab | ⟨hab, hab'⟩) (hbc | ⟨hbc, hbc'⟩)
    · exact Or.inl (List.lt_trans hab hbc)
    · exact Or.inl (hbc ▸ hab)
    · exact Or.inl (hab ▸ hbc)
    · exact Or.inr ⟨hab.trans hbc, List.le_trans hab' hbc'⟩

instance : Std.Antisymm entryLE where
  antisymm a b := by
    rintro (hab | ⟨hab, hab'⟩) (hba | ⟨hba, hba'⟩)
    · exact absurd (List.lt_trans hab hba) (List.lt_irrefl a.1)
    · rw [hba] at hab
      exact absurd hab (List.lt_irrefl a.1)
    · rw [hab] at hba
      exact absurd hba (List.lt_irrefl b.1)
    · exact Prod.ext hab (List.le_antisymm hab' hba')

def sortedEntries (metadata : List (Bytes × Bytes)) : List (Bytes × Bytes) :=
  metadata.insertionSort entryLE

theorem sortedEntries_perm (metadata : List (Bytes × Bytes)) :
    (sortedEntries metadata).Perm metadata :=
  List.perm_insertionSort entryLE metadata

/-- With distinct keys the entries stand in strictly increasing order of the keys. -/
theorem pairwise_keys_sortedEntries {metadata : List (Bytes × Bytes)}
    (hkeys : (metadata.map Prod.fst).Nodup) :
    ((sortedEntries metadata).map Prod.fst).Pairwise (· < ·) := by
  have hnodup : ((sortedEntries metadata).map Prod.fst).Nodup :=
    ((sortedEntries_perm metadata).map Prod.fst).nodup_iff.mpr hkeys
  have hsorted : (sortedEntries metadata).Pairwise entryLE := List.pairwise_insertionSort _ _
  rw [List.pairwise_map]
  apply (hsorted.and (List.pairwise_map.mp hnodup)).imp
  rintro a b ⟨hlt | ⟨heq, -⟩, hne⟩
  · exact hlt
  · exact absurd heq hne

/-- Sorting forgets the order in which the map was iterated. -/
theorem sortedEntries_congr {metadata metadata' : List (Bytes × Bytes)}
    (h : metadata.Perm metadata') : sortedEntries metadata = sortedEntries metadata' := by
  have hperm := ((sortedEntries_perm metadata).trans h).trans (sortedEntries_perm metadata').symm
  exact hperm.eq_of_pairwise' (List.pairwise_insertionSort _ _) (List.pairwise_insertionSort _ _)

/-! ### The text -/

theorem hexValue_hexByte {d : ℕ} (hd : d < 16) : hexValue (hexByte d) = some d := by
  have hall : ∀ d < 16, hexValue (hexByte d) = some d := by decide
  exact hall d hd

/-- The escape of a control character without a letter of its own. -/
theorem spells_control {character : UInt8} (h : character < 0x20) :
    Spells (lit "\\u00" ++ hexPair character) [character] := by
  have hlt : character.toNat < 32 := UInt8.lt_iff_toNat_lt.mp h
  have hunit : ∀ rest, hexUnit ([48, 48] ++ hexPair character ++ rest) =
      some (character.toNat, rest) := by
    intro rest
    show (do
      let a ← hexValue (hexByte 0)
      let b ← hexValue (hexByte 0)
      let c ← hexValue (hexByte (character.toNat / 16))
      let d ← hexValue (hexByte (character.toNat % 16))
      some (4096 * a + 256 * b + 16 * c + d, rest)) = _
    rw [hexValue_hexByte (by decide), hexValue_hexByte (by omega),
      hexValue_hexByte (Nat.mod_lt _ (by decide))]
    show some (4096 * 0 + 256 * 0 + 16 * (character.toNat / 16) + character.toNat % 16, rest) = _
    rw [show 4096 * 0 + 256 * 0 + 16 * (character.toNat / 16) + character.toNat % 16 =
      character.toNat by omega]
  have hencode : String.utf8EncodeChar (Char.ofNat character.toNat) = [character] := by
    have hall : ∀ n < 32, String.utf8EncodeChar (Char.ofNat n) = [UInt8.ofNat n] := by decide
    rw [hall _ hlt, UInt8.ofNat_toNat]
  rw [← hencode]
  exact spells_unicode (by omega) hunit

theorem spells_jsonEscapeByte (character : UInt8) :
    Spells (jsonEscapeByte character) [character] := by
  rw [jsonEscapeByte]
  split
  · rename_i h
    exact h ▸ spells_simpleEscape rfl
  rename_i hquote
  split
  · rename_i h
    exact h ▸ spells_simpleEscape rfl
  rename_i hbackslash
  split
  · rename_i h
    exact h ▸ spells_simpleEscape rfl
  split
  · rename_i h
    exact h ▸ spells_simpleEscape rfl
  split
  · rename_i h
    exact h ▸ spells_simpleEscape rfl
  split
  · rename_i h
    exact h ▸ spells_simpleEscape rfl
  split
  · rename_i h
    exact h ▸ spells_simpleEscape rfl
  split
  · rename_i h
    exact spells_control h
  · rename_i h
    exact spells_self h hquote hbackslash

theorem spells_jsonEscape (input : Bytes) : Spells (jsonEscape input) input := by
  induction input with
  | nil => exact spells_nil
  | cons character input ih => exact (spells_jsonEscapeByte character).append ih

theorem isMember_jsonEntry (entry : Bytes × Bytes) : IsMember (jsonEntry entry) entry := by
  refine ⟨jsonEscape entry.1, jsonEscape entry.2, ?_, spells_jsonEscape _, spells_jsonEscape _⟩
  rw [memberText, jsonEntry]
  simp [lit]

/-- The text is read as the sorted entries. -/
theorem parseObject_metadataJson (metadata : List (Bytes × Bytes)) :
    parseObject (metadataJson metadata) = some (sortedEntries metadata) := by
  apply parseObject_intercalate
  show List.Forall₂ IsMember ((sortedEntries metadata).map jsonEntry) (sortedEntries metadata)
  induction sortedEntries metadata with
  | nil => exact .nil
  | cons entry entries ih => exact .cons (isMember_jsonEntry entry) ih

/-- The text of a map is read as that map with its keys in increasing order, and
every order of its entries gives the same text. -/
theorem metadataJson_faithful {metadata : List (Bytes × Bytes)}
    (hkeys : (metadata.map Prod.fst).Nodup) :
    (∃ entries, parseObject (metadataJson metadata) = some entries ∧ entries.Perm metadata ∧
      (entries.map Prod.fst).Pairwise (· < ·)) ∧
    ∀ metadata', metadata'.Perm metadata → metadataJson metadata' = metadataJson metadata := by
  constructor
  · exact ⟨sortedEntries metadata, parseObject_metadataJson metadata, sortedEntries_perm metadata,
      pairwise_keys_sortedEntries hkeys⟩
  · intro metadata' hperm
    show [123] ++ [44].intercalate ((sortedEntries metadata').map jsonEntry) ++ [125] = _
    rw [sortedEntries_congr hperm]
    rfl

def sampleMetadata : List (Bytes × Bytes) :=
  [(lit "path", lit "a\"b"), (lit "fd", [7, 10, 255])]

theorem metadataJson_faithful_sampleMetadata :
    (∃ entries, parseObject (metadataJson sampleMetadata) = some entries ∧
      entries.Perm sampleMetadata ∧ (entries.map Prod.fst).Pairwise (· < ·)) ∧
    ∀ metadata', metadata'.Perm sampleMetadata →
      metadataJson metadata' = metadataJson sampleMetadata :=
  metadataJson_faithful (by decide)

end Whyrun
