import Whyrun.Library.ByteText

/-!
JSON objects whose values are strings, read from bytes: a parser for that part
of RFC 8259, and the rules by which pieces of text are put together to an
object that it accepts. Bytes from 0x20 on stand for themselves in a string; an
escaped code point stands for its bytes in UTF-8.
-/

namespace JsonObject

open ByteText

/-! ### Strings -/

/-- The byte that a letter after the backslash stands for. -/
def simpleEscape (letter : UInt8) : Option UInt8 :=
  if letter = 34 ∨ letter = 92 ∨ letter = 47 then some letter
  else if letter = 98 then some 8
  else if letter = 102 then some 12
  else if letter = 110 then some 10
  else if letter = 114 then some 13
  else if letter = 116 then some 9
  else none

def hexValue (b : UInt8) : Option ℕ :=
  if 48 ≤ b ∧ b ≤ 57 then some (b.toNat - 48)
  else if 97 ≤ b ∧ b ≤ 102 then some (b.toNat - 87)
  else if 65 ≤ b ∧ b ≤ 70 then some (b.toNat - 55)
  else none

/-- Four hexadecimal digits. -/
def hexUnit : Bytes → Option (ℕ × Bytes)
  | a :: b :: c :: d :: rest => do
      let a ← hexValue a
      let b ← hexValue b
      let c ← hexValue c
      let d ← hexValue d
      some (4096 * a + 256 * b + 16 * c + d, rest)
  | _ => none

/-- The second half of a surrogate pair, in an escape of its own. -/
def lowSurrogate : Bytes → Option (ℕ × Bytes)
  | b :: letter :: rest =>
      if b = 92 ∧ letter = 117 then
        (hexUnit rest).filter fun low => 0xdc00 ≤ low.1 ∧ low.1 < 0xe000
      else none
  | _ => none

/-- A code point after `\u`; one above the basic plane is written as a pair. -/
def codePoint (text : Bytes) : Option (ℕ × Bytes) :=
  match hexUnit text with
  | none => none
  | some (unit, rest) =>
      if unit < 0xd800 ∨ 0xe000 ≤ unit then some (unit, rest)
      else if 0xdc00 ≤ unit then none
      else (lowSurrogate rest).map fun low =>
        (0x10000 + 1024 * (unit - 0xd800) + (low.1 - 0xdc00), low.2)

/-- What follows a backslash: its bytes and the text after it. -/
def escape : Bytes → Option (Bytes × Bytes)
  | [] => none
  | letter :: rest =>
      if letter = 117 then
        (codePoint rest).map fun point => (String.utf8EncodeChar (Char.ofNat point.1), point.2)
      else (simpleEscape letter).map fun escaped => ([escaped], rest)

/-- One character of a string: its bytes and the text after it. -/
def character : Bytes → Option (Bytes × Bytes)
  | [] => none
  | b :: rest =>
      if b = 92 then escape rest
      else if b < 0x20 ∨ b = 34 then none
      else some ([b], rest)

theorem length_hexUnit {text rest : Bytes} {unit : ℕ} (h : hexUnit text = some (unit, rest)) :
    rest.length < text.length := by
  match text with
  | a :: b :: c :: d :: tail =>
      simp only [hexUnit, Option.bind_eq_bind, Option.bind_eq_some_iff, Option.some.injEq,
        Prod.mk.injEq] at h
      obtain ⟨_, -, _, -, _, -, _, -, -, rfl⟩ := h
      simp only [List.length_cons]
      omega
  | [] | [_] | [_, _] | [_, _, _] => cases h

theorem length_lowSurrogate {text rest : Bytes} {low : ℕ}
    (h : lowSurrogate text = some (low, rest)) : rest.length < text.length := by
  match text with
  | b :: letter :: tail =>
      rw [lowSurrogate] at h
      split at h
      · have hlength := length_hexUnit (Option.filter_eq_some_iff.mp h).1
        simp only [List.length_cons]
        omega
      · cases h
  | [] | [_] => cases h

theorem length_codePoint {text rest : Bytes} {point : ℕ}
    (h : codePoint text = some (point, rest)) : rest.length < text.length := by
  rw [codePoint] at h
  split at h
  · cases h
  · rename_i unit tail hunit
    have hlength := length_hexUnit hunit
    split at h
    · cases h
      exact hlength
    · split at h
      · cases h
      · obtain ⟨⟨low, after⟩, hlow, heq⟩ := Option.map_eq_some_iff.mp h
        obtain ⟨-, rfl⟩ := Prod.mk.inj heq
        exact (length_lowSurrogate hlow).trans hlength

theorem length_escape {text bytes rest : Bytes} (h : escape text = some (bytes, rest)) :
    rest.length < text.length := by
  match text with
  | [] => cases h
  | letter :: tail =>
      rw [escape] at h
      split at h
      · obtain ⟨⟨point, after⟩, hpoint, heq⟩ := Option.map_eq_some_iff.mp h
        obtain ⟨-, rfl⟩ := Prod.mk.inj heq
        exact (length_codePoint hpoint).trans (Nat.lt_succ_self _)
      · obtain ⟨escaped, -, heq⟩ := Option.map_eq_some_iff.mp h
        obtain ⟨-, rfl⟩ := Prod.mk.inj heq
        exact Nat.lt_succ_self _

theorem length_character {text bytes rest : Bytes} (h : character text = some (bytes, rest)) :
    rest.length < text.length := by
  match text with
  | [] => cases h
  | b :: tail =>
      rw [character] at h
      split at h
      · exact (length_escape h).trans (Nat.lt_succ_self _)
      · split at h
        · cases h
        · obtain ⟨-, rfl⟩ := Prod.mk.inj (Option.some.inj h)
          exact Nat.lt_succ_self _

/-- The string up to its closing quote, and the text after that. -/
def stringBody (text : Bytes) : Option (Bytes × Bytes) :=
  if text.head? = some 34 then some ([], text.tail)
  else
    match _h : character text with
    | none => none
    | some (bytes, rest) =>
        (stringBody rest).map fun result => (bytes ++ result.1, result.2)
termination_by text.length
decreasing_by exact length_character _h

/-! ### Objects -/

def isSpace (b : UInt8) : Bool := b = 32 || b = 9 || b = 10 || b = 13

def skipSpace (text : Bytes) : Bytes := text.dropWhile isSpace

/-- The text after a structural byte and the space on both sides of it. -/
def structural (b : UInt8) (text : Bytes) : Option Bytes :=
  match skipSpace text with
  | [] => none
  | c :: rest => if c = b then some (skipSpace rest) else none

def stringValue : Bytes → Option (Bytes × Bytes)
  | [] => none
  | b :: rest => if b = 34 then stringBody rest else none

/-- A key, a colon and a value. -/
def member (text : Bytes) : Option ((Bytes × Bytes) × Bytes) :=
  (stringValue text).bind fun key =>
    (structural 58 key.2).bind fun rest =>
      (stringValue rest).map fun value => ((key.1, value.1), value.2)

theorem length_structural {b : UInt8} {text rest : Bytes} (h : structural b text = some rest) :
    rest.length < text.length := by
  rw [structural] at h
  have hskip : (skipSpace text).length ≤ text.length := List.length_dropWhile_le _ _
  split at h
  · cases h
  · rename_i c tail htext
    split at h
    · obtain rfl := Option.some.inj h
      have htail : (skipSpace tail).length ≤ tail.length := List.length_dropWhile_le _ _
      rw [htext, List.length_cons] at hskip
      omega
    · cases h

theorem length_stringBody {text rest bytes : Bytes} (h : stringBody text = some (bytes, rest)) :
    rest.length ≤ text.length := by
  fun_induction stringBody text generalizing bytes with
  | case1 text hquote =>
      obtain ⟨-, rfl⟩ := Prod.mk.inj (Option.some.inj h)
      simp
  | case2 text hquote hnone => cases h
  | case3 text hquote first after hfirst ih =>
      obtain ⟨⟨front, tail⟩, htail, heq⟩ := Option.map_eq_some_iff.mp h
      obtain ⟨-, rfl⟩ := Prod.mk.inj heq
      have hlength := length_character hfirst
      have htail := ih htail
      omega

theorem length_stringValue {text rest bytes : Bytes} (h : stringValue text = some (bytes, rest)) :
    rest.length < text.length := by
  match text with
  | [] => cases h
  | b :: tail =>
      rw [stringValue] at h
      split at h
      · exact Nat.lt_succ_of_le (length_stringBody h)
      · cases h

theorem length_member {text rest : Bytes} {entry : Bytes × Bytes}
    (h : member text = some (entry, rest)) : rest.length < text.length := by
  simp only [member, Option.bind_eq_some_iff, Option.map_eq_some_iff] at h
  obtain ⟨key, hkey, afterColon, hcolon, value, hvalue, heq⟩ := h
  obtain ⟨-, rfl⟩ := Prod.mk.inj heq
  have h₁ := length_stringValue hkey
  have h₂ := length_structural hcolon
  have h₃ := length_stringValue hvalue
  omega

/-- One or more members. -/
def members (text : Bytes) : Option (List (Bytes × Bytes) × Bytes) :=
  match _hmember : member text with
  | none => none
  | some (entry, rest) =>
      match _hcomma : structural 44 rest with
      | none => some ([entry], rest)
      | some next => (members next).map fun result => (entry :: result.1, result.2)
termination_by text.length
decreasing_by exact (length_structural _hcomma).trans (length_member _hmember)

/-- The entries of an object in the order of the text. -/
def parseObject (text : Bytes) : Option (List (Bytes × Bytes)) :=
  (structural 123 text).bind fun body =>
    (if body.head? = some 125 then some ([], body) else members body).bind fun result =>
      (structural 125 result.2).bind fun rest => if rest = [] then some result.1 else none

/-! ### Writing texts that the parser accepts -/

/-- The text stands for these bytes, wherever it stands in a string. -/
def Spells (text bytes : Bytes) : Prop :=
  ∀ rest, stringBody (text ++ rest) =
    (stringBody rest).map fun result => (bytes ++ result.1, result.2)

variable {text text' bytes bytes' rest key value : Bytes} {b c : UInt8}

theorem spells_nil : Spells [] [] := by
  intro rest
  cases h : stringBody rest with
  | none => rw [List.nil_append, h, Option.map_none]
  | some result => rw [List.nil_append, h, Option.map_some, List.nil_append]

theorem Spells.append (h : Spells text bytes) (h' : Spells text' bytes') :
    Spells (text ++ text') (bytes ++ bytes') := by
  intro rest
  rw [List.append_assoc, h, h', Option.map_map]
  congr 1
  funext result
  rw [Function.comp_apply, List.append_assoc]

/-- What is read as one character stands for the bytes of that character. -/
theorem spells_of_character (hne : text ≠ []) (hquote : text.head? ≠ some 34)
    (h : ∀ rest, character (text ++ rest) = some (bytes, rest)) : Spells text bytes := by
  intro rest
  have hhead : (text ++ rest).head? ≠ some 34 := by
    rw [List.head?_append_of_ne_nil text hne]
    exact hquote
  rw [stringBody, if_neg hhead]
  split
  · rename_i hnone
    rw [h] at hnone
    cases hnone
  · rename_i first after hsome
    rw [h] at hsome
    obtain ⟨rfl, rfl⟩ := Prod.mk.inj (Option.some.inj hsome)
    rfl

/-- A byte that stands for itself. -/
theorem spells_self (hlow : ¬ b < 0x20) (hquote : b ≠ 34) (hbackslash : b ≠ 92) :
    Spells [b] [b] := by
  apply spells_of_character (List.cons_ne_nil b [])
  · simpa using hquote
  · intro rest
    rw [List.singleton_append, character, if_neg hbackslash, if_neg (by simp [hlow, hquote])]

/-- A letter after a backslash. -/
theorem spells_simpleEscape (h : simpleEscape b = some c) : Spells [92, b] [c] := by
  have hletter : b ≠ 117 := by
    rintro rfl
    cases h
  apply spells_of_character (List.cons_ne_nil 92 [b])
  · rw [List.head?_cons]
    decide
  · intro rest
    show escape (b :: rest) = some ([c], rest)
    rw [escape, if_neg hletter, h, Option.map_some]

/-- An escape of one unit of the basic plane. -/
theorem spells_unicode {digits : Bytes} {unit : ℕ} (hunit : unit < 0xd800)
    (h : ∀ rest, hexUnit (digits ++ rest) = some (unit, rest)) :
    Spells ([92, 117] ++ digits) (String.utf8EncodeChar (Char.ofNat unit)) := by
  apply spells_of_character (List.cons_ne_nil 92 _)
  · show some 92 ≠ some 34
    decide
  · intro rest
    show escape (117 :: (digits ++ rest)) = _
    rw [escape, if_pos rfl, codePoint, h]
    simp only
    rw [if_pos (Or.inl hunit), Option.map_some]

theorem stringValue_quoted (h : Spells text bytes) (rest : Bytes) :
    stringValue ([34] ++ text ++ [34] ++ rest) = some (bytes, rest) := by
  have hend : stringBody ([34] ++ rest) = some ([], rest) := by
    rw [stringBody]
    rfl
  have hbody := h ([34] ++ rest)
  rw [hend, Option.map_some, List.append_nil] at hbody
  show stringBody (text ++ [34] ++ rest) = _
  rw [List.append_assoc, hbody]

/-- The text of a member, without space. -/
def memberText (key value : Bytes) : Bytes :=
  ([34] ++ key ++ [34]) ++ [58] ++ ([34] ++ value ++ [34])

theorem structural_cons (hb : isSpace b = false) (h : ∀ c ∈ rest.head?, isSpace c = false) :
    structural b (b :: rest) = some rest := by
  have hskip : ∀ text : Bytes, (∀ c ∈ text.head?, isSpace c = false) → skipSpace text = text := by
    intro text htext
    cases text with
    | nil => rfl
    | cons c text => exact List.dropWhile_cons_of_neg (by simp [htext c rfl])
  rw [structural, hskip (b :: rest) (by simpa using hb)]
  simp only [if_true]
  rw [hskip rest h]

theorem member_memberText {entry : Bytes × Bytes} (hkey : Spells key entry.1)
    (hvalue : Spells value entry.2) (rest : Bytes) :
    member (memberText key value ++ rest) = some (entry, rest) := by
  have hsplit : memberText key value ++ rest =
      [34] ++ key ++ [34] ++ (58 :: ([34] ++ value ++ [34] ++ rest)) := by
    simp [memberText]
  rw [hsplit, member, stringValue_quoted hkey, Option.bind_some,
    structural_cons (by decide) (by simp [isSpace]), Option.bind_some,
    stringValue_quoted hvalue, Option.map_some]

/-- What an object's text consists of. -/
def IsMember (text : Bytes) (entry : Bytes × Bytes) : Prop :=
  ∃ key value, text = memberText key value ∧ Spells key entry.1 ∧ Spells value entry.2

theorem IsMember.head {entry : Bytes × Bytes} (h : IsMember text entry) (rest : Bytes) :
    (text ++ rest).head? = some 34 := by
  obtain ⟨key, value, rfl, -, -⟩ := h
  rfl

theorem IsMember.member {entry : Bytes × Bytes} (h : IsMember text entry) (rest : Bytes) :
    member (text ++ rest) = some (entry, rest) := by
  obtain ⟨key, value, rfl, hkey, hvalue⟩ := h
  exact member_memberText hkey hvalue rest

theorem members_last {entry : Bytes × Bytes} (hmember : member text = some (entry, rest))
    (hcomma : structural 44 rest = none) : members text = some ([entry], rest) := by
  rw [members]
  split
  · rename_i hnone
    rw [hnone] at hmember
    cases hmember
  · rename_i first after hsome
    rw [hsome] at hmember
    obtain ⟨rfl, rfl⟩ := Prod.mk.inj (Option.some.inj hmember)
    split
    · rfl
    · rename_i next hnext
      rw [hnext] at hcomma
      cases hcomma

theorem members_more {entry : Bytes × Bytes} {next : Bytes}
    (hmember : member text = some (entry, rest)) (hcomma : structural 44 rest = some next) :
    members text = (members next).map fun result => (entry :: result.1, result.2) := by
  rw [members]
  split
  · rename_i hnone
    rw [hnone] at hmember
    cases hmember
  · rename_i first after hsome
    rw [hsome] at hmember
    obtain ⟨rfl, rfl⟩ := Prod.mk.inj (Option.some.inj hmember)
    split
    · rename_i hnone
      rw [hnone] at hcomma
      cases hcomma
    · rename_i following hnext
      rw [hnext] at hcomma
      obtain rfl := Option.some.inj hcomma
      rfl

/-- Members are followed by no space. -/
theorem head?_intercalate {texts : List Bytes} {entries : List (Bytes × Bytes)}
    (h : List.Forall₂ IsMember texts entries) (hne : texts ≠ []) (rest : Bytes) :
    ([44].intercalate texts ++ rest).head? = some 34 := by
  cases h with
  | nil => exact absurd rfl hne
  | @cons text entry texts entries hmember htail =>
      cases texts with
      | nil => rw [List.intercalate_singleton, hmember.head]
      | cons text' texts =>
          rw [List.intercalate_cons_cons, List.append_assoc, List.append_assoc, hmember.head]

/-- Members with commas between them, up to the closing brace. -/
theorem members_intercalate {texts : List Bytes} {entries : List (Bytes × Bytes)}
    (h : List.Forall₂ IsMember texts entries) (hne : texts ≠ []) :
    members ([44].intercalate texts ++ [125]) = some (entries, [125]) := by
  induction h with
  | nil => exact absurd rfl hne
  | @cons text entry texts entries hmember htail ih =>
      cases htail with
      | nil =>
          rw [List.intercalate_singleton]
          exact members_last (hmember.member [125]) (by decide)
      | @cons text' entry' texts entries hmember' htail =>
          have hrest := List.Forall₂.cons hmember' htail
          have hsplit : [44].intercalate (text :: text' :: texts) ++ [125] =
              text ++ (44 :: ([44].intercalate (text' :: texts) ++ [125])) := by
            rw [List.intercalate_cons_cons, List.append_assoc, List.append_assoc]
            rfl
          have hcomma : structural 44 (44 :: ([44].intercalate (text' :: texts) ++ [125])) =
              some ([44].intercalate (text' :: texts) ++ [125]) := by
            apply structural_cons (by decide)
            rw [head?_intercalate hrest (List.cons_ne_nil text' texts)]
            simp [isSpace]
          rw [hsplit, members_more (hmember.member _) hcomma, ih (List.cons_ne_nil text' texts),
            Option.map_some]

/-- An object written without space is read with its entries in the order of the text. -/
theorem parseObject_intercalate {texts : List Bytes} {entries : List (Bytes × Bytes)}
    (h : List.Forall₂ IsMember texts entries) :
    parseObject ([123] ++ [44].intercalate texts ++ [125]) = some entries := by
  have hclose : structural 125 [125] = some [] := by decide
  cases h with
  | nil => decide
  | @cons text entry texts entries hmember htail =>
      have hall := List.Forall₂.cons hmember htail
      have hhead := head?_intercalate hall (List.cons_ne_nil text texts) [125]
      have hopen : structural 123 ([123] ++ [44].intercalate (text :: texts) ++ [125]) =
          some ([44].intercalate (text :: texts) ++ [125]) := by
        rw [List.append_assoc, List.singleton_append]
        apply structural_cons (by decide)
        rw [hhead]
        simp [isSpace]
      rw [parseObject, hopen, Option.bind_some, hhead, if_neg (by decide),
        members_intercalate hall (List.cons_ne_nil text texts), Option.bind_some, hclose,
        Option.bind_some, if_pos rfl]

end JsonObject
