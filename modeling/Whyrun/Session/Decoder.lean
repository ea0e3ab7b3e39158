import Whyrun.Model.Session

/-!
The decoder of command markers as a function of the byte stream: complete
records of NUL-free fields are decoded one by one, and whatever the decoder
accepts is the list of its records.
-/

namespace Whyrun

open ByteText

namespace CommandProtocol

/-! ### Decoding a record -/

/-- A field that the channel can carry. -/
def FieldFits (text : Bytes) : Prop := 0 ∉ text ∧ text.length ≤ kMaximumFieldBytes

instance : DecidablePred FieldFits := fun text =>
  inferInstanceAs (Decidable (0 ∉ text ∧ text.length ≤ kMaximumFieldBytes))

/-- The steps of the decoder: a byte of a field, the end of a field inside a
record, and the end of a record. -/
theorem consumeByte_cases {protocol next : CommandProtocol} {b : UInt8}
    {markers : List CommandMarker} (h : protocol.consumeByte b = .ok (next, markers)) :
    (b ≠ 0 ∧ protocol.pendingField.length ≠ kMaximumFieldBytes ∧ markers = [] ∧
        next = { protocol with pendingField := protocol.pendingField ++ [b] }) ∨
      (b = 0 ∧ protocol.fields.length + 1 ≠ kProtocolFields ∧ markers = [] ∧
        next = ⟨[], protocol.fields ++ [protocol.pendingField]⟩) ∨
      (b = 0 ∧ protocol.fields.length + 1 = kProtocolFields ∧ next = {} ∧
        ∃ marker, decodeRecord (protocol.fields ++ [protocol.pendingField]) = .ok marker ∧
          markers = [marker]) := by
  unfold consumeByte at h
  by_cases hb : b = 0
  · rw [if_neg (not_not.mpr hb)] at h
    dsimp only at h
    rw [List.length_append, List.length_singleton] at h
    split at h
    · rename_i hlast
      cases hdecode : decodeRecord (protocol.fields ++ [protocol.pendingField]) with
      | error e => simp [hdecode] at h
      | ok marker =>
          simp only [hdecode, Except.ok.injEq, Prod.mk.injEq] at h
          exact .inr (.inr ⟨hb, hlast, h.1.symm, marker, rfl, h.2.symm⟩)
    · rename_i hmore
      simp only [Except.ok.injEq, Prod.mk.injEq] at h
      exact .inr (.inl ⟨hb, hmore, h.2.symm, h.1.symm⟩)
  · rw [if_pos hb] at h
    split at h
    · contradiction
    · rename_i hroom
      simp only [Except.ok.injEq, Prod.mk.injEq] at h
      exact .inl ⟨hb, hroom, h.2.symm, h.1.symm⟩

theorem consume_bytes (protocol : CommandProtocol) {text : Bytes} (hzero : 0 ∉ text)
    (hlength : protocol.pendingField.length + text.length ≤ kMaximumFieldBytes) :
    protocol.consume text =
      .ok ({ protocol with pendingField := protocol.pendingField ++ text }, []) := by
  induction text generalizing protocol with
  | nil => simp [consume]
  | cons b text ih =>
      simp only [List.mem_cons, not_or] at hzero
      simp only [List.length_cons] at hlength
      have hstep : protocol.consumeByte b =
          .ok ({ protocol with pendingField := protocol.pendingField ++ [b] }, []) := by
        rw [consumeByte, if_pos (Ne.symm hzero.1), if_neg (by omega)]
      have hrest := ih { protocol with pendingField := protocol.pendingField ++ [b] } hzero.2
        (by simp; omega)
      rw [consume] at hrest ⊢
      rw [Transducer.run_cons_of_ok _ hstep, hrest]
      simp [Except.map]

theorem consume_append_of_ok {protocol protocol' : CommandProtocol} {text : Bytes}
    {markers : List CommandMarker} (rest : Bytes)
    (h : protocol.consume text = .ok (protocol', markers)) :
    protocol.consume (text ++ rest) =
      (protocol'.consume rest).map fun r => (r.1, markers ++ r.2) :=
  Transducer.run_append_of_ok rest h

/-- A field that is not the last of its record. -/
theorem consume_field (fields : List Bytes) {text : Bytes} (hfits : FieldFits text)
    (hfields : fields.length + 1 < kProtocolFields) :
    consume ⟨[], fields⟩ (field text) = .ok (⟨[], fields ++ [text]⟩, []) := by
  rw [field, consume_append_of_ok [0] (consume_bytes _ hfits.1 (by simpa using hfits.2))]
  have hlength : fields.length + 1 ≠ kProtocolFields := by omega
  simp [consume, consumeByte, hlength, Except.map]

/-- The last field of a record. -/
theorem consume_last_field (fields : List Bytes) {text : Bytes} {marker : CommandMarker}
    (hfits : FieldFits text) (hfields : fields.length + 1 = kProtocolFields)
    (hdecode : decodeRecord (fields ++ [text]) = .ok marker) :
    consume ⟨[], fields⟩ (field text) = .ok ({}, [marker]) := by
  rw [field, consume_append_of_ok [0] (consume_bytes _ hfits.1 (by simpa using hfits.2))]
  simp [consume, consumeByte, hfields, hdecode, Except.map]

/-- A record of four fields yields its marker and leaves nothing behind. -/
theorem consume_record {a b c d : Bytes} {marker : CommandMarker} (ha : FieldFits a)
    (hb : FieldFits b) (hc : FieldFits c) (hd : FieldFits d)
    (hdecode : decodeRecord [a, b, c, d] = .ok marker) :
    consume {} (field a ++ field b ++ field c ++ field d) = .ok ({}, [marker]) := by
  have hfirst : consume {} (field a) = .ok (⟨[], [a]⟩, []) :=
    consume_field [] ha (by simp [kProtocolFields])
  have hsecond : consume ⟨[], [a]⟩ (field b) = .ok (⟨[], [a, b]⟩, []) :=
    consume_field [a] hb (by simp [kProtocolFields])
  have hthird : consume ⟨[], [a, b]⟩ (field c) = .ok (⟨[], [a, b, c]⟩, []) :=
    consume_field [a, b] hc (by simp [kProtocolFields])
  have hlast : consume ⟨[], [a, b, c]⟩ (field d) = .ok ({}, [marker]) :=
    consume_last_field [a, b, c] hd rfl hdecode
  simp only [List.append_assoc]
  rw [consume_append_of_ok _ hfirst, consume_append_of_ok _ hsecond,
    consume_append_of_ok _ hthird, hlast]
  rfl

/-! ### The records of a stream -/

/-- The fields that NUL bytes complete, after a pending beginning. -/
def completedFields : Bytes → Bytes → List Bytes
  | _, [] => []
  | pending, b :: rest =>
      if b = 0 then pending :: completedFields [] rest
      else completedFields (pending ++ [b]) rest

/-- Complete records of four fields. -/
def recordsOf : List Bytes → List (List Bytes)
  | a :: b :: c :: d :: rest => [a, b, c, d] :: recordsOf rest
  | _ => []

/-- The complete records of a byte stream. -/
def records (stream : Bytes) : List (List Bytes) := recordsOf (completedFields [] stream)

theorem recordsOf_eq_nil {fields : List Bytes} (h : fields.length < kProtocolFields) :
    recordsOf fields = [] := by
  match fields, h with
  | [], _ => rfl
  | [_], _ => rfl
  | [_, _], _ => rfl
  | [_, _, _], _ => rfl

theorem recordsOf_append {fields : List Bytes} (h : fields.length = kProtocolFields)
    (rest : List Bytes) : recordsOf (fields ++ rest) = fields :: recordsOf rest := by
  match fields, h with
  | [_, _, _, _], _ => rfl

/-- The markers of an accepted stream are those of its records. -/
theorem decodeRecord_of_consume (protocol : CommandProtocol) {protocol' : CommandProtocol}
    {stream : Bytes} {markers : List CommandMarker}
    (hfields : protocol.fields.length < kProtocolFields)
    (h : protocol.consume stream = .ok (protocol', markers)) :
    List.Forall₂ (fun r m => decodeRecord r = .ok m)
      (recordsOf (protocol.fields ++ completedFields protocol.pendingField stream)) markers := by
  induction stream generalizing protocol markers with
  | nil =>
      simp only [consume, Transducer.run_nil, Except.ok.injEq, Prod.mk.injEq] at h
      rw [← h.2, completedFields, List.append_nil, recordsOf_eq_nil hfields]
      exact .nil
  | cons b stream ih =>
      obtain ⟨next, o, o', hstep, hrest, rfl⟩ := Transducer.run_cons_ok_iff.mp h
      obtain ⟨hb, -, rfl, rfl⟩ | ⟨rfl, hmore, rfl, rfl⟩ | ⟨rfl, hlast, rfl, marker, hdecode, rfl⟩ :=
        consumeByte_cases hstep
      · rw [completedFields, if_neg hb]
        exact ih ⟨protocol.pendingField ++ [b], protocol.fields⟩ hfields hrest
      · rw [completedFields, if_pos rfl, List.append_cons]
        refine ih ⟨[], protocol.fields ++ [protocol.pendingField]⟩ ?_ hrest
        rw [List.length_append, List.length_singleton]
        omega
      · have hlength : (protocol.fields ++ [protocol.pendingField]).length = kProtocolFields := by
          simpa using hlast
        rw [completedFields, if_pos rfl, List.append_cons, recordsOf_append hlength]
        exact .cons hdecode (ih {} (by simp [kProtocolFields]) hrest)

/-! ### Started ids of a stream -/

/-- The command ids that the start records of a stream name. -/
def startNumbers (stream : Bytes) : List ℕ :=
  (records stream).filterMap fun r =>
    if r.getD 0 [] = lit "S" then some (digitsValue (r.getD 1 [])) else none

/-- The ids of start markers. -/
def startIds (markers : List CommandMarker) : List UInt64 :=
  markers.filterMap fun m => if m.type = .start then some m.id else none

theorem parseId_ok {text : Bytes} {id : UInt64} (h : parseId text = .ok id) :
    id.toNat = digitsValue text ∧ 0 < id.toNat := by
  unfold parseId at h
  split at h
  · rename_i value hvalue
    split at h
    · contradiction
    · simp only [Except.ok.injEq] at h
      subst h
      obtain ⟨-, -, rfl, hlt⟩ := fromCharsUnsigned_eq_some_iff.mp hvalue
      have hnat := UInt64.toNat_ofNat_of_lt' hlt
      exact ⟨hnat, by omega⟩
  · contradiction

/-- What the type field of a decoded record says. -/
theorem decodeRecord_start_iff {r : List Bytes} {m : CommandMarker}
    (h : decodeRecord r = .ok m) :
    (m.id.toNat = digitsValue (r.getD 1 []) ∧ 0 < m.id.toNat) ∧
      (m.type = .start ↔ r.getD 0 [] = lit "S") := by
  unfold decodeRecord at h
  cases hid : parseId (r.getD 1 []) with
  | error e => simp only [hid, Bind.bind, Except.bind, reduceCtorEq] at h
  | ok id =>
      simp only [hid, Bind.bind, Except.bind] at h
      have hnumber := parseId_ok hid
      split at h
      · rename_i htype
        split at h
        · contradiction
        · simp only [Except.ok.injEq] at h
          subst h
          exact ⟨hnumber, fun h => by contradiction,
            fun h => absurd (htype.symm.trans h) (by decide)⟩
      · split at h
        · rename_i htype
          split at h
          · contradiction
          · simp only [Except.ok.injEq] at h
            subst h
            exact ⟨hnumber, fun _ => htype, fun _ => rfl⟩
        · rename_i htype
          split at h
          · cases hstatus : parseStatus (r.getD 2 []) with
            | error e => simp only [hstatus, reduceCtorEq] at h
            | ok code =>
                simp only [hstatus, Except.ok.injEq] at h
                subst h
                exact ⟨hnumber, fun h => by contradiction, fun h => absurd h htype⟩
          · contradiction

/-- Every marker of an accepted stream has a positive id. -/
theorem id_pos_of_consume {protocol' : CommandProtocol} {stream : Bytes}
    {markers : List CommandMarker} (h : consume {} stream = .ok (protocol', markers))
    {m : CommandMarker} (hm : m ∈ markers) : 0 < m.id.toNat := by
  have hdecode := decodeRecord_of_consume {} (by simp [kProtocolFields]) h
  generalize recordsOf _ = rs at hdecode
  clear h
  induction hdecode with
  | nil => contradiction
  | cons hr _ ih =>
      rcases List.mem_cons.mp hm with rfl | hm
      · exact (decodeRecord_start_iff hr).1.2
      · exact ih hm

/-- The started ids of an accepted stream can be read off its records. -/
theorem startIds_of_consume {protocol' : CommandProtocol} {stream : Bytes}
    {markers : List CommandMarker} (h : consume {} stream = .ok (protocol', markers)) :
    (startIds markers).map UInt64.toNat = startNumbers stream := by
  have hdecode := decodeRecord_of_consume {} (by simp [kProtocolFields]) h
  rw [List.nil_append] at hdecode
  rw [startNumbers, records]
  generalize recordsOf (completedFields [] stream) = rs at hdecode
  clear h
  induction hdecode with
  | nil => rfl
  | @cons r m rs ms hr _ ih =>
      obtain ⟨⟨hnumber, -⟩, htype⟩ := decodeRecord_start_iff hr
      rw [startIds] at ih ⊢
      by_cases hstart : m.type = .start
      · rw [List.filterMap_cons_some (by rw [if_pos hstart]),
          List.filterMap_cons_some (by rw [if_pos (htype.mp hstart)]), List.map_cons, ih, hnumber]
      · rw [List.filterMap_cons_none (by rw [if_neg hstart]),
          List.filterMap_cons_none (by rw [if_neg (mt htype.mpr hstart)]), ih]

end CommandProtocol

end Whyrun
