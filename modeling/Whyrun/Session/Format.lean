import Whyrun.Session.Decoder

/-!
The format of the marker channel as a grammar over byte strings, and the
decoder as its recogniser: it accepts exactly the concatenations of records,
returns their values, and does so however the bytes are cut into writes.
-/

namespace Whyrun

open ByteText

namespace CommandProtocol

/-! ### Write boundaries -/

/-- `consume` on consecutive pieces, up to the first throw. -/
def consumePieces (protocol : CommandProtocol) (pieces : List Bytes) :
    Except Failure (CommandProtocol × List CommandMarker) :=
  Transducer.run consume protocol pieces

/-- What a decoder holds between two calls. -/
structure Within (protocol : CommandProtocol) : Prop where
  fields : protocol.fields.length < kProtocolFields
  pending : protocol.pendingField.length ≤ kMaximumFieldBytes
  pendingZero : 0 ∉ protocol.pendingField
  fieldsFit : ∀ text ∈ protocol.fields, FieldFits text

theorem within_empty : Within {} :=
  ⟨by simp [kProtocolFields], by simp, by simp, by simp⟩

theorem Within.next {protocol next : CommandProtocol} {b : UInt8}
    {markers : List CommandMarker} (h : protocol.Within)
    (hstep : protocol.consumeByte b = .ok (next, markers)) : next.Within := by
  obtain ⟨hb, hroom, -, rfl⟩ | ⟨-, hmore, -, rfl⟩ | ⟨-, -, rfl, -⟩ := consumeByte_cases hstep
  · have hpending := h.pending
    refine ⟨h.fields, ?_, ?_, h.fieldsFit⟩
    · rw [List.length_append, List.length_singleton]
      omega
    · simp [h.pendingZero, Ne.symm hb]
  · have hfields := h.fields
    refine ⟨?_, by simp, by simp, fun text htext => ?_⟩
    · rw [List.length_append, List.length_singleton]
      omega
    · rcases List.mem_append.mp htext with htext | htext
      · exact h.fieldsFit text htext
      · obtain rfl := List.mem_singleton.mp htext
        exact ⟨h.pendingZero, h.pending⟩
  · exact within_empty

theorem Within.consume {protocol next : CommandProtocol} {bytes : Bytes}
    {markers : List CommandMarker} (h : protocol.Within)
    (hconsume : protocol.consume bytes = .ok (next, markers)) : next.Within := by
  refine Transducer.run_invariant (motive := fun _ p _ => p.Within) h ?_ hconsume
  intro past p out b p' o hp hstep
  exact hp.next hstep

/-- The states of a decoder that has not thrown. -/
def Reached (protocol : CommandProtocol) : Prop :=
  ∃ (pieces : List Bytes) (markers : List CommandMarker),
    consumePieces {} pieces = .ok (protocol, markers)

/-- Decoding does not depend on write boundaries: consuming consecutive pieces
throws, returns and leaves behind what consuming the whole does, and the
state stays within the limits of a record. -/
theorem consume_pieces {protocol : CommandProtocol} (reached : protocol.Reached)
    (pieces : List Bytes) :
    protocol.consumePieces pieces = protocol.consume pieces.flatten ∧
      ∀ next markers, protocol.consume pieces.flatten = .ok (next, markers) →
        next.fields.length < kProtocolFields ∧
          next.pendingField.length ≤ kMaximumFieldBytes := by
  refine ⟨Transducer.run_run, fun next markers hconsume => ?_⟩
  obtain ⟨past, earlier, hpast⟩ := reached
  have hwhole : CommandProtocol.consume {} past.flatten = .ok (protocol, earlier) :=
    Transducer.run_run.symm.trans hpast
  have hnext := (within_empty.consume hwhole).consume hconsume
  exact ⟨hnext.fields, hnext.pending⟩

theorem consume_pieces_sample :
    consumePieces ⟨[65], []⟩ [[0, 49], [], [0]] = consume ⟨[65], []⟩ [0, 49, 0] :=
  (consume_pieces ⟨[[65]], [], rfl⟩ [[0, 49], [], [0]]).1

/-! ### The grammar -/

/-- A decimal command id. -/
structure IdText (text : Bytes) (id : UInt64) : Prop where
  nonempty : text ≠ []
  digits : ∀ b ∈ text, isDigit b = true
  value : digitsValue text = id.toNat
  pos : 0 < id.toNat

/-- A decimal exit status with an optional minus sign. -/
inductive StatusText : Bytes → Int32 → Prop
  | plain {digits : Bytes} {status : Int32} (nonempty : digits ≠ [])
      (all : ∀ b ∈ digits, isDigit b = true) (value : status.toInt = digitsValue digits) :
      StatusText digits status
  | negative {digits : Bytes} {status : Int32} (nonempty : digits ≠ [])
      (all : ∀ b ∈ digits, isDigit b = true)
      (value : status.toInt = -(digitsValue digits : ℤ)) :
      StatusText (lit "-" ++ digits) status

/-- A text with or without a newline at its end. -/
def LineOf (text line : Bytes) : Prop :=
  line = text ++ [10] ∨ (line = text ∧ line.getLast? ≠ some 10)

/-- The fields of a record and the marker that it stands for. -/
inductive RecordFormat : List Bytes → CommandMarker → Prop
  | arm {number cwd : Bytes} {id : UInt64} (idText : IdText number id) :
      RecordFormat [lit "A", number, cwd, []] { type := .arm, id, cwd }
  | start {number cwd before text line : Bytes} {id : UInt64} (idText : IdText number id)
      (first : historyPrefix ∉ before) (lineOf : LineOf text line) :
      RecordFormat [lit "S", number, cwd, before ++ historyPrefix :: line]
        { type := .start, id, cwd, text }
  | stop {number statusText cwd : Bytes} {id : UInt64} {exitCode : Int32}
      (idText : IdText number id) (status : StatusText statusText exitCode) :
      RecordFormat [lit "E", number, statusText, cwd] { type := .stop, id, cwd, exitCode }

/-- The text of a list of fields, each with its terminator. -/
def fieldsText (fields : List Bytes) : Bytes := fields.flatMap field

/-- A concatenation of records and the markers that they stand for. -/
def StreamFormat (stream : Bytes) (markers : List CommandMarker) : Prop :=
  ∃ rs : List (List Bytes × CommandMarker),
    stream = rs.flatMap (fun r => fieldsText r.1) ∧ markers = rs.map Prod.snd ∧
      ∀ r ∈ rs, RecordFormat r.1 r.2 ∧ ∀ text ∈ r.1, FieldFits text

/-! ### The values of a record -/

theorem parseId_ok_iff {text : Bytes} {id : UInt64} :
    parseId text = .ok id ↔ IdText text id := by
  constructor
  · intro h
    unfold parseId at h
    split at h
    · rename_i value hvalue
      obtain ⟨hne, hdigits, rfl, hlt⟩ := fromCharsUnsigned_eq_some_iff.mp hvalue
      split at h
      · contradiction
      · simp only [Except.ok.injEq] at h
        subst h
        have hnat := UInt64.toNat_ofNat_of_lt' hlt
        exact ⟨hne, hdigits, hnat.symm, by omega⟩
    · contradiction
  · rintro ⟨hne, hdigits, hvalue, hpos⟩
    have hread : fromCharsUnsigned (2 ^ 64) text = some (id.toNat, []) :=
      fromCharsUnsigned_eq_some_iff.mpr ⟨hne, hdigits, hvalue, id.toNat_lt⟩
    rw [parseId, hread]
    simp [Nat.pos_iff_ne_zero.mp hpos]

theorem parseStatus_ok_iff {text : Bytes} {status : Int32} :
    parseStatus text = .ok status ↔ StatusText text status := by
  have hlow := status.le_toInt
  have hhigh := status.toInt_lt
  constructor
  · intro h
    unfold parseStatus at h
    split at h
    · rename_i value hvalue
      simp only [Except.ok.injEq] at h
      subst h
      obtain ⟨digits, hne, hall, ⟨rfl, rfl, hlt⟩ | ⟨rfl, rfl, hle⟩⟩ :=
        fromCharsSigned_eq_some_iff.mp hvalue
      · exact .plain hne hall (Int32.toInt_ofInt_of_le (by omega) (by omega))
      · exact .negative hne hall (Int32.toInt_ofInt_of_le (by omega) (by omega))
    · contradiction
  · intro h
    have hread : fromCharsSigned (2 ^ 31) text = some (status.toInt, []) := by
      refine fromCharsSigned_eq_some_iff.mpr ?_
      cases h with
      | plain hne hall hvalue => exact ⟨text, hne, hall, .inl ⟨rfl, hvalue, by omega⟩⟩
      | @negative digits status hne hall hvalue =>
          exact ⟨digits, hne, hall, .inr ⟨rfl, hvalue, by omega⟩⟩
    rw [parseStatus, hread]
    simp

theorem chomp_eq_iff {line text : Bytes} : chomp line = text ↔ LineOf text line := by
  unfold chomp LineOf
  constructor
  · intro h
    split at h
    · rename_i hlast
      obtain ⟨front, rfl⟩ := List.getLast?_eq_some_iff.mp hlast
      rw [List.dropLast_concat] at h
      exact .inl (by rw [h])
    · exact .inr ⟨h, ‹_›⟩
  · rintro (rfl | ⟨rfl, hlast⟩)
    · simp
    · rw [if_neg hlast]

/-- A field from its first separator on. -/
theorem dropWhile_eq_iff {text line : Bytes} :
    text.dropWhile (· ≠ historyPrefix) = historyPrefix :: line ↔
      ∃ before, historyPrefix ∉ before ∧ text = before ++ historyPrefix :: line := by
  constructor
  · intro h
    refine ⟨text.takeWhile (· ≠ historyPrefix), fun hmem => ?_, ?_⟩
    · simpa using List.mem_takeWhile_imp hmem
    · rw [← h, List.takeWhile_append_dropWhile]
  · rintro ⟨before, hbefore, rfl⟩
    rw [List.dropWhile_append_of_pos, List.dropWhile_cons_of_neg (by simp)]
    intro b hb
    simpa using ne_of_mem_of_not_mem hb hbefore

/-- A record is decoded exactly when it has the format. -/
theorem decodeRecord_ok_iff {a b c d : Bytes} {marker : CommandMarker} :
    decodeRecord [a, b, c, d] = .ok marker ↔ RecordFormat [a, b, c, d] marker := by
  simp only [decodeRecord, List.getD_cons_succ, List.getD_cons_zero]
  constructor
  · intro h
    cases hid : parseId b with
    | error e => simp [hid, Bind.bind, Except.bind] at h
    | ok id =>
        have hidText := parseId_ok_iff.mp hid
        simp only [hid, Bind.bind, Except.bind] at h
        split at h
        · rename_i htype
          split at h
          · contradiction
          · rename_i hempty
            simp only [Except.ok.injEq] at h
            rw [not_ne_iff] at hempty
            subst h htype hempty
            exact .arm hidText
        split at h
        · rename_i htype
          split at h
          · contradiction
          · rename_i separator line hline
            simp only [Except.ok.injEq] at h
            have hsep : separator = historyPrefix := by
              have hhead := List.head?_dropWhile_not (· ≠ historyPrefix) d
              rw [hline] at hhead
              simpa using hhead
            subst hsep
            obtain ⟨before, hbefore, rfl⟩ := dropWhile_eq_iff.mp hline
            subst h htype
            exact .start hidText hbefore (chomp_eq_iff.mp rfl)
        split at h
        · rename_i htype
          cases hstatus : parseStatus c with
          | error e => simp [hstatus] at h
          | ok exitCode =>
              simp only [hstatus, Except.ok.injEq] at h
              subst h htype
              exact .stop hidText (parseStatus_ok_iff.mp hstatus)
        · contradiction
  · intro h
    have hSA : lit "S" ≠ lit "A" := by decide
    have hEA : lit "E" ≠ lit "A" := by decide
    have hES : lit "E" ≠ lit "S" := by decide
    cases h with
    | arm idText => simp [parseId_ok_iff.mpr idText, Bind.bind, Except.bind]
    | @start number cwd before text line id idText first lineOf =>
        have hline : (before ++ historyPrefix :: line).dropWhile (· ≠ historyPrefix) =
            historyPrefix :: line := dropWhile_eq_iff.mpr ⟨before, first, rfl⟩
        simp only [parseId_ok_iff.mpr idText, Bind.bind, Except.bind, if_neg hSA, hline,
          chomp_eq_iff.mpr lineOf, if_true]
    | stop idText status =>
        simp [parseId_ok_iff.mpr idText, parseStatus_ok_iff.mpr status, Bind.bind, Except.bind,
          hEA, hES]

/-! ### The recogniser -/

/-- The decoder on a whole stream: `consume` on a fresh state, then `finish`. -/
def decodeStream (stream : Bytes) : Except Failure (List CommandMarker) := do
  let (protocol, markers) ← consume {} stream
  protocol.finish
  .ok markers

/-- The bytes of a record that has begun. -/
def heldText (protocol : CommandProtocol) : Bytes :=
  fieldsText protocol.fields ++ protocol.pendingField

/-- What has been read is a concatenation of records and the beginning of the
next one. -/
theorem consume_format {stream : Bytes} {protocol : CommandProtocol}
    {markers : List CommandMarker} (h : consume {} stream = .ok (protocol, markers)) :
    ∃ done, StreamFormat done markers ∧ stream = done ++ protocol.heldText := by
  have hinv := Transducer.run_invariant (motive := fun past p out =>
    Within p ∧ ∃ done, StreamFormat done out ∧ past = done ++ heldText p)
    ⟨within_empty, [], ⟨[], rfl, rfl, by simp⟩, rfl⟩ ?_ h
  · exact hinv.2
  rintro past p out b p' o ⟨hwithin, done, hdone, rfl⟩ hstep
  refine ⟨hwithin.next hstep, ?_⟩
  obtain ⟨-, -, rfl, rfl⟩ | ⟨rfl, -, rfl, rfl⟩ | ⟨rfl, hlast, rfl, marker, hdecode, rfl⟩ :=
    consumeByte_cases hstep
  · exact ⟨done, by simpa using hdone, by simp [heldText]⟩
  · exact ⟨done, by simpa using hdone, by simp [heldText, fieldsText, field]⟩
  · obtain ⟨rs, rfl, rfl, hrs⟩ := hdone
    obtain ⟨pending, fields⟩ := p
    obtain ⟨a, b, c, rfl⟩ := List.length_eq_three.mp (Nat.succ_injective hlast)
    refine ⟨_, ⟨rs ++ [([a, b, c, pending], marker)], rfl, by simp, fun r hr => ?_⟩,
      by simp [heldText, fieldsText, field]⟩
    rcases List.mem_append.mp hr with hr | hr
    · exact hrs r hr
    · obtain rfl := List.mem_singleton.mp hr
      refine ⟨decodeRecord_ok_iff.mp hdecode, fun text htext => ?_⟩
      rcases List.mem_append.mp (show text ∈ [a, b, c] ++ [pending] from htext) with hf | hf
      · exact hwithin.fieldsFit text hf
      · obtain rfl := List.mem_singleton.mp hf
        exact ⟨hwithin.pendingZero, hwithin.pending⟩

theorem consume_of_format {stream : Bytes} {markers : List CommandMarker}
    (h : StreamFormat stream markers) : consume {} stream = .ok ({}, markers) := by
  obtain ⟨rs, rfl, rfl, hrs⟩ := h
  induction rs with
  | nil => rfl
  | cons r rs ih =>
      obtain ⟨hformat, hfits⟩ := hrs r (by simp)
      have hrecord : consume {} (fieldsText r.1) = .ok ({}, [r.2]) := by
        obtain ⟨fields, marker⟩ := r
        obtain ⟨a, b, c, d, rfl⟩ : ∃ a b c d, fields = [a, b, c, d] := by
          cases hformat <;> exact ⟨_, _, _, _, rfl⟩
        have hconsume := consume_record (hfits a (by simp)) (hfits b (by simp))
          (hfits c (by simp)) (hfits d (by simp)) (decodeRecord_ok_iff.mpr hformat)
        simpa [fieldsText] using hconsume
      rw [List.flatMap_cons, consume_append_of_ok _ hrecord,
        ih fun r' hr' => hrs r' (by simp [hr'])]
      rfl

theorem heldText_eq_nil_iff {protocol : CommandProtocol} :
    protocol.heldText = [] ↔ protocol.pendingField = [] ∧ protocol.fields = [] := by
  obtain ⟨pending, fields⟩ := protocol
  cases fields <;> simp [heldText, fieldsText, field]

/-- The decoder accepts exactly its format and returns the values of the
records, in order. -/
theorem decodeStream_ok_iff (stream : Bytes) (markers : List CommandMarker) :
    decodeStream stream = .ok markers ↔ StreamFormat stream markers := by
  constructor
  · intro h
    obtain ⟨⟨protocol, found⟩, hconsume, hrest⟩ := Transducer.bind_ok_iff.mp h
    obtain ⟨_, hfinish, hlast⟩ := Transducer.bind_ok_iff.mp hrest
    obtain rfl := Except.ok.inj hlast
    unfold finish at hfinish
    split at hfinish
    · contradiction
    · rename_i hempty
      obtain ⟨done, hdone, rfl⟩ := consume_format hconsume
      have hheld : protocol.heldText = [] := heldText_eq_nil_iff.mpr (by
        rw [not_or, not_ne_iff, not_ne_iff] at hempty
        exact hempty)
      rwa [hheld, List.append_nil]
  · intro h
    simp [decodeStream, consume_of_format h, finish, Bind.bind, Except.bind]

end CommandProtocol

end Whyrun
