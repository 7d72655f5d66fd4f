import Modbus.Proofs.DeviceAnswer
import Modbus.Tcp.Session

/-! What the front of a buffer is on a TCP connection, and what a device takes
it for. A buffer is too short for a header, or it starts with a foreign frame,
with a header that no frame can have, or with a request that is complete or
not; `parse` reads a whole stream by these cases. -/

namespace Modbus.Tcp

/-- What can stand at the front of a buffer. -/
inductive Front : Bytes → Prop where
  | short {buffer : Bytes} (hlen : buffer.length < headerLength) : Front buffer
  | foreign {t1 t0 p1 p0 l1 l0 unit : UInt8} {rest : Bytes} (hp : word p1 p0 ≠ 0) :
    Front (t1 :: t0 :: p1 :: p0 :: l1 :: l0 :: unit :: rest)
  | invalid {t1 t0 p1 p0 l1 l0 unit : UInt8} {rest : Bytes} (hp : word p1 p0 = 0)
    (hl : (word l1 l0).toNat < 2 ∨ 254 < (word l1 l0).toNat) :
    Front (t1 :: t0 :: p1 :: p0 :: l1 :: l0 :: unit :: rest)
  | incomplete {t1 t0 p1 p0 l1 l0 unit : UInt8} {rest : Bytes} (hp : word p1 p0 = 0)
    (hl : 2 ≤ (word l1 l0).toNat ∧ (word l1 l0).toNat ≤ 254)
    (hlen : rest.length + 1 < (word l1 l0).toNat) :
    Front (t1 :: t0 :: p1 :: p0 :: l1 :: l0 :: unit :: rest)
  | complete {t1 t0 p1 p0 l1 l0 unit : UInt8} {rest : Bytes} (hp : word p1 p0 = 0)
    (hl : 2 ≤ (word l1 l0).toNat ∧ (word l1 l0).toNat ≤ 254)
    (hlen : (word l1 l0).toNat ≤ rest.length + 1) :
    Front (t1 :: t0 :: p1 :: p0 :: l1 :: l0 :: unit :: rest)

theorem front_cases (buffer : Bytes) : Front buffer := by
  by_cases hlen : buffer.length < headerLength
  · exact .short hlen
  · rcases buffer with _ | ⟨t1, _ | ⟨t0, _ | ⟨p1, _ | ⟨p0, _ | ⟨l1, _ | ⟨l0, _ | ⟨unit, rest⟩⟩⟩⟩⟩⟩⟩
    case cons.cons.cons.cons.cons.cons.cons =>
      by_cases hp : word p1 p0 = 0
      · by_cases hl : (word l1 l0).toNat < 2 ∨ 254 < (word l1 l0).toNat
        · exact .invalid hp hl
        · have hl' : 2 ≤ (word l1 l0).toNat ∧ (word l1 l0).toNat ≤ 254 := by omega
          by_cases hrest : rest.length + 1 < (word l1 l0).toNat
          · exact .incomplete hp hl' hrest
          · exact .complete hp hl' (Nat.le_of_not_lt hrest)
      · exact .foreign hp
    all_goals exact absurd (by simp [headerLength]) hlen

/-- The requests of a stream, in order. Foreign frames are skipped, and what is not complete at
the end is left out; there is no reading of a stream with a header that no frame can have. -/
def parse : Bytes → Option (List Frame)
  | t1 :: t0 :: p1 :: p0 :: l1 :: l0 :: unit :: rest =>
    let length := (word l1 l0).toNat
    if word p1 p0 ≠ 0 then
      if rest.length + 1 < length then some [] else parse ((unit :: rest).drop length)
    else if length < 2 ∨ 254 < length then none
    else if rest.length + 1 < length then some []
    else (parse (rest.drop (length - 1))).map (⟨word t1 t0, unit, rest.take (length - 1)⟩ :: ·)
  | _ => some []
termination_by stream => stream.length
decreasing_by
  all_goals
    simp only [List.length_drop, List.length_cons]
    omega

theorem parse_nil : parse [] = some [] := by
  rw [parse]
  nofun

section Cases

variable {t1 t0 p1 p0 l1 l0 unit : UInt8} {buffer rest : Bytes}

namespace Frame

theorem ofFront_short (hlen : buffer.length < headerLength) : ofFront buffer = .ok none := by
  rcases buffer with _ | ⟨t1, _ | ⟨t0, _ | ⟨p1, _ | ⟨p0, _ | ⟨l1, _ | ⟨l0, _ | ⟨unit, rest⟩⟩⟩⟩⟩⟩⟩
  case cons.cons.cons.cons.cons.cons.cons =>
    simp only [List.length_cons, headerLength] at hlen
    omega
  all_goals rfl

theorem ofFront_foreign (hp : word p1 p0 ≠ 0) :
    ofFront (t1 :: t0 :: p1 :: p0 :: l1 :: l0 :: unit :: rest) =
      .error (.protocolNotModbus (word p1 p0)) := by
  rw [ofFront, if_pos hp]

theorem lengthField_iff (length : UInt16) :
    length < 2 ∨ maxPduLength + 1 < length.toNat ↔ length.toNat < 2 ∨ 254 < length.toNat := by
  rw [UInt16.lt_iff_toNat_lt]
  rfl

theorem ofFront_invalid (hp : word p1 p0 = 0)
    (hl : (word l1 l0).toNat < 2 ∨ 254 < (word l1 l0).toNat) :
    ofFront (t1 :: t0 :: p1 :: p0 :: l1 :: l0 :: unit :: rest) =
      .error (.lengthField (word l1 l0)) := by
  rw [ofFront, if_neg (not_not_intro hp), if_pos ((lengthField_iff _).mpr hl)]

theorem ofFront_incomplete (hp : word p1 p0 = 0)
    (hl : 2 ≤ (word l1 l0).toNat ∧ (word l1 l0).toNat ≤ 254)
    (hlen : rest.length + 1 < (word l1 l0).toNat) :
    ofFront (t1 :: t0 :: p1 :: p0 :: l1 :: l0 :: unit :: rest) = .ok none := by
  rw [ofFront, if_neg (not_not_intro hp), if_neg (mt (lengthField_iff _).mp (by omega)), if_pos]
  simp only [List.length_cons]
  omega

theorem ofFront_complete (hp : word p1 p0 = 0)
    (hl : 2 ≤ (word l1 l0).toNat ∧ (word l1 l0).toNat ≤ 254)
    (hlen : (word l1 l0).toNat ≤ rest.length + 1) :
    ofFront (t1 :: t0 :: p1 :: p0 :: l1 :: l0 :: unit :: rest) =
      .ok (some (⟨word t1 t0, unit, rest.take ((word l1 l0).toNat - 1)⟩,
        6 + (word l1 l0).toNat)) := by
  obtain ⟨n, hn⟩ : ∃ n, (word l1 l0).toNat = n + 1 := ⟨(word l1 l0).toNat - 1, by omega⟩
  have htake : (rest.take n).length = n := by
    rw [List.length_take]
    omega
  rw [ofFront, if_neg (not_not_intro hp), if_neg (mt (lengthField_iff _).mp (by omega)),
    if_neg (by simp only [List.length_cons]; omega), hn, show 6 + (n + 1) = n + 7 by omega]
  simp only [List.take_succ_cons, ofWire, hp, hn, htake, ne_eq, not_true_eq_false, if_false]
  rfl

end Frame

end Cases

/-- The bytes up to the end of the frame that a foreign header announces. -/
def foreignLength (buffer : Bytes) : Nat := (Frame.announcedLength buffer).getD buffer.length

/-- Reading goes on behind a foreign frame, and there is nothing behind one that is not complete. -/
theorem parse_of_foreign {t1 t0 p1 p0 l1 l0 unit : UInt8} {rest : Bytes} (hp : word p1 p0 ≠ 0) :
    parse (t1 :: t0 :: p1 :: p0 :: l1 :: l0 :: unit :: rest) =
      parse ((unit :: rest).drop (word l1 l0).toNat) := by
  rw [parse, if_pos hp]
  rcases Nat.lt_or_ge (rest.length + 1) (word l1 l0).toNat with hlen | hlen
  · rw [if_pos hlen, List.drop_of_length_le (Nat.le_of_lt hlen), parse_nil]
  · rw [if_neg (Nat.not_lt.mpr hlen)]

/-- Reading a stream goes from one front to the next. -/
theorem parse_eq (buffer : Bytes) :
    parse buffer =
      match Frame.ofFront buffer with
      | .ok none => some []
      | .ok (some (frame, length)) => (parse (buffer.drop length)).map (frame :: ·)
      | .error (.protocolNotModbus _) => parse (buffer.drop (foreignLength buffer))
      | .error _ => none := by
  cases front_cases buffer with
  | short hlen =>
    rw [Frame.ofFront_short hlen, parse]
    rintro t1 t0 p1 p0 l1 l0 unit rest rfl
    simp only [List.length_cons, headerLength] at hlen
    omega
  | @foreign t1 t0 p1 p0 l1 l0 unit rest hp =>
    rw [Frame.ofFront_foreign hp, parse_of_foreign hp, foreignLength, Frame.announcedLength,
      Option.getD_some, Nat.add_comm 6]
    rfl
  | invalid hp hl => rw [Frame.ofFront_invalid hp hl, parse, if_neg (not_not_intro hp), if_pos hl]
  | incomplete hp hl hlen =>
    rw [Frame.ofFront_incomplete hp hl hlen, parse, if_neg (not_not_intro hp), if_neg (by omega),
      if_pos hlen]
  | @complete t1 t0 p1 p0 l1 l0 unit rest hp hl hlen =>
    obtain ⟨n, hn⟩ : ∃ n, (word l1 l0).toNat = n + 1 := ⟨(word l1 l0).toNat - 1, by omega⟩
    rw [Frame.ofFront_complete hp hl hlen, parse, if_neg (not_not_intro hp), if_neg (by omega),
      if_neg (Nat.not_lt.mpr hlen), hn, Nat.add_comm 6]
    rfl

section Reading

variable {buffer : Bytes}

theorem parse_incomplete (h : Frame.ofFront buffer = .ok none) : parse buffer = some [] := by
  rw [parse_eq, h]

theorem parse_request {frame : Frame} {length : Nat}
    (h : Frame.ofFront buffer = .ok (some (frame, length))) :
    parse buffer = (parse (buffer.drop length)).map (frame :: ·) := by
  rw [parse_eq, h]

theorem parse_foreign {protocol : UInt16}
    (h : Frame.ofFront buffer = .error (.protocolNotModbus protocol)) :
    parse buffer = parse (buffer.drop (foreignLength buffer)) := by
  rw [parse_eq, h]

theorem parse_invalid {length : UInt16} (h : Frame.ofFront buffer = .error (.lengthField length)) :
    parse buffer = none := by
  rw [parse_eq, h]

end Reading

namespace Frame

/-- The end of a frame that has been found lies within the buffer. -/
theorem length_le_of_ofFront {buffer : Bytes} {frame : Frame} {length : Nat}
    (h : ofFront buffer = .ok (some (frame, length))) : length ≤ buffer.length := by
  cases front_cases buffer with
  | short hlen => rw [ofFront_short hlen] at h; cases h
  | foreign hp => rw [ofFront_foreign hp] at h; cases h
  | invalid hp hl => rw [ofFront_invalid hp hl] at h; cases h
  | incomplete hp hl hlen => rw [ofFront_incomplete hp hl hlen] at h; cases h
  | complete hp hl hlen =>
    rw [ofFront_complete hp hl hlen] at h
    cases h
    simp only [List.length_cons]
    omega

/-- What a front is taken for does not change when more bytes come, unless it was incomplete. -/
theorem ofFront_append {buffer : Bytes} {outcome : Except ProtocolError (Option (Frame × Nat))}
    (h : ofFront buffer = outcome) (hne : outcome ≠ .ok none) (more : Bytes) :
    ofFront (buffer ++ more) = outcome := by
  cases front_cases buffer with
  | short hlen => exact absurd (h.symm.trans (ofFront_short hlen)) hne
  | foreign hp => exact ((ofFront_foreign hp).trans (ofFront_foreign hp).symm).trans h
  | invalid hp hl => exact ((ofFront_invalid hp hl).trans (ofFront_invalid hp hl).symm).trans h
  | incomplete hp hl hlen => exact absurd (h.symm.trans (ofFront_incomplete hp hl hlen)) hne
  | @complete t1 t0 p1 p0 l1 l0 unit rest hp hl hlen =>
    have hlen' : (word l1 l0).toNat ≤ (rest ++ more).length + 1 := by
      rw [List.length_append]
      omega
    have htake : (rest ++ more).take ((word l1 l0).toNat - 1) =
        rest.take ((word l1 l0).toNat - 1) := List.take_append_of_le_length (by omega)
    rw [ofFront_complete hp hl hlen] at h
    rw [← h, ← htake]
    exact ofFront_complete hp hl hlen'

theorem cause_of_ofFront {buffer : Bytes} {cause : ProtocolError}
    (h : ofFront buffer = .error cause) :
    (∃ protocol, cause = .protocolNotModbus protocol) ∨ ∃ length, cause = .lengthField length := by
  cases front_cases buffer with
  | short hlen => rw [ofFront_short hlen] at h; cases h
  | foreign hp => rw [ofFront_foreign hp] at h; cases h; exact .inl ⟨_, rfl⟩
  | invalid hp hl => rw [ofFront_invalid hp hl] at h; cases h; exact .inr ⟨_, rfl⟩
  | incomplete hp hl hlen => rw [ofFront_incomplete hp hl hlen] at h; cases h
  | complete hp hl hlen => rw [ofFront_complete hp hl hlen] at h; cases h

/-- A stream is its front and what comes behind the frame there. -/
@[elab_as_elim]
theorem front_induction {motive : Bytes → Prop}
    (incomplete : ∀ buffer, ofFront buffer = .ok none → motive buffer)
    (request : ∀ buffer frame length, ofFront buffer = .ok (some (frame, length)) →
      length ≤ buffer.length → motive (buffer.drop length) → motive buffer)
    (foreign : ∀ buffer protocol, ofFront buffer = .error (.protocolNotModbus protocol) →
      motive (buffer.drop (foreignLength buffer)) → motive buffer)
    (invalid : ∀ buffer length, ofFront buffer = .error (.lengthField length) → motive buffer)
    (stream : Bytes) : motive stream := by
  induction hsize : stream.length using Nat.strongRecOn generalizing stream with
  | ind n ih =>
    cases hfront : ofFront stream with
    | ok found =>
      rcases found with _ | ⟨frame, length⟩
      · exact incomplete stream hfront
      · have hpos := pos_of_ofFront_some hfront
        refine request stream frame length hfront (length_le_of_ofFront hfront)
          (ih _ ?_ (stream.drop length) rfl)
        rw [List.length_drop]
        omega
    | error cause =>
      obtain ⟨protocol, rfl⟩ | ⟨length, rfl⟩ := cause_of_ofFront hfront
      · have hpos : 0 < stream.length ∧ 0 < foreignLength stream := pos_of_ofFront_foreign hfront
        refine foreign stream protocol hfront (ih _ ?_ (stream.drop (foreignLength stream)) rfl)
        rw [List.length_drop]
        omega
      · exact invalid stream length hfront

/-- A header that is refused has a length field, which does not change when more bytes come. -/
theorem foreignLength_append {buffer : Bytes} {cause : ProtocolError}
    (h : ofFront buffer = .error cause) (more : Bytes) :
    foreignLength (buffer ++ more) = foreignLength buffer := by
  cases front_cases buffer with
  | short hlen => rw [ofFront_short hlen] at h; cases h
  | _ => rfl

theorem wire_eq (frame : Frame) :
    frame.wire = (frame.transaction >>> 8).toUInt8 :: frame.transaction.toUInt8 :: 0 :: 0 ::
      ((frame.pdu.length + 1).toUInt16 >>> 8).toUInt8 :: (frame.pdu.length + 1).toUInt16.toUInt8 ::
      frame.unit :: frame.pdu := rfl

/-- Behind a header of the Modbus protocol, as many bytes as it announces are the rest of a
frame. -/
theorem eq_wire_of_header {t1 t0 p1 p0 l1 l0 unit : UInt8} {pdu : Bytes} (hp : word p1 p0 = 0)
    (hl : (word l1 l0).toNat = pdu.length + 1) :
    t1 :: t0 :: p1 :: p0 :: l1 :: l0 :: unit :: pdu = wire ⟨word t1 t0, unit, pdu⟩ := by
  have hlength : (pdu.length + 1).toUInt16 = word l1 l0 := by
    rw [← hl]
    exact UInt16.ofNat_toNat
  have hprotocol : [p1, p0] = [0, 0] := by
    rw [← wordBytes_word, hp]
    rfl
  obtain ⟨rfl, hlow⟩ := List.cons.inj hprotocol
  obtain ⟨rfl, -⟩ := List.cons.inj hlow
  simp only [wire, hlength, wordBytes_word, List.cons_append, List.nil_append]

/-- A complete front is a frame and what follows it. -/
theorem eq_wire_of_complete {t1 t0 p1 p0 l1 l0 unit : UInt8} {rest : Bytes}
    (hp : word p1 p0 = 0) (hl : 2 ≤ (word l1 l0).toNat)
    (hlen : (word l1 l0).toNat ≤ rest.length + 1) :
    t1 :: t0 :: p1 :: p0 :: l1 :: l0 :: unit :: rest =
      wire ⟨word t1 t0, unit, rest.take ((word l1 l0).toNat - 1)⟩ ++
        rest.drop ((word l1 l0).toNat - 1) := by
  have hlength : (word l1 l0).toNat = (rest.take ((word l1 l0).toNat - 1)).length + 1 := by
    rw [List.length_take, Nat.min_eq_left (by omega), Nat.sub_add_cancel (by omega)]
  rw [← eq_wire_of_header hp hlength]
  simp only [List.cons_append, List.take_append_drop]

theorem lengthField_wire {frame : Frame} (h : Device.Carried frame.pdu) :
    (word ((frame.pdu.length + 1).toUInt16 >>> 8).toUInt8
      (frame.pdu.length + 1).toUInt16.toUInt8).toNat = frame.pdu.length + 1 := by
  obtain ⟨-, hmax⟩ := h
  rw [word_wordBytes, toNat_toUInt16 (by omega)]

/-- A frame at the front of a buffer is found whatever follows it. -/
theorem ofFront_wire_append {frame : Frame} (h : Device.Carried frame.pdu) (rest : Bytes) :
    ofFront (frame.wire ++ rest) = .ok (some (frame, frame.wire.length)) := by
  have hfield := lengthField_wire h
  have hlen : (frame.pdu ++ rest).length = frame.pdu.length + rest.length := List.length_append
  obtain ⟨hpos, hmax⟩ := h
  rw [wire_eq]
  simp only [List.cons_append]
  rw [ofFront_complete (by decide) (by omega) (by omega), hfield]
  simp only [word_wordBytes, Nat.add_sub_cancel, List.take_left, List.length_cons]
  congr 3
  omega

/-- Less than a frame is not taken for one. -/
theorem ofFront_wire_take {frame : Frame} (h : Device.Carried frame.pdu) {n : Nat}
    (hn : n < frame.wire.length) : ofFront (frame.wire.take n) = .ok none := by
  have hfield := lengthField_wire h
  obtain ⟨hpos, hmax⟩ := h
  rw [length_wire, headerLength] at hn
  by_cases hshort : n < headerLength
  · apply ofFront_short
    rw [List.length_take]
    omega
  · obtain ⟨m, rfl⟩ : ∃ m, n = m + 7 := ⟨n - 7, by rw [headerLength] at hshort; omega⟩
    rw [wire_eq]
    simp only [List.take_succ_cons]
    exact ofFront_incomplete (by decide) (by omega) (by rw [List.length_take, hfield]; omega)

end Frame

theorem parse_wire {frame : Frame} (h : Device.Carried frame.pdu) :
    parse frame.wire = some [frame] := by
  have hfront := Frame.ofFront_wire_append h []
  rw [List.append_nil] at hfront
  rw [parse_request hfront, List.drop_length, parse_nil]
  rfl

theorem parse_wires {frames : List Frame} (h : ∀ frame ∈ frames, Device.Carried frame.pdu) :
    parse (frames.flatMap Frame.wire) = some frames := by
  induction frames with
  | nil => exact parse_nil
  | cons frame rest ih =>
    obtain ⟨hframe, hrest⟩ := List.forall_mem_cons.mp h
    rw [List.flatMap_cons, parse_request (Frame.ofFront_wire_append hframe _), List.drop_left,
      ih hrest]
    rfl

end Modbus.Tcp
