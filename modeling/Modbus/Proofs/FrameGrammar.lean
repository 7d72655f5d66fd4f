import Modbus.Proofs.TcpFraming

/-! Which bytes are frames on a TCP connection. A frame is at the front of a
buffer if and only if its wire form is; a header is refused if and only if it is
there as a whole and has another protocol or no possible length; all other
buffers are waited on. More bytes change none of these verdicts but the last. A
buffer that a frame takes up as a whole may be longer, as far as the length field
goes. -/

namespace Modbus.Tcp

/-- The bytes begin with a whole header that has a protocol and a length. -/
structure HasHeader (bytes : Bytes) (protocol length : UInt16) : Prop where
  complete : headerLength ≤ bytes.length
  protocol_eq : (bytes.drop 2).take 2 = wordBytes protocol
  length_eq : (bytes.drop 4).take 2 = wordBytes length

theorem eq_word_of_wordBytes {high low : UInt8} {value : UInt16}
    (h : [high, low] = wordBytes value) : value = word high low := by
  obtain ⟨rfl, hlow⟩ := List.cons.inj h
  obtain ⟨rfl, -⟩ := List.cons.inj hlow
  exact (word_wordBytes value).symm

section Header

variable {t1 t0 p1 p0 l1 l0 unit : UInt8} {rest : Bytes} {protocol length : UInt16}

theorem hasHeader_cons_iff :
    HasHeader (t1 :: t0 :: p1 :: p0 :: l1 :: l0 :: unit :: rest) protocol length ↔
      protocol = word p1 p0 ∧ length = word l1 l0 := by
  constructor
  · rintro ⟨-, hprotocol, hlength⟩
    exact ⟨eq_word_of_wordBytes hprotocol, eq_word_of_wordBytes hlength⟩
  · rintro ⟨rfl, rfl⟩
    refine ⟨?_, (wordBytes_word p1 p0).symm, (wordBytes_word l1 l0).symm⟩
    simp [headerLength]

theorem not_hasHeader_short {bytes : Bytes} (h : bytes.length < headerLength) :
    ¬ HasHeader bytes protocol length := fun hheader => Nat.not_lt.mpr hheader.complete h

end Header

namespace Frame

/-! ## The front of a buffer -/

section Front

variable {buffer : Bytes}

theorem ofFront_eq_some_iff {frame : Frame} {length : Nat} :
    ofFront buffer = .ok (some (frame, length)) ↔
      frame.wire <+: buffer ∧ Device.Carried frame.pdu ∧ length = 7 + frame.pdu.length := by
  constructor
  · intro h
    cases front_cases buffer with
    | short hlen => rw [ofFront_short hlen] at h; cases h
    | foreign hp => rw [ofFront_foreign hp] at h; cases h
    | invalid hp hl => rw [ofFront_invalid hp hl] at h; cases h
    | incomplete hp hl hlen => rw [ofFront_incomplete hp hl hlen] at h; cases h
    | @complete t1 t0 p1 p0 l1 l0 unit rest hp hl hlen =>
      rw [ofFront_complete hp hl hlen] at h
      cases h
      refine ⟨⟨_, (eq_wire_of_complete hp hl.1 hlen).symm⟩, ?_, ?_⟩
      · rw [Device.Carried, List.length_take]
        omega
      · rw [List.length_take]
        omega
  · rintro ⟨⟨rest, rfl⟩, hpdu, rfl⟩
    rw [ofFront_wire_append hpdu, length_wire]
    rfl

theorem ofFront_eq_foreign_iff {protocol : UInt16} :
    ofFront buffer = .error (.protocolNotModbus protocol) ↔
      protocol ≠ 0 ∧ ∃ length, HasHeader buffer protocol length := by
  cases front_cases buffer with
  | short hlen => simp [ofFront_short hlen, not_hasHeader_short hlen]
  | foreign hp =>
    rw [ofFront_foreign hp]
    simp only [hasHeader_cons_iff]
    constructor
    · intro h
      cases h
      exact ⟨hp, _, rfl, rfl⟩
    · rintro ⟨-, _, rfl, -⟩
      rfl
  | invalid hp hl => simp [ofFront_invalid hp hl, hasHeader_cons_iff, hp]
  | incomplete hp hl hlen => simp [ofFront_incomplete hp hl hlen, hasHeader_cons_iff, hp]
  | complete hp hl hlen => simp [ofFront_complete hp hl hlen, hasHeader_cons_iff, hp]

theorem ofFront_eq_lengthField_iff {length : UInt16} :
    ofFront buffer = .error (.lengthField length) ↔
      HasHeader buffer 0 length ∧ (length.toNat < 2 ∨ 254 < length.toNat) := by
  cases front_cases buffer with
  | short hlen => simp [ofFront_short hlen, not_hasHeader_short hlen]
  | foreign hp => simp [ofFront_foreign hp, hasHeader_cons_iff, Ne.symm hp]
  | invalid hp hl =>
    rw [ofFront_invalid hp hl, hasHeader_cons_iff]
    constructor
    · intro h
      cases h
      exact ⟨⟨hp.symm, rfl⟩, hl⟩
    · rintro ⟨⟨-, rfl⟩, -⟩
      rfl
  | incomplete hp hl hlen =>
    rw [ofFront_incomplete hp hl hlen, hasHeader_cons_iff]
    refine iff_of_false nofun ?_
    rintro ⟨⟨-, rfl⟩, hout⟩
    omega
  | complete hp hl hlen =>
    rw [ofFront_complete hp hl hlen, hasHeader_cons_iff]
    refine iff_of_false nofun ?_
    rintro ⟨⟨-, rfl⟩, hout⟩
    omega

/-- What is neither a frame nor refused is waited on. -/
theorem ofFront_eq_none_iff :
    ofFront buffer = .ok none ↔
      (∀ frame : Frame, frame.wire <+: buffer → ¬ Device.Carried frame.pdu) ∧
      ∀ protocol length, HasHeader buffer protocol length →
        protocol = 0 ∧ 2 ≤ length.toNat ∧ length.toNat ≤ 254 := by
  constructor
  · intro h
    refine ⟨fun frame hwire hpdu => ?_, fun protocol length hheader => ?_⟩
    · cases h.symm.trans (ofFront_eq_some_iff.mpr ⟨hwire, hpdu, rfl⟩)
    · have hprotocol : protocol = 0 := Decidable.byContradiction fun hne => by
        cases h.symm.trans (ofFront_eq_foreign_iff.mpr ⟨hne, length, hheader⟩)
      subst hprotocol
      refine ⟨rfl, ?_⟩
      refine Decidable.byContradiction fun hout => ?_
      cases h.symm.trans (ofFront_eq_lengthField_iff.mpr ⟨hheader, by omega⟩)
  · rintro ⟨hframe, hheader⟩
    cases hfront : ofFront buffer with
    | ok found =>
      rcases found with _ | ⟨frame, length⟩
      · rfl
      · obtain ⟨hwire, hpdu, -⟩ := ofFront_eq_some_iff.mp hfront
        exact absurd hpdu (hframe frame hwire)
    | error cause =>
      obtain ⟨protocol, rfl⟩ | ⟨length, rfl⟩ := cause_of_ofFront hfront
      · obtain ⟨hne, length, hhas⟩ := ofFront_eq_foreign_iff.mp hfront
        exact absurd (hheader protocol length hhas).1 hne
      · obtain ⟨hhas, hout⟩ := ofFront_eq_lengthField_iff.mp hfront
        have := (hheader 0 length hhas).2
        omega

end Front

/-! ## A buffer as a whole -/

theorem ofWire_eq_ok_iff {bytes : Bytes} {frame : Frame} :
    ofWire bytes = .ok frame ↔ bytes = frame.wire ∧ frame.pdu.length ≤ 65534 := by
  constructor
  · intro h
    unfold ofWire at h
    split at h
    · next t1 t0 p1 p0 l1 l0 unit pdu =>
      simp only at h
      split at h
      · cases h
      · next hp =>
        split at h
        · cases h
        · next hl =>
          have hlength := Decidable.not_not.mp hl
          have hfield := (word l1 l0).toNat_lt
          cases h
          exact ⟨eq_wire_of_header (Decidable.not_not.mp hp) hlength, by simp only; omega⟩
    · cases h
  · rintro ⟨rfl, hlen⟩
    rw [wire_eq, ofWire]
    simp only [word_wordBytes, toNat_toUInt16 (show frame.pdu.length + 1 < 65536 by omega)]
    rw [if_neg (not_not_intro (by decide)), if_neg (not_not_intro rfl)]

/-- A length that its field cannot hold is not the length of the frame. -/
theorem ofWire_wire_long {frame : Frame} (h : 65534 < frame.pdu.length) :
    ofWire frame.wire =
      .error (.lengthMismatch ((frame.pdu.length + 1) % 65536) (frame.pdu.length + 1)) := by
  have hfield : (frame.pdu.length + 1).toUInt16.toNat = (frame.pdu.length + 1) % 65536 := rfl
  have hcut : (frame.pdu.length + 1) % 65536 ≠ frame.pdu.length + 1 := by omega
  rw [wire_eq, ofWire]
  simp only [word_wordBytes, hfield]
  rw [if_neg (not_not_intro (by decide)), if_pos hcut]

/-- Reading the front of a buffer accepts the wire forms of frames with a PDU of 1 to 253 bytes and
nothing else, refuses a whole header for its protocol or its length only, and waits on all other
buffers. A verdict stands whatever follows. A buffer as a whole is read as a frame if and only if it
is the wire form of the frame and the length field can hold its length. -/
theorem ofFront_grammar (buffer : Bytes) :
    (∀ frame length, ofFront buffer = .ok (some (frame, length)) ↔
      frame.wire <+: buffer ∧ (1 ≤ frame.pdu.length ∧ frame.pdu.length ≤ 253) ∧
        length = 7 + frame.pdu.length) ∧
    (∀ protocol, ofFront buffer = .error (.protocolNotModbus protocol) ↔
      protocol ≠ 0 ∧ ∃ length, HasHeader buffer protocol length) ∧
    (∀ length, ofFront buffer = .error (.lengthField length) ↔
      HasHeader buffer 0 length ∧ (length.toNat < 2 ∨ 254 < length.toNat)) ∧
    (ofFront buffer = .ok none ↔
      (∀ frame : Frame, frame.wire <+: buffer →
        ¬ (1 ≤ frame.pdu.length ∧ frame.pdu.length ≤ 253)) ∧
      ∀ protocol length, HasHeader buffer protocol length →
        protocol = 0 ∧ 2 ≤ length.toNat ∧ length.toNat ≤ 254) ∧
    (∀ cause, ofFront buffer = .error cause →
      (∃ protocol, cause = .protocolNotModbus protocol) ∨ ∃ length, cause = .lengthField length) ∧
    (∀ more, ofFront buffer ≠ .ok none → ofFront (buffer ++ more) = ofFront buffer) ∧
    (∀ frame, ofWire buffer = .ok frame ↔ buffer = frame.wire ∧ frame.pdu.length ≤ 65534) ∧
    ∀ frame : Frame, 65534 < frame.pdu.length → ofWire frame.wire =
      .error (.lengthMismatch ((frame.pdu.length + 1) % 65536) (frame.pdu.length + 1)) :=
  ⟨fun _ _ => ofFront_eq_some_iff, fun _ => ofFront_eq_foreign_iff,
    fun _ => ofFront_eq_lengthField_iff, ofFront_eq_none_iff, fun _ => cause_of_ofFront,
    fun more hne => ofFront_append rfl hne more, fun _ => ofWire_eq_ok_iff,
    fun _ => ofWire_wire_long⟩

end Frame

end Modbus.Tcp
