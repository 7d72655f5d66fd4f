import Modbus.Proofs.AnswerDelimiting
import Modbus.Proofs.GivingUp

/-! What a decoder finds in a buffer, said without the decoder. A frame stands
in front of some bytes if its PDU tells its length, or if the checksum at their
end closes it. The decoder finds the `FirstFrame`: one that stands behind
garbage only, where nothing stands and nothing begins. -/

namespace Modbus.Serial

/-- A whole frame stands at the front of the bytes. One whose length is not known takes up all of
them. -/
inductive InFront (direction : Direction) : Bytes → Frame → Prop where
  | delimited {frame : Frame} (hpdu : direction.Delimits frame.pdu) (rest : Bytes) :
    InFront direction (frame.wire ++ rest) frame
  | closed {unit code : UInt8} {data : Bytes} (hcode : direction.rule code = .unknown code) :
    InFront direction (Frame.wire ⟨unit, code :: data⟩) ⟨unit, code :: data⟩

/-- Neither a frame nor the beginning of one. -/
def Garbage (direction : Direction) (bytes : Bytes) : Prop :=
  ¬ Begins direction bytes ∧ ∀ frame, ¬ InFront direction bytes frame

/-- The frame that stands at an offset, with garbage at all offsets before. -/
inductive FirstFrame (direction : Direction) : Bytes → Nat → Frame → Prop where
  | here {bytes : Bytes} {frame : Frame} (hfront : InFront direction bytes frame) :
    FirstFrame direction bytes 0 frame
  | behind {byte : UInt8} {bytes : Bytes} {offset : Nat} {frame : Frame}
    (hgarbage : Garbage direction (byte :: bytes))
    (hrest : FirstFrame direction bytes offset frame) :
    FirstFrame direction (byte :: bytes) (offset + 1) frame

variable {direction : Direction}

/-! ## One position -/

theorem InFront.pdu_ne_nil {bytes : Bytes} {frame : Frame} (h : InFront direction bytes frame) :
    frame.pdu ≠ [] := by
  cases h with
  | delimited hpdu rest => exact hpdu.tells.ne_nil
  | closed hcode => simp

theorem InFront.length_le {bytes : Bytes} {frame : Frame} (h : InFront direction bytes frame) :
    frame.wire.length ≤ bytes.length := by
  cases h with
  | delimited hpdu rest => simp
  | closed hcode => exact Nat.le_refl _

theorem InFront.two_le {bytes : Bytes} {frame : Frame} (h : InFront direction bytes frame) :
    2 ≤ bytes.length := by
  have hle := h.length_le
  rw [Frame.length_wire, Frame.overhead] at hle
  omega

theorem InFront.frameAt {bytes : Bytes} {frame : Frame} (h : InFront direction bytes frame)
    (start : Nat) :
    frameAt direction start bytes = .ok (some ⟨frame, start, frame.wire.length⟩) := by
  cases h with
  | delimited hpdu rest => exact frameAt_append hpdu.tells start rest
  | @closed unit code data hcode =>
    have hlength : direction.pduLength (Frame.wire ⟨unit, code :: data⟩) =
        .error (.functionCode code) := by
      rw [Frame.wire_eq, List.cons_append, Direction.pduLength_cons, hcode]
      rfl
    have hwire : Frame.ofWire (Frame.wire ⟨unit, code :: data⟩) = .ok ⟨unit, code :: data⟩ :=
      Frame.ofWire_wire (List.cons_ne_nil code data)
    simp only [Serial.frameAt, hlength, hwire]

theorem inFront_of_frameAt {start : Nat} {bytes : Bytes} {found : Located}
    (h : frameAt direction start bytes = .ok (some found)) :
    InFront direction bytes found.frame := by
  obtain ⟨-, hpdu, hsize, before, rest, hbytes, hbefore⟩ := within_of_frameAt h
  obtain rfl : before = [] := List.length_eq_zero_iff.mp hbefore.symm
  rw [List.nil_append] at hbytes
  obtain ⟨⟨unit, pdu⟩, at_, size⟩ := found
  cases pdu with
  | nil => exact absurd rfl hpdu
  | cons code data =>
    have hcons : bytes =
        unit :: code :: (data ++ (checksumBytes (unit :: code :: data) ++ rest)) := by
      rw [hbytes, Frame.wire_eq]
      simp
    rcases pduLength_of_frameAt h with ⟨length, hlength, hlen⟩ | ⟨cause, herror⟩
    · have hpdulen : length = data.length + 1 := by
        have hwire : (Frame.mk unit (code :: data)).wire.length = data.length + 1 + 3 :=
          Frame.length_wire _
        simp only [Frame.overhead] at hsize hlen
        omega
      rw [hcons, Direction.pduLength_cons, hpdulen] at hlength
      rw [hbytes]
      exact .delimited (Direction.delimits_of_rule hlength) rest
    · have hread : Frame.ofWire bytes = .ok ⟨unit, code :: data⟩ := by
        simp only [Serial.frameAt, herror] at h
        split at h
        · next frame hframe =>
          cases h
          exact hframe
        · cases h
      rw [hcons, Direction.pduLength_cons] at herror
      rw [← (Frame.wire_of_ofWire hread).1]
      exact .closed (Direction.rule_of_error herror)

/-- What fails at a position is garbage. -/
theorem garbage_of_frameAt {start : Nat} {bytes : Bytes} {cause : ProtocolError}
    (h : frameAt direction start bytes = .error cause) : Garbage direction bytes := by
  constructor
  · intro hbegins
    cases h.symm.trans (hbegins.frameAt start)
  · intro frame hfront
    cases h.symm.trans (hfront.frameAt start)

theorem Garbage.frameAt {bytes : Bytes} (h : Garbage direction bytes) (start : Nat) :
    ∃ cause, frameAt direction start bytes = .error cause := by
  cases hfront : Serial.frameAt direction start bytes with
  | error cause => exact ⟨cause, rfl⟩
  | ok found =>
    cases found with
    | none => exact absurd (begins_of_frameAt hfront) h.1
    | some found => exact absurd (inFront_of_frameAt hfront) (h.2 found.frame)

/-! ## The search -/

theorem firstFrame_of_scan {start : Nat} (hstart : start < maxFrameLength) {bytes : Bytes}
    {found : Located} (h : scan direction start bytes = .ok (some found)) :
    ∃ offset, found.start = start + offset ∧ found.start < maxFrameLength ∧
      FirstFrame direction bytes offset found.frame := by
  fun_induction scan direction start bytes with
  | case1 => cases h
  | case2 => cases h
  | case3 start byte next rest located hfront =>
    rw [h] at hfront
    have hat := (within_of_frameAt hfront).1
    exact ⟨0, hat, hat ▸ hstart, .here (inFront_of_frameAt hfront)⟩
  | case4 => cases h
  | case5 start byte next rest cause hfront hmax ih =>
    obtain ⟨offset, hat, hbound, hfirst⟩ := ih (Nat.lt_of_not_le hmax) h
    exact ⟨offset + 1, by omega, hbound, .behind (garbage_of_frameAt hfront) hfirst⟩

theorem FirstFrame.offset_lt {bytes : Bytes} {offset : Nat} {frame : Frame}
    (h : FirstFrame direction bytes offset frame) :
    offset + frame.wire.length ≤ bytes.length := by
  induction h with
  | here hfront =>
    have := hfront.length_le
    omega
  | behind hgarbage hrest ih =>
    rw [List.length_cons]
    omega

theorem FirstFrame.scan {bytes : Bytes} {offset : Nat} {frame : Frame}
    (h : FirstFrame direction bytes offset frame) {start : Nat}
    (hstart : start + offset < maxFrameLength) :
    scan direction start bytes = .ok (some ⟨frame, start + offset, frame.wire.length⟩) := by
  induction h generalizing start with
  | here hfront => exact scan_of_ok hfront.two_le (hfront.frameAt start)
  | @behind byte bytes offset frame hgarbage hrest ih =>
    obtain ⟨cause, herror⟩ := hgarbage.frameAt start
    have hne : bytes ≠ [] := by
      rintro rfl
      have := hrest.offset_lt
      rw [Frame.length_wire, Frame.overhead, List.length_nil] at this
      omega
    rw [maxFrameLength] at hstart
    rw [scan_of_error hne (by omega) herror, ih (by rw [maxFrameLength]; omega),
      Nat.add_assoc, Nat.add_comm 1 offset]

/-- The decoder finds the first frame, if that is no further behind than a frame is long. -/
theorem decode_eq_some_iff {buffer : Bytes} {found : Located} :
    decode direction buffer = .ok (some found) ↔
      FirstFrame direction buffer found.start found.frame ∧ found.start < maxFrameLength ∧
        found.size = found.frame.wire.length := by
  constructor
  · intro h
    have hsize := (within_of_decode h).size_eq
    have hlen : 2 ≤ buffer.length := by
      refine Nat.le_of_not_lt fun hshort => ?_
      rw [decode, if_pos hshort] at h
      cases h
    rw [decode_eq_scan hlen] at h
    obtain ⟨offset, hat, hbound, hfirst⟩ := firstFrame_of_scan (by decide) h
    rw [Nat.zero_add] at hat
    exact ⟨hat ▸ hfirst, hbound, hsize⟩
  · rintro ⟨hfirst, hstart, hsize⟩
    have hlen : 2 ≤ buffer.length := by
      have := hfirst.offset_lt
      rw [Frame.length_wire, Frame.overhead] at this
      omega
    rw [decode_eq_scan hlen, hfirst.scan (by rwa [Nat.zero_add]), Nat.zero_add, ← hsize]

/-- In a buffer no longer than a frame, the decoder finds the first frame or waits for more. -/
theorem decode_eq_none_iff {buffer : Bytes} (hlen : buffer.length ≤ maxFrameLength) :
    decode direction buffer = .ok none ↔
      ∀ offset frame, ¬ FirstFrame direction buffer offset frame := by
  constructor
  · intro h offset frame hfirst
    have hoffset := hfirst.offset_lt
    rw [Frame.length_wire, Frame.overhead] at hoffset
    have hbound : offset < maxFrameLength := by omega
    have hfound : decode direction buffer = .ok (some ⟨frame, offset, frame.wire.length⟩) :=
      decode_eq_some_iff.mpr ⟨hfirst, hbound, rfl⟩
    cases h.symm.trans hfound
  · intro h
    cases hdecode : decode direction buffer with
    | error cause =>
      have := (decode_eq_error hdecode).1
      omega
    | ok found =>
      cases found with
      | none => rfl
      | some found => exact absurd (decode_eq_some_iff.mp hdecode).1 (h _ _)

end Modbus.Serial
