import Modbus.Proofs.FrameSearch

/-! What a search comes to on any bytes at all. A frame that is found stands at
its place, and no valid frame begins before it. The search fails only where it
has tried as many places as the longest frame has bytes, and none of them begins
a valid frame. Where it waits, a frame has begun that may still be completed. -/

namespace Modbus.Serial

variable {direction : Direction}

/-- The bytes end with the checksum over those before it. -/
def Sealed (bytes : Bytes) : Prop := ∃ body : Bytes, bytes = body ++ checksumBytes body

/-- The bytes begin a valid frame: the length that they tell is there and sealed, or no length is
known for their function code and they are sealed as a whole. -/
inductive ValidFront (direction : Direction) (bytes : Bytes) : Prop where
  | told {length : Nat} (hlength : direction.pduLength bytes = .ok (some length))
    (hthere : length + Frame.overhead ≤ bytes.length)
    (hsealed : Sealed (bytes.take (length + Frame.overhead)))
  | whole {code : UInt8} (hunknown : direction.pduLength bytes = .error (.functionCode code))
    (hlen : 4 ≤ bytes.length) (hsealed : Sealed bytes)

/-! ## Valid frames and frames -/

theorem Frame.sealed_wire (frame : Frame) : Sealed frame.wire := ⟨frame.unit :: frame.pdu, rfl⟩

/-- Sealed bytes that have room for a unit and a function code are a frame. -/
theorem Sealed.exists_ofWire {bytes : Bytes} (h : Sealed bytes) (hlen : 4 ≤ bytes.length) :
    ∃ frame, Frame.ofWire bytes = .ok frame := by
  obtain ⟨body, rfl⟩ := h
  have hchecksum : (checksumBytes body).length = 2 := rfl
  rw [List.length_append, hchecksum] at hlen
  match body with
  | [] => simp at hlen
  | [_] => simp at hlen
  | unit :: code :: data =>
    have hpdu : (Frame.mk unit (code :: data)).pdu ≠ [] := List.cons_ne_nil code data
    exact ⟨_, Frame.ofWire_wire hpdu⟩

theorem Direction.two_le_of_pduLength {bytes : Bytes} {length : Nat}
    (h : direction.pduLength bytes = .ok (some length)) : 2 ≤ length := by
  match bytes with
  | [] | [_] =>
    rw [direction.pduLength_short (by simp)] at h
    cases h
  | unit :: code :: fields =>
    rw [Direction.pduLength_cons] at h
    exact (LengthRule.bounds_of_apply (direction.small_rule code) h).1

theorem ValidFront.frameAt {bytes : Bytes} (h : ValidFront direction bytes) (start : Nat) :
    ∃ found, frameAt direction start bytes = .ok (some found) := by
  cases h with
  | @told length hlength hthere hsealed =>
    have htwo := Direction.two_le_of_pduLength hlength
    have htake : 4 ≤ (bytes.take (length + Frame.overhead)).length := by
      rw [List.length_take_of_le hthere, Frame.overhead]
      omega
    obtain ⟨frame, hframe⟩ := hsealed.exists_ofWire htake
    have hne : ¬ bytes.isEmpty := by
      rw [List.isEmpty_iff]
      rintro rfl
      simp at htake
    have hfront : Frame.ofFront bytes length = .ok (some frame) := by
      rw [Frame.ofFront, if_neg hne, if_neg (Nat.not_lt.mpr hthere), hframe]
      rfl
    simp only [Serial.frameAt, hlength, hfront]
    exact ⟨_, rfl⟩
  | whole hunknown hlen hsealed =>
    obtain ⟨frame, hframe⟩ := hsealed.exists_ofWire hlen
    simp only [Serial.frameAt, hunknown, hframe]
    exact ⟨_, rfl⟩

theorem Garbage.not_validFront {bytes : Bytes} (h : Garbage direction bytes) :
    ¬ ValidFront direction bytes := by
  intro hvalid
  obtain ⟨found, hfound⟩ := hvalid.frameAt 0
  exact h.2 found.frame (inFront_of_frameAt hfound)

theorem InFront.validFront {bytes : Bytes} {frame : Frame} (h : InFront direction bytes frame) :
    ValidFront direction bytes := by
  cases h with
  | delimited hpdu rest =>
    have hlen := Frame.length_wire frame
    have hlength : direction.pduLength (frame.wire ++ rest) = .ok (some frame.pdu.length) := by
      rw [Frame.wire_eq, List.cons_append, List.append_assoc]
      exact hpdu.tells _ _
    refine .told hlength ?_ ?_
    · rw [List.length_append, hlen]
      omega
    · rw [← hlen, List.take_left]
      exact frame.sealed_wire
  | @closed unit code data hcode =>
    have hunknown : direction.pduLength (Frame.wire ⟨unit, code :: data⟩) =
        .error (.functionCode code) := by
      rw [Frame.wire_eq, List.cons_append, Direction.pduLength_cons, hcode]
      rfl
    refine .whole hunknown ?_ (Frame.sealed_wire _)
    rw [Frame.length_wire, Frame.overhead, List.length_cons]
    omega

/-! ## The search -/

theorem FirstFrame.inFront {bytes : Bytes} {offset : Nat} {frame : Frame}
    (h : FirstFrame direction bytes offset frame) :
    InFront direction (bytes.drop offset) frame := by
  induction h with
  | here hfront => exact hfront
  | behind _ _ ih => exact ih

theorem FirstFrame.garbage {bytes : Bytes} {offset : Nat} {frame : Frame}
    (h : FirstFrame direction bytes offset frame) {earlier : Nat} (hearlier : earlier < offset) :
    Garbage direction (bytes.drop earlier) := by
  induction h generalizing earlier with
  | here => cases hearlier
  | behind hgarbage _ ih =>
    cases earlier with
    | zero => exact hgarbage
    | succ earlier => exact ih (Nat.lt_of_succ_lt_succ hearlier)

/-- Less than a unit and a function code may be the beginning of any frame. -/
theorem begins_short {bytes : Bytes} (h : bytes.length < 2) : Begins direction bytes := by
  have hnone : frameAt direction 0 bytes = .ok none := by
    rw [frameAt, direction.pduLength_short h]
  exact begins_of_frameAt hnone

/-- A scan waits at the first position that does not fail, because a frame begins there. -/
theorem scan_eq_none {start : Nat} (hstart : start < maxFrameLength) {bytes : Bytes}
    (h : scan direction start bytes = .ok none) :
    ∃ offset, start + offset < maxFrameLength ∧ Begins direction (bytes.drop offset) ∧
      ∀ earlier < offset, Garbage direction (bytes.drop earlier) := by
  fun_induction scan direction start bytes with
  | case1 => exact ⟨0, hstart, begins_short (by simp), by simp⟩
  | case2 => exact ⟨0, hstart, begins_short (by simp), by simp⟩
  | case3 start byte next rest located hfront =>
    rw [h] at hfront
    exact ⟨0, hstart, begins_of_frameAt hfront, by simp⟩
  | case4 => cases h
  | case5 start byte next rest cause hfront hmax ih =>
    -- this place fails and there is room for another one, so the place that is waited on is behind
    obtain ⟨offset, hbound, hbegins, hgarbage⟩ := ih (Nat.lt_of_not_le hmax) h
    refine ⟨offset + 1, by omega, hbegins, fun earlier hearlier => ?_⟩
    cases earlier with
    | zero => exact garbage_of_frameAt hfront
    | succ earlier => exact hgarbage earlier (Nat.lt_of_succ_lt_succ hearlier)

theorem find_eq_scan {buffer : Bytes} (hne : buffer ≠ []) :
    find direction buffer = scan direction 0 buffer := by
  rw [find, if_neg (by rwa [List.isEmpty_iff])]

/-- On a buffer that is not empty, the two searches are the same. -/
theorem find_eq_decode {buffer : Bytes} (hne : buffer ≠ []) :
    find direction buffer = decode direction buffer := by
  match buffer with
  | [] => exact absurd rfl hne
  | [_] => rfl
  | _ :: _ :: rest => rw [decode, if_neg (by simp)]

/-- A search invents no frame and skips none. What it finds stands whole in the buffer and is the
first valid frame there. It fails only on more bytes than the longest frame has, at as many places
of which no valid frame begins, and what it waits for has no valid frame before it. -/
theorem find_first_valid (direction : Direction) {buffer : Bytes} (hne : buffer ≠ []) :
    (∀ found, find direction buffer = .ok (some found) →
      found.start ≤ 255 ∧ found.start + found.size ≤ buffer.length ∧
      (buffer.drop found.start).take found.size = found.frame.wire ∧ found.frame.pdu ≠ [] ∧
      ValidFront direction (buffer.drop found.start) ∧
      ∀ offset < found.start, ¬ ValidFront direction (buffer.drop offset)) ∧
    (∀ cause, find direction buffer = .error cause →
      257 ≤ buffer.length ∧ ∀ offset ≤ 255, ¬ ValidFront direction (buffer.drop offset)) ∧
    (find direction buffer = .ok none →
      ∃ waiting ≤ 255, Begins direction (buffer.drop waiting) ∧
        ∀ offset < waiting, ¬ ValidFront direction (buffer.drop offset)) := by
  refine ⟨fun found h => ?_, fun cause h => ?_, fun h => ?_⟩
  · rw [find_eq_decode hne] at h
    obtain ⟨hfirst, hstart, hsize⟩ := decode_eq_some_iff.mp h
    obtain ⟨hpdu, -, before, rest, hbuffer, hbefore⟩ := within_of_decode h
    have hplace : (buffer.drop found.start).take found.size = found.frame.wire := by
      rw [hbuffer, hbefore, hsize, List.append_assoc, List.drop_left, List.take_left]
    refine ⟨Nat.le_of_lt_succ hstart, hsize ▸ hfirst.offset_lt, hplace, hpdu,
      hfirst.inFront.validFront, fun offset hoffset => (hfirst.garbage hoffset).not_validFront⟩
  · rw [find_eq_decode hne] at h
    obtain ⟨hlen, hfailed⟩ := decode_eq_error h
    refine ⟨hlen, fun offset hoffset => ?_⟩
    obtain ⟨failed, herror⟩ := hfailed offset (Nat.lt_succ_of_le hoffset)
    exact (garbage_of_frameAt herror).not_validFront
  · rw [find_eq_scan hne] at h
    obtain ⟨waiting, hbound, hbegins, hgarbage⟩ := scan_eq_none (by decide) h
    rw [Nat.zero_add] at hbound
    exact ⟨waiting, Nat.le_of_lt_succ hbound, hbegins,
      fun offset hoffset => (hgarbage offset hoffset).not_validFront⟩

theorem find_first_valid_behind_byte :
    let buffer : Bytes := [255, 2, 6, 0, 0, 0, 9, 73, 255, 1, 3]
    buffer ≠ [] ∧ find .request buffer = .ok (some ⟨⟨2, [6, 0, 0, 0, 9]⟩, 1, 8⟩) ∧
      ValidFront .request (buffer.drop 1) ∧ ¬ ValidFront .request buffer := by
  intro buffer
  have hne : buffer ≠ [] := List.cons_ne_nil _ _
  have hfind : find .request buffer = .ok (some ⟨⟨2, [6, 0, 0, 0, 9]⟩, 1, 8⟩) := by cbv
  obtain ⟨hfound, -⟩ := find_first_valid .request hne
  obtain ⟨-, -, -, -, hvalid, hbefore⟩ := hfound _ hfind
  exact ⟨hne, hfind, hvalid, hbefore 0 Nat.one_pos⟩

end Modbus.Serial
