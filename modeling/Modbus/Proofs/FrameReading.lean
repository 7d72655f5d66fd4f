import Modbus.Proofs.SerialFraming

/-! What is read as a frame is the wire form of that frame, and its PDU is not
empty. So wherever a scan of a buffer finds a frame, its bytes stand there. -/

namespace Modbus.Serial

namespace Frame

theorem exists_eq_append_pair {bytes : Bytes} (h : 4 ≤ bytes.length) :
    ∃ unit code data low high, bytes = unit :: code :: data ++ [low, high] := by
  have hbody : 2 ≤ (bytes.take (bytes.length - 2)).length := by
    rw [List.length_take]
    omega
  have hcheck : (bytes.drop (bytes.length - 2)).length = 2 := by
    rw [List.length_drop]
    omega
  have hsplit := List.take_append_drop (bytes.length - 2) bytes
  generalize bytes.take (bytes.length - 2) = body at hbody hsplit
  generalize bytes.drop (bytes.length - 2) = check at hcheck hsplit
  match body, check with
  | unit :: code :: data, [low, high] => exact ⟨unit, code, data, low, high, hsplit.symm⟩

/-- Four bytes are enough for a checksum to be looked at. -/
theorem ofWire_append_pair (unit code : UInt8) (data : Bytes) (low high : UInt8) :
    ofWire (unit :: code :: data ++ [low, high]) =
      if word high low = checksum (unit :: code :: data) then .ok ⟨unit, code :: data⟩
      else .error (.checksum (word high low) (checksum (unit :: code :: data))) := by
  have hlen : (unit :: code :: data ++ [low, high]).length - 2 = (unit :: code :: data).length := by
    simp
  rw [ofWire, hlen, List.splitAt_eq, List.take_left, List.drop_left]

theorem ofWire_short {bytes : Bytes} (h : bytes.length < 4) :
    ofWire bytes = .error .bufferSize := by
  match bytes, h with
  | [], _ | [_], _ | [_, _], _ | [_, _, _], _ => rfl

/-- What is read as a frame is the wire form of the frame. -/
theorem wire_of_ofWire {bytes : Bytes} {frame : Frame} (h : ofWire bytes = .ok frame) :
    frame.wire = bytes ∧ frame.pdu ≠ [] := by
  rcases Nat.lt_or_ge bytes.length 4 with hshort | hlong
  · rw [ofWire_short hshort] at h
    cases h
  · obtain ⟨unit, code, data, low, high, rfl⟩ := exists_eq_append_pair hlong
    rw [ofWire_append_pair] at h
    split at h
    · next hcheck =>
      cases h
      refine ⟨?_, List.cons_ne_nil code data⟩
      rw [wire, checksumBytes, ← hcheck, wordBytes_word]
      rfl
    · cases h

theorem length_lt_of_ofFront {bytes : Bytes} {length : Nat}
    (h : ofFront bytes length = .ok none) : bytes.length < length + overhead := by
  unfold ofFront at h
  split at h
  · cases h
  · split at h
    · assumption
    · cases hread : ofWire (bytes.take (length + overhead)) with
      | error cause => rw [hread] at h; cases h
      | ok frame => rw [hread] at h; cases h

theorem ofWire_of_ofFront {bytes : Bytes} {length : Nat} {frame : Frame}
    (h : ofFront bytes length = .ok (some frame)) :
    length + overhead ≤ bytes.length ∧ ofWire (bytes.take (length + overhead)) = .ok frame := by
  unfold ofFront at h
  split at h
  · cases h
  · split at h
    · cases h
    · next hlen =>
      cases hread : ofWire (bytes.take (length + overhead)) with
      | error cause => rw [hread] at h; cases h
      | ok read =>
        rw [hread] at h
        cases h
        exact ⟨Nat.le_of_not_lt hlen, rfl⟩

end Frame

/-- The frame stands in the buffer at the place that is told. -/
structure Located.Within (found : Located) (buffer : Bytes) : Prop where
  pdu_ne_nil : found.frame.pdu ≠ []
  size_eq : found.size = found.frame.wire.length
  split : ∃ before rest, buffer = before ++ found.frame.wire ++ rest ∧ found.start = before.length

/-- Bytes put in front of a buffer only move the frames in it. -/
theorem Located.Within.cons {frame : Frame} {start size : Nat} {buffer : Bytes}
    (h : (Located.mk frame start size).Within buffer) (byte : UInt8) :
    (Located.mk frame (start + 1) size).Within (byte :: buffer) := by
  obtain ⟨hpdu, hsize, before, rest, rfl, hstart⟩ := h
  exact ⟨hpdu, hsize, byte :: before, rest, rfl, congrArg (· + 1) hstart⟩

/-- What is waited for at a position is the field that tells the length, or the rest of a frame. -/
theorem frameAt_eq_none {direction : Direction} {start : Nat} {bytes : Bytes}
    (h : frameAt direction start bytes = .ok none) :
    direction.pduLength bytes = .ok none ∨
      ∃ length, direction.pduLength bytes = .ok (some length) ∧
        bytes.length < length + Frame.overhead := by
  unfold frameAt at h
  split at h
  · next hnone => exact .inl hnone
  · next length hlength =>
    cases hfront : Frame.ofFront bytes length with
    | error cause => rw [hfront] at h; cases h
    | ok found =>
      cases found with
      | none => exact .inr ⟨length, hlength, Frame.length_lt_of_ofFront hfront⟩
      | some frame => rw [hfront] at h; cases h
  · split at h <;> cases h

/-- A frame at a position is the front of the bytes there, or all of them. -/
theorem within_of_frameAt {direction : Direction} {start : Nat} {bytes : Bytes} {found : Located}
    (h : frameAt direction start bytes = .ok (some found)) :
    found.start = start ∧ (Located.mk found.frame 0 found.size).Within bytes := by
  unfold frameAt at h
  split at h
  · cases h
  · next length _ =>
    cases hfront : Frame.ofFront bytes length with
    | error cause => rw [hfront] at h; cases h
    | ok read =>
      rw [hfront] at h
      cases read with
      | none => cases h
      | some frame =>
        cases h
        obtain ⟨hlen, hread⟩ := Frame.ofWire_of_ofFront hfront
        obtain ⟨hwire, hpdu⟩ := Frame.wire_of_ofWire hread
        refine ⟨rfl, hpdu, ?_, [], bytes.drop (length + Frame.overhead), ?_, rfl⟩
        · change length + Frame.overhead = frame.wire.length
          rw [hwire, List.length_take_of_le hlen]
        · rw [hwire, List.nil_append, List.take_append_drop]
  · split at h
    · next frame hread =>
      cases h
      obtain ⟨hwire, hpdu⟩ := Frame.wire_of_ofWire hread
      refine ⟨rfl, hpdu, congrArg List.length hwire.symm, [], [], ?_, rfl⟩
      rw [hwire, List.nil_append, List.append_nil]
    · cases h

theorem within_of_scan {direction : Direction} {start : Nat} {bytes : Bytes} {found : Located}
    (h : scan direction start bytes = .ok (some found)) :
    ∃ offset, found.start = start + offset ∧
      (Located.mk found.frame offset found.size).Within bytes := by
  fun_induction scan direction start bytes with
  | case1 => cases h
  | case2 => cases h
  | case3 start byte next rest located hfront =>
    obtain ⟨hstart, hwithin⟩ := within_of_frameAt (hfront.trans h)
    exact ⟨0, hstart, hwithin⟩
  | case4 => cases h
  | case5 start byte next rest cause hfront hmax ih =>
    obtain ⟨offset, hstart, hwithin⟩ := ih h
    exact ⟨offset + 1, by omega, hwithin.cons byte⟩

/-- What is found in a buffer stands there. -/
theorem within_of_decode {direction : Direction} {buffer : Bytes} {found : Located}
    (h : decode direction buffer = .ok (some found)) : found.Within buffer := by
  unfold decode find at h
  split at h
  · cases h
  · split at h
    · cases h
    · obtain ⟨offset, hstart, hwithin⟩ := within_of_scan h
      rw [Nat.zero_add] at hstart
      rw [← hstart] at hwithin
      exact hwithin

end Modbus.Serial
