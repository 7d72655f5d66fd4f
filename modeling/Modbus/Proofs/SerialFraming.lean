import Modbus.Proofs.Packing
import Modbus.Serial.Station

/-! Frames on a serial line carry no length of their own, but a request that is
`Delimited` tells by its fields how long it is, and so does a response that is
`DelimitedResponse`. Such a frame is found at the front of a buffer whatever
follows it, and no part of it is taken for a frame or for garbage. -/

namespace Modbus.Serial

/-- Requests whose fields tell their length. -/
inductive Delimited : Bytes → Prop where
  | plain {code : UInt8} {fields : Bytes} (hcode : 0x01 ≤ code ∧ code ≤ 0x06)
    (hlen : fields.length = 4) : Delimited (code :: fields)
  | counted {code a1 a0 q1 q0 count : UInt8} {values : Bytes} (hcode : code = 0x0F ∨ code = 0x10)
    (hlen : values.length = count.toNat) :
    Delimited (code :: a1 :: a0 :: q1 :: q0 :: count :: values)
  | record {count : UInt8} {fields : Bytes} (hlen : fields.length = count.toNat) :
    Delimited (0x15 :: count :: fields)

/-- Responses whose fields tell their length. -/
inductive DelimitedResponse : Bytes → Prop where
  | counted {code count : UInt8} {values : Bytes}
    (hcode : 0x01 ≤ code ∧ code ≤ 0x04 ∨ code = 0x15) (hlen : values.length = count.toNat) :
    DelimitedResponse (code :: count :: values)
  | plain {code : UInt8} {fields : Bytes}
    (hcode : code = 0x05 ∨ code = 0x06 ∨ code = 0x0F ∨ code = 0x10) (hlen : fields.length = 4) :
    DelimitedResponse (code :: fields)
  | exception {code cause : UInt8} (hcode : 0x81 ≤ code) : DelimitedResponse [code, cause]

/-- Behind a unit, the length of the PDU is known whatever follows it. -/
def Direction.Tells (direction : Direction) (pdu : Bytes) : Prop :=
  ∀ unit rest, direction.pduLength (unit :: (pdu ++ rest)) = .ok (some pdu.length)

/-- How the length of a PDU follows from what is behind its function code. -/
inductive LengthRule where
  | fixed (length : Nat)
  /-- The field at the index tells how many bytes there are behind it. -/
  | counted (index : Nat)
  | unknown (code : UInt8)

namespace LengthRule

def apply : LengthRule → Bytes → Except ProtocolError (Option Nat)
  | .fixed length, _ => .ok (some length)
  | .counted index, fields => .ok (fields[index]?.map (index + 2 + ·.toNat))
  | .unknown code, _ => .error (.functionCode code)

/-- A length that one of the fields tells is not known before that field is there. -/
theorem apply_prefix {rule : LengthRule} {fields more : Bytes} {length : Nat}
    (h : rule.apply (fields ++ more) = .ok (some length)) :
    rule.apply fields = .ok none ∨ rule.apply fields = .ok (some length) := by
  cases rule with
  | fixed => exact .inr h
  | counted index =>
    by_cases hi : index < fields.length
    · rw [apply, List.getElem?_append_left hi] at h
      exact .inr h
    · rw [apply, List.getElem?_eq_none (Nat.le_of_not_lt hi)]
      exact .inl rfl
  | unknown => cases h

end LengthRule

def Direction.rule : Direction → UInt8 → LengthRule
  | .request, code =>
    if 0x01 ≤ code ∧ code ≤ 0x06 then .fixed 5
    else if code = 0x0F ∨ code = 0x10 then .counted 4
    else if code = 0x15 then .counted 0
    else .unknown code
  | .response, code =>
    if 0x01 ≤ code ∧ code ≤ 0x04 ∨ code = 0x15 then .counted 0
    else if code = 0x05 ∨ code = 0x06 ∨ code = 0x0F ∨ code = 0x10 then .fixed 5
    else if 0x81 ≤ code then .fixed 2
    else .unknown code

theorem Direction.pduLength_cons (direction : Direction) (unit code : UInt8) (fields : Bytes) :
    direction.pduLength (unit :: code :: fields) = (direction.rule code).apply fields := by
  cases direction with
  | request =>
    simp only [pduLength, requestLength, rule]
    repeat' split
    all_goals simp [LengthRule.apply]
  | response =>
    simp only [pduLength, responseLength, rule]
    repeat' split
    all_goals simp [LengthRule.apply]

theorem Direction.pduLength_short (direction : Direction) {bytes : Bytes} (h : bytes.length < 2) :
    direction.pduLength bytes = .ok none := by
  match bytes, h with
  | [], _ | [_], _ => cases direction <;> rfl

/-- The length of a PDU is told by some of its first bytes, and nothing else is before. -/
theorem Direction.pduLength_prefix (direction : Direction) {buffer more : Bytes} {length : Nat}
    (h : direction.pduLength (buffer ++ more) = .ok (some length)) :
    direction.pduLength buffer = .ok none ∨ direction.pduLength buffer = .ok (some length) := by
  rcases buffer with _ | ⟨unit, _ | ⟨code, fields⟩⟩
  · exact .inl (direction.pduLength_short (by decide))
  · exact .inl (direction.pduLength_short Nat.one_lt_two)
  · rw [List.cons_append, List.cons_append, pduLength_cons] at h
    rw [pduLength_cons]
    exact LengthRule.apply_prefix h

theorem Direction.tells_of_fixed {direction : Direction} {code : UInt8} {fields : Bytes}
    (h : direction.rule code = .fixed (fields.length + 1)) : direction.Tells (code :: fields) := by
  intro unit rest
  rw [List.cons_append, pduLength_cons, h]
  rfl

theorem Direction.tells_of_counted {direction : Direction} {code count : UInt8}
    {before values : Bytes} (h : direction.rule code = .counted before.length)
    (hlen : values.length = count.toNat) :
    direction.Tells (code :: (before ++ count :: values)) := by
  intro unit rest
  have hcount : (before ++ count :: values ++ rest)[before.length]? = some count := by
    rw [List.append_assoc, List.getElem?_append_right (Nat.le_refl _), Nat.sub_self]
    rfl
  have hlength : before.length + 2 + count.toNat = (code :: (before ++ count :: values)).length := by
    simp only [List.length_cons, List.length_append]
    omega
  rw [List.cons_append, pduLength_cons, h, LengthRule.apply, hcount, ← hlength]
  rfl

theorem Delimited.tells {pdu : Bytes} (h : Delimited pdu) : Direction.request.Tells pdu := by
  cases h with
  | plain hcode hlen =>
    apply Direction.tells_of_fixed
    rw [hlen]
    exact if_pos hcode
  | @counted code a1 a0 q1 q0 count values hcode hlen =>
    have hrule : Direction.request.rule code = .counted [a1, a0, q1, q0].length := by
      rcases hcode with rfl | rfl <;> rfl
    exact Direction.tells_of_counted hrule hlen
  | record hlen =>
    have hrule : Direction.request.rule 0x15 = .counted ([] : Bytes).length := rfl
    exact Direction.tells_of_counted hrule hlen

theorem DelimitedResponse.tells {pdu : Bytes} (h : DelimitedResponse pdu) :
    Direction.response.Tells pdu := by
  cases h with
  | @counted code _ _ hcode hlen =>
    have hrule : Direction.response.rule code = .counted ([] : Bytes).length := if_pos hcode
    exact Direction.tells_of_counted hrule hlen
  | plain hcode hlen =>
    apply Direction.tells_of_fixed
    rw [hlen]
    rcases hcode with rfl | rfl | rfl | rfl <;> rfl
  | @exception code cause hcode =>
    apply Direction.tells_of_fixed
    have hhigh : 0x81 ≤ code.toNat := UInt8.le_iff_toNat_le.mp hcode
    have hcounted : ¬ (0x01 ≤ code ∧ code ≤ 0x04 ∨ code = 0x15) := by
      rintro (⟨-, hle⟩ | rfl)
      · have hle : code.toNat ≤ 4 := UInt8.le_iff_toNat_le.mp hle
        omega
      · exact absurd hcode (by decide)
    have hplain : ¬ (code = 0x05 ∨ code = 0x06 ∨ code = 0x0F ∨ code = 0x10) := by
      rintro (rfl | rfl | rfl | rfl) <;> exact absurd hcode (by decide)
    rw [Direction.rule, if_neg hcounted, if_neg hplain, if_pos hcode]
    rfl

theorem Direction.Tells.ne_nil {direction : Direction} {pdu : Bytes} (h : direction.Tells pdu) :
    pdu ≠ [] := by
  rintro rfl
  have hnone : direction.pduLength [0] = .ok none := by cases direction <;> rfl
  cases hnone.symm.trans (h 0 [])

namespace Frame

theorem wire_eq (frame : Frame) :
    frame.wire = frame.unit :: (frame.pdu ++ checksumBytes (frame.unit :: frame.pdu)) := rfl

theorem ofWire_wire {frame : Frame} (h : frame.pdu ≠ []) : ofWire frame.wire = .ok frame := by
  obtain ⟨unit, pdu⟩ := frame
  cases pdu with
  | nil => exact absurd rfl h
  | cons code data =>
    have hlen : (wire ⟨unit, code :: data⟩).length - 2 = (unit :: code :: data).length := by
      rw [length_wire]
      rfl
    rw [ofWire, hlen, List.splitAt_eq, wire, List.take_left, List.drop_left]
    simp [checksumBytes, wordBytes]

/-- A frame at the front of a buffer is found whatever follows it. -/
theorem ofFront_wire_append {frame : Frame} (h : frame.pdu ≠ []) (rest : Bytes) :
    ofFront (frame.wire ++ rest) frame.pdu.length = .ok (some frame) := by
  have hlen := length_wire frame
  have hne : (frame.wire ++ rest).isEmpty = false := rfl
  rw [ofFront, hne, if_neg (by decide), if_neg, ← hlen, List.take_left, ofWire_wire h]
  · rfl
  · rw [List.length_append, hlen]
    omega

end Frame

theorem decode_of_frameAt {direction : Direction} {buffer : Bytes} {found : Option Located}
    (hlen : 2 ≤ buffer.length) (h : frameAt direction 0 buffer = .ok found) :
    decode direction buffer = .ok found := by
  rcases buffer with _ | ⟨first, _ | ⟨second, rest⟩⟩
  · simp at hlen
  · simp at hlen
  · rw [decode, if_neg (Nat.not_lt.mpr hlen), find, if_neg (by simp), scan, h]

/-- A frame at the front of some bytes is found whatever follows it. -/
theorem frameAt_append {direction : Direction} {frame : Frame} (h : direction.Tells frame.pdu)
    (start : Nat) (rest : Bytes) :
    frameAt direction start (frame.wire ++ rest) =
      .ok (some ⟨frame, start, frame.wire.length⟩) := by
  have hlength : direction.pduLength (frame.wire ++ rest) = .ok (some frame.pdu.length) := by
    rw [Frame.wire_eq, List.cons_append, List.append_assoc]
    exact h _ _
  simp only [frameAt, hlength, Frame.ofFront_wire_append h.ne_nil, Frame.length_wire]
  rfl

theorem decode_append {direction : Direction} {frame : Frame} (h : direction.Tells frame.pdu)
    (rest : Bytes) :
    decode direction (frame.wire ++ rest) = .ok (some ⟨frame, 0, frame.wire.length⟩) := by
  apply decode_of_frameAt
  · rw [List.length_append, Frame.length_wire, Frame.overhead]
    omega
  · exact frameAt_append h 0 rest

/-- Less than a frame is kept until there is more. -/
theorem decode_take {direction : Direction} {frame : Frame} (h : direction.Tells frame.pdu)
    {n : Nat} (hn : n < frame.wire.length) :
    decode direction (frame.wire.take n) = .ok none := by
  have hlen := Frame.length_wire frame
  have hlength : direction.pduLength (frame.wire.take n ++ frame.wire.drop n) =
      .ok (some frame.pdu.length) := by
    rw [List.take_append_drop]
    exact h _ _
  by_cases hshort : (frame.wire.take n).length < 2
  · rw [decode, if_pos hshort]
  · apply decode_of_frameAt (Nat.le_of_not_lt hshort)
    rcases direction.pduLength_prefix hlength with hnone | hsome
    · simp only [frameAt, hnone]
    · have hfront : Frame.ofFront (frame.wire.take n) frame.pdu.length = .ok none := by
        have hne : ¬ (frame.wire.take n).isEmpty := by
          rw [List.isEmpty_iff]
          intro hnil
          exact hshort (by simp [hnil])
        rw [Frame.ofFront, if_neg hne, if_pos]
        rw [List.length_take]
        omega
      simp only [frameAt, hsome, hfront]
      rfl

end Modbus.Serial
