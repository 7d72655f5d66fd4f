import Modbus.Limits
import Modbus.Pdu.Response

/-!
Frames on a TCP connection: a PDU behind a header of transaction, protocol,
length and unit. The protocol is always zero, and the length counts the unit
and the PDU.
-/

namespace Modbus.Tcp

/-- Header bytes, the unit included. -/
def headerLength : Nat := 7

def maxFrameLength : Nat := headerLength + maxPduLength

structure Frame where
  transaction : UInt16
  unit : UInt8
  pdu : Bytes
  deriving DecidableEq, Repr

namespace Frame

/-- A length that exceeds its field is cut to the width of the field. -/
def wire (frame : Frame) : Bytes :=
  wordBytes frame.transaction ++ [0, 0] ++ wordBytes (frame.pdu.length + 1).toUInt16 ++
    frame.unit :: frame.pdu

/-- The frame that takes up all the bytes. -/
def ofWire : Bytes → Except ProtocolError Frame
  | t1 :: t0 :: p1 :: p0 :: l1 :: l0 :: unit :: pdu =>
    let length := (word l1 l0).toNat
    if word p1 p0 ≠ 0 then .error (.protocolNotModbus (word p1 p0))
    else if length ≠ pdu.length + 1 then .error (.lengthMismatch length (pdu.length + 1))
    else .ok ⟨word t1 t0, unit, pdu⟩
  | _ => .error .bufferSize

/-- The length of the whole frame, once its length field is there. -/
def announcedLength : Bytes → Option Nat
  | _ :: _ :: _ :: _ :: l1 :: l0 :: _ => some (6 + (word l1 l0).toNat)
  | _ => none

/-- The frame at the front of a buffer and its length; none while it is incomplete. A header
whose length leaves no room for a function code, or more than a PDU, is an error. -/
def ofFront (buffer : Bytes) : Except ProtocolError (Option (Frame × Nat)) :=
  match buffer with
  | _ :: _ :: p1 :: p0 :: l1 :: l0 :: _ :: _ =>
    let length := word l1 l0
    if word p1 p0 ≠ 0 then .error (.protocolNotModbus (word p1 p0))
    else if length < 2 ∨ maxPduLength + 1 < length.toNat then .error (.lengthField length)
    else if buffer.length < 6 + length.toNat then .ok none
    else (ofWire (buffer.take (6 + length.toNat))).map fun frame => some (frame, 6 + length.toNat)
  | _ => .ok none

/-- The PDU that answers a request, and the length of its frame; none while it is incomplete. -/
def response (transaction : UInt16) (unit : UInt8) (buffer : Bytes) :
    Except ProtocolError (Option (Bytes × Nat)) := do
  match ← ofFront buffer with
  | none => return none
  | some (frame, length) =>
    if frame.transaction ≠ transaction then
      throw (.transactionMismatch transaction frame.transaction)
    else if frame.unit ≠ unit then throw (.unitMismatch unit frame.unit)
    else return some (frame.pdu, length)

theorem length_wire (frame : Frame) : frame.wire.length = headerLength + frame.pdu.length := by
  simp [wire, wordBytes, headerLength]; omega

end Frame

end Modbus.Tcp
