import Modbus.Pdu.Response

/-!
Frames on a serial line: a unit, a PDU, and a checksum over both, which goes
out low byte first.
-/

namespace Modbus.Serial

/-- The longest frame that a line carries. -/
def maxFrameLength : Nat := 256

/-- One place of the shift register behind the checksum, whose polynomial is reflected. -/
def shiftChecksum (crc : UInt16) : UInt16 :=
  if crc &&& 1 = 0 then crc >>> 1 else (crc >>> 1) ^^^ 0xA001

def checksumByte (crc : UInt16) (byte : UInt8) : UInt16 :=
  Nat.repeat shiftChecksum 8 (crc ^^^ byte.toUInt16)

def checksum (bytes : Bytes) : UInt16 := bytes.foldl checksumByte 0xFFFF

def checksumBytes (bytes : Bytes) : Bytes := (wordBytes (checksum bytes)).reverse

structure Frame where
  unit : UInt8
  pdu : Bytes
  deriving DecidableEq, Repr

namespace Frame

/-- Unit and checksum. -/
def overhead : Nat := 3

def wire (frame : Frame) : Bytes :=
  let body := frame.unit :: frame.pdu
  body ++ checksumBytes body

/-- The frame that takes up all the bytes, at least a unit, a function code and a checksum. -/
def ofWire (bytes : Bytes) : Except ProtocolError Frame :=
  match bytes.splitAt (bytes.length - 2) with
  | (unit :: code :: data, [low, high]) =>
    let received := word high low
    let computed := checksum (unit :: code :: data)
    if received = computed then .ok ⟨unit, code :: data⟩
    else .error (.checksum received computed)
  | _ => .error .bufferSize

/-- The frame at the front of a buffer, for a PDU of known length; none while it is incomplete. -/
def ofFront (buffer : Bytes) (pduLength : Nat) : Except ProtocolError (Option Frame) :=
  if buffer.isEmpty then .error .bufferSize
  else if buffer.length < pduLength + overhead then .ok none
  else (ofWire (buffer.take (pduLength + overhead))).map some

theorem length_wire (frame : Frame) : frame.wire.length = frame.pdu.length + overhead := by
  simp [wire, checksumBytes, wordBytes, overhead]

end Frame

end Modbus.Serial
