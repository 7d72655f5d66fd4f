import Modbus.Serial.Frame

/-!
Finding frames among received bytes. The length of a standard PDU follows
from its first bytes; a user defined function is only delimited by the end of
the buffer and the checksum. Leading bytes that start no frame are skipped.
-/

namespace Modbus.Serial

inductive Direction where
  | request
  | response
  deriving DecidableEq, Repr

/-- The length of the request PDU behind a unit; none while the bytes that tell it are missing. -/
def requestLength : Bytes → Except ProtocolError (Option Nat)
  | _ :: code :: fields =>
    if 0x01 ≤ code ∧ code ≤ 0x06 then .ok (some 5)
    else if code = 0x0F ∨ code = 0x10 then .ok (fields[4]?.map (6 + ·.toNat))
    else if code = 0x15 then .ok (fields[0]?.map (2 + ·.toNat))
    else .error (.functionCode code)
  | _ => .ok none

def responseLength : Bytes → Except ProtocolError (Option Nat)
  | _ :: code :: fields =>
    if 0x01 ≤ code ∧ code ≤ 0x04 ∨ code = 0x15 then .ok (fields[0]?.map (2 + ·.toNat))
    else if code = 0x05 ∨ code = 0x06 ∨ code = 0x0F ∨ code = 0x10 then .ok (some 5)
    else if 0x81 ≤ code then .ok (some 2)
    else .error (.functionCode code)
  | _ => .ok none

def Direction.pduLength : Direction → Bytes → Except ProtocolError (Option Nat)
  | .request => requestLength
  | .response => responseLength

structure Located where
  frame : Frame
  start : Nat
  size : Nat
  deriving DecidableEq, Repr

namespace Located

def stop (located : Located) : Nat := located.start + located.size

end Located

/-- The frame at the front of the bytes from offset `start` on; none while it is incomplete. -/
def frameAt (direction : Direction) (start : Nat) (bytes : Bytes) :
    Except ProtocolError (Option Located) :=
  match direction.pduLength bytes with
  | .ok none => .ok none
  | .ok (some length) => do
    let frame? ← Frame.ofFront bytes length
    return frame?.map (⟨·, start, length + Frame.overhead⟩)
  | .error unknown =>
    match Frame.ofWire bytes with
    | .ok frame => .ok (some ⟨frame, start, bytes.length⟩)
    | .error _ => .error unknown

/-- Tries one offset after the other, and gives up where no frame could have been so long. -/
def scan (direction : Direction) (start : Nat) : Bytes → Except ProtocolError (Option Located)
  | [] | [_] => .ok none
  | byte :: next :: rest =>
    match frameAt direction start (byte :: next :: rest) with
    | .ok found => .ok found
    | .error cause =>
      if maxFrameLength ≤ start + 1 then .error cause
      else scan direction (start + 1) (next :: rest)

/-- The first frame in a buffer that is not empty; none while it may still be completed. -/
def find (direction : Direction) (buffer : Bytes) : Except ProtocolError (Option Located) :=
  if buffer.isEmpty then .error .bufferSize else scan direction 0 buffer

/-- As `find`, but there is nothing wrong with an empty buffer. -/
def decode (direction : Direction) (buffer : Bytes) : Except ProtocolError (Option Located) :=
  if buffer.length < 2 then .ok none else find direction buffer

end Modbus.Serial
