import Modbus.Bits

/-!
Sixteen bit words on the wire, high byte first. A coil that is written alone
travels as a word too.
-/

namespace Modbus

def word (high low : UInt8) : UInt16 := high.toUInt16 <<< 8 ||| low.toUInt16

def wordBytes (w : UInt16) : Bytes := [(w >>> 8).toUInt8, w.toUInt8]

namespace Words

def bytes (words : List UInt16) : Bytes := words.flatMap wordBytes

/-- The words of the byte pairs; an odd byte at the end is dropped. -/
def ofPairs : Bytes → List UInt16
  | high :: low :: rest => word high low :: ofPairs rest
  | _ => []

def ofBytes? (bytes : Bytes) : Except ProtocolError (List UInt16) :=
  if bytes.length % 2 ≠ 0 then .error .bufferSize else .ok (ofPairs bytes)

theorem length_bytes (words : List UInt16) : (bytes words).length = 2 * words.length := by
  induction words with
  | nil => rfl
  | cons w words ih => simp_all [bytes, wordBytes]; omega

end Words

/-- The word that stands for a single coil. -/
def coilWord (state : Bool) : UInt16 := if state then 0xFF00 else 0x0000

def coilState? (value : UInt16) : Except ProtocolError Bool :=
  if value = 0xFF00 then .ok true
  else if value = 0x0000 then .ok false
  else .error (.coilValue value)

end Modbus
