import Modbus.Error

/-!
Coils on the wire: eight to a byte, the first one in the least significant
bit. The bits of the last byte that hold no coil are zero when packing and
ignored when unpacking.
-/

namespace Modbus

abbrev Bytes := List UInt8

/-- Puts `bytes` at the front of `target` and counts them; what lies behind them stays. The second
component is the target as it is in the end, in whichever way that comes. -/
def overwrite (bytes target : Bytes) : Except ProtocolError Nat × Bytes :=
  if target.length < bytes.length then (.error .bufferSize, target)
  else (.ok bytes.length, bytes ++ target.drop bytes.length)

namespace Bits

/-- The number of bytes that hold `count` coils. -/
def packedLength (count : Nat) : Nat := (count + 7) / 8

/-- The coils as the digits of a binary number, least significant first. -/
def packByte : List Bool → UInt8
  | [] => 0
  | coil :: coils => coil.toUInt8 ||| packByte coils <<< 1

def packByte? (coils : List Bool) : Except ProtocolError UInt8 :=
  if 8 < coils.length then .error .bufferSize else .ok (packByte coils)

/-- `count` bytes, each from the next eight coils. -/
def packBytes : Nat → List Bool → Bytes
  | 0, _ => []
  | count + 1, coils => packByte (coils.take 8) :: packBytes count (coils.drop 8)

def pack (coils : List Bool) : Bytes := packBytes (packedLength coils.length) coils

theorem length_packBytes (count : Nat) (coils : List Bool) :
    (packBytes count coils).length = count := by
  induction count generalizing coils with
  | zero => rfl
  | succ count ih => simp [packBytes, ih]

theorem length_pack (coils : List Bool) : (pack coils).length = packedLength coils.length :=
  length_packBytes _ _

def packInto (coils : List Bool) (target : Bytes) : Except ProtocolError Nat × Bytes :=
  overwrite (pack coils) target

def unpackByte (byte : UInt8) : List Bool := (List.range 8).map byte.toNat.testBit

/-- The coils of all bytes, those behind the last one of interest included. -/
def unpackAll (bytes : Bytes) : List Bool := bytes.flatMap unpackByte

def unpack? (bytes : Bytes) (count : Nat) : Except ProtocolError (List Bool) :=
  if bytes.length < packedLength count then .error .bufferSize
  else .ok ((unpackAll bytes).take count)

end Bits

end Modbus
