import Modbus.Words

/-!
Blocks of coils and registers in the form they have on the wire, and records
of a file. A block always holds exactly the bytes that its count needs.
-/

namespace Modbus

structure Coils where
  bytes : Bytes
  count : Nat
  length_bytes : bytes.length = Bits.packedLength count
  deriving DecidableEq, Repr

namespace Coils

def ofList (coils : List Bool) : Coils := ⟨Bits.pack coils, coils.length, Bits.length_pack coils⟩

def toList (coils : Coils) : List Bool := (Bits.unpackAll coils.bytes).take coils.count

def get? (coils : Coils) (index : Nat) : Option Bool :=
  if h : index < coils.count then
    have : index / 8 < coils.bytes.length := by
      rw [coils.length_bytes, Bits.packedLength]; omega
    some (coils.bytes[index / 8].toNat.testBit (index % 8))
  else none

/-- The block that arises from packing into a buffer, which has to be large enough. -/
def packInto (coils : List Bool) (target : Bytes) : Except ProtocolError Coils :=
  (Bits.packInto coils target).1.map fun _ => ofList coils

/-- All bits of the bytes as coils. -/
def ofBytes (bytes : Bytes) : Coils :=
  ⟨bytes, 8 * bytes.length, by rw [Bits.packedLength]; omega⟩

end Coils

structure Registers where
  bytes : Bytes
  count : Nat
  length_bytes : bytes.length = 2 * count
  deriving DecidableEq, Repr

namespace Registers

def ofList (words : List UInt16) : Registers :=
  ⟨Words.bytes words, words.length, Words.length_bytes words⟩

def packInto (words : List UInt16) (target : Bytes) : Except ProtocolError Registers :=
  (overwrite (Words.bytes words) target).1.map fun _ => ofList words

def toList (registers : Registers) : List UInt16 := Words.ofPairs registers.bytes

def get? (registers : Registers) (index : Nat) : Option UInt16 :=
  if h : index < registers.count then
    have : 2 * index + 1 < registers.bytes.length := by
      rw [registers.length_bytes]; omega
    some (word registers.bytes[2 * index] registers.bytes[2 * index + 1])
  else none

end Registers

/-- One record of a file, with an even number of bytes on the wire. -/
structure FileRecord where
  fileNumber : UInt16
  recordNumber : UInt16
  data : Bytes
  deriving DecidableEq, Repr

/-- The length of a record in words, as far as sixteen bits tell it. -/
def FileRecord.length (record : FileRecord) : UInt16 := (record.data.length / 2).toUInt16

end Modbus
