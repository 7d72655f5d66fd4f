import Modbus.Pdu.Values

/-!
The fields behind the function code that requests and responses have in
common, read and written.
-/

namespace Modbus.Fields

def twoWords : Bytes → Except ProtocolError (UInt16 × UInt16)
  | [a, b, c, d] => .ok (word a b, word c d)
  | _ => .error .bufferSize

def address : Bytes → Except ProtocolError (UInt16 × Bytes)
  | a :: b :: rest => .ok (word a b, rest)
  | _ => .error .bufferSize

/-- Values behind a byte count that tells their length. -/
def counted : Bytes → Except ProtocolError Bytes
  | [] => .error .bufferSize
  | count :: values => if values.length = count.toNat then .ok values else .error (.byteCount count)

/-- Counted values that are whole words. -/
def countedWords (fields : Bytes) : Except ProtocolError Registers := do
  let values ← counted fields
  if h : values.length % 2 = 0 then return ⟨values, values.length / 2, by omega⟩
  else throw (.byteCount values.length.toUInt8)

/-- A quantity of coils, a byte count, and as many values as both of them tell. -/
def coilBlock : Bytes → Except ProtocolError Coils
  | a :: b :: count :: values =>
    let quantity := (word a b).toNat
    if h : values.length = count.toNat ∧ values.length = Bits.packedLength quantity then
      .ok ⟨values, quantity, h.2⟩
    else .error (.byteCount count)
  | _ => .error .bufferSize

def ofCoils (coils : Coils) : Bytes :=
  wordBytes coils.count.toUInt16 ++ coils.bytes.length.toUInt8 :: coils.bytes

/-- A quantity of registers, a byte count, and as many values as both of them tell. -/
def registerBlock : Bytes → Except ProtocolError Registers
  | a :: b :: count :: values =>
    let quantity := (word a b).toNat
    if h : values.length = count.toNat ∧ values.length = 2 * quantity then
      .ok ⟨values, quantity, h.2⟩
    else .error (.byteCount count)
  | _ => .error .bufferSize

def ofRegisters (registers : Registers) : Bytes :=
  wordBytes registers.count.toUInt16 ++ registers.bytes.length.toUInt8 :: registers.bytes

/-- The reference type of a record, the only one there is. -/
def fileReferenceType : UInt8 := 0x06

/-- A record of a file, behind the length of all that follows. -/
def fileRecord : Bytes → Except ProtocolError FileRecord
  | length :: type :: f1 :: f0 :: r1 :: r0 :: l1 :: l0 :: data =>
    if data.length + 7 ≠ length.toNat then .error (.byteCount length)
    else if type ≠ fileReferenceType then .error .bufferSize
    else if data.length ≠ 2 * (word l1 l0).toNat then .error (.byteCount length)
    else .ok ⟨word f1 f0, word r1 r0, data⟩
  | _ => .error .bufferSize

def ofFileRecord (record : FileRecord) : Bytes :=
  (record.data.length + 7).toUInt8 :: fileReferenceType ::
    (wordBytes record.fileNumber ++ wordBytes record.recordNumber ++ wordBytes record.length ++
      record.data)

/-- User defined functions have codes below `0x80`; their data is free. -/
def custom (code : UInt8) (data : Bytes) : Except ProtocolError Bytes :=
  if code < 0x80 then .ok data else .error (.functionCode code)

end Modbus.Fields
