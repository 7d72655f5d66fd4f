import Modbus.Pdu.Fields

/-!
Requests and their wire form, the PDU: the function code and the fields
behind it. Reading refuses every PDU whose length differs from what its own
fields announce; writing cuts counts that exceed their field to its width.
-/

namespace Modbus

inductive Request where
  | readCoils (address quantity : UInt16)
  | readDiscreteInputs (address quantity : UInt16)
  | readHoldingRegisters (address quantity : UInt16)
  | readInputRegisters (address quantity : UInt16)
  | writeSingleCoil (address : UInt16) (state : Bool)
  | writeSingleRegister (address value : UInt16)
  | writeMultipleCoils (address : UInt16) (coils : Coils)
  | writeMultipleRegisters (address : UInt16) (registers : Registers)
  | writeFileRecord (record : FileRecord)
  | custom (code : UInt8) (data : Bytes)
  deriving DecidableEq, Repr

namespace Request

def function : Request → FunctionCode
  | .readCoils .. => .readCoils
  | .readDiscreteInputs .. => .readDiscreteInputs
  | .readHoldingRegisters .. => .readHoldingRegisters
  | .readInputRegisters .. => .readInputRegisters
  | .writeSingleCoil .. => .writeSingleCoil
  | .writeSingleRegister .. => .writeSingleRegister
  | .writeMultipleCoils .. => .writeMultipleCoils
  | .writeMultipleRegisters .. => .writeMultipleRegisters
  | .writeFileRecord .. => .writeFileRecord
  | .custom code _ => .ofByte code

def fields : Request → Bytes
  | .readCoils address quantity
  | .readDiscreteInputs address quantity
  | .readHoldingRegisters address quantity
  | .readInputRegisters address quantity => wordBytes address ++ wordBytes quantity
  | .writeSingleCoil address state => wordBytes address ++ wordBytes (coilWord state)
  | .writeSingleRegister address value => wordBytes address ++ wordBytes value
  | .writeMultipleCoils address coils => wordBytes address ++ Fields.ofCoils coils
  | .writeMultipleRegisters address registers => wordBytes address ++ Fields.ofRegisters registers
  | .writeFileRecord record => Fields.ofFileRecord record
  | .custom _ data => data

def pdu (request : Request) : Bytes := request.function.toByte :: request.fields

/-- The length of the PDU. -/
def length : Request → Nat
  | .writeMultipleCoils _ coils => 6 + Bits.packedLength coils.count
  | .writeMultipleRegisters _ registers => 6 + 2 * registers.count
  | .writeFileRecord record => 9 + record.data.length
  | .custom _ data => 1 + data.length
  | _ => 5

theorem length_pdu (request : Request) : request.pdu.length = request.length := by
  cases request with
  | writeMultipleCoils _ coils =>
    simp [pdu, fields, length, wordBytes, Fields.ofCoils, coils.length_bytes]; omega
  | writeMultipleRegisters _ registers =>
    simp [pdu, fields, length, wordBytes, Fields.ofRegisters, registers.length_bytes]; omega
  | writeFileRecord record => simp [pdu, fields, length, wordBytes, Fields.ofFileRecord]; omega
  | custom _ data => simp [pdu, fields, length]; omega
  | _ => simp [pdu, fields, length, wordBytes]

/-- Writes the PDU to the front of a buffer, which has to be large enough and else is left alone. -/
def encode (request : Request) (buffer : Bytes) : Except ProtocolError Nat × Bytes :=
  overwrite request.pdu buffer

def ofFields (code : UInt8) (fields : Bytes) : Except ProtocolError Request :=
  match FunctionCode.ofByte code with
  | .readCoils => do
    let (address, quantity) ← Fields.twoWords fields
    return .readCoils address quantity
  | .readDiscreteInputs => do
    let (address, quantity) ← Fields.twoWords fields
    return .readDiscreteInputs address quantity
  | .readHoldingRegisters => do
    let (address, quantity) ← Fields.twoWords fields
    return .readHoldingRegisters address quantity
  | .readInputRegisters => do
    let (address, quantity) ← Fields.twoWords fields
    return .readInputRegisters address quantity
  | .writeSingleCoil => do
    let (address, value) ← Fields.twoWords fields
    return .writeSingleCoil address (← coilState? value)
  | .writeSingleRegister => do
    let (address, value) ← Fields.twoWords fields
    return .writeSingleRegister address value
  | .writeMultipleCoils => do
    let (address, block) ← Fields.address fields
    return .writeMultipleCoils address (← Fields.coilBlock block)
  | .writeMultipleRegisters => do
    let (address, block) ← Fields.address fields
    return .writeMultipleRegisters address (← Fields.registerBlock block)
  | .writeFileRecord => return .writeFileRecord (← Fields.fileRecord fields)
  | .custom code => return .custom code (← Fields.custom code fields)

def ofPdu : Bytes → Except ProtocolError Request
  | [] => .error .bufferSize
  | code :: fields => ofFields code fields

end Request

end Modbus
