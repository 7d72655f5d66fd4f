import Modbus.Pdu.Fields

/-!
Responses and their wire form. A read response does not tell the quantity
that was asked for, so all bits of its bytes are taken as coils. An exception
response is a PDU of its own: the function code with its high bit set and the
code of the exception.
-/

namespace Modbus

inductive Response where
  | readCoils (coils : Coils)
  | readDiscreteInputs (inputs : Coils)
  | readHoldingRegisters (registers : Registers)
  | readInputRegisters (registers : Registers)
  | writeSingleCoil (address : UInt16) (state : Bool)
  | writeSingleRegister (address value : UInt16)
  | writeMultipleCoils (address quantity : UInt16)
  | writeMultipleRegisters (address quantity : UInt16)
  | writeFileRecord (record : FileRecord)
  | custom (code : UInt8) (data : Bytes)
  deriving DecidableEq, Repr

namespace Response

def function : Response → FunctionCode
  | .readCoils .. => .readCoils
  | .readDiscreteInputs .. => .readDiscreteInputs
  | .readHoldingRegisters .. => .readHoldingRegisters
  | .readInputRegisters .. => .readInputRegisters
  | .writeSingleCoil .. => .writeSingleCoil
  | .writeSingleRegister .. => .writeSingleRegister
  | .writeMultipleCoils .. => .writeMultipleCoils
  | .writeMultipleRegisters .. => .writeMultipleRegisters
  | .writeFileRecord .. => .writeFileRecord
  | .custom code _ => .ofByte code

def fields : Response → Bytes
  | .readCoils coils | .readDiscreteInputs coils => coils.bytes.length.toUInt8 :: coils.bytes
  | .readHoldingRegisters registers | .readInputRegisters registers =>
    registers.bytes.length.toUInt8 :: registers.bytes
  | .writeSingleCoil address state => wordBytes address ++ wordBytes (coilWord state)
  | .writeSingleRegister address value => wordBytes address ++ wordBytes value
  | .writeMultipleCoils address quantity
  | .writeMultipleRegisters address quantity => wordBytes address ++ wordBytes quantity
  | .writeFileRecord record => Fields.ofFileRecord record
  | .custom _ data => data

def pdu (response : Response) : Bytes := response.function.toByte :: response.fields

/-- The length of the PDU. -/
def length : Response → Nat
  | .readCoils coils | .readDiscreteInputs coils => 2 + Bits.packedLength coils.count
  | .readHoldingRegisters registers | .readInputRegisters registers => 2 + 2 * registers.count
  | .writeFileRecord record => 9 + record.data.length
  | .custom _ data => 1 + data.length
  | _ => 5

theorem length_pdu (response : Response) : response.pdu.length = response.length := by
  cases response with
  | readCoils coils | readDiscreteInputs coils =>
    simp [pdu, fields, length, coils.length_bytes]; omega
  | readHoldingRegisters registers | readInputRegisters registers =>
    simp [pdu, fields, length, registers.length_bytes]; omega
  | writeFileRecord record => simp [pdu, fields, length, wordBytes, Fields.ofFileRecord]; omega
  | custom _ data => simp [pdu, fields, length]; omega
  | _ => simp [pdu, fields, length, wordBytes]

/-- Writes the PDU to the front of a buffer, which has to be large enough and else is left alone. -/
def encode (response : Response) (buffer : Bytes) : Except ProtocolError Nat × Bytes :=
  overwrite response.pdu buffer

def ofFields (code : UInt8) (fields : Bytes) : Except ProtocolError Response :=
  match FunctionCode.ofByte code with
  | .readCoils => return .readCoils (.ofBytes (← Fields.counted fields))
  | .readDiscreteInputs => return .readDiscreteInputs (.ofBytes (← Fields.counted fields))
  | .readHoldingRegisters => return .readHoldingRegisters (← Fields.countedWords fields)
  | .readInputRegisters => return .readInputRegisters (← Fields.countedWords fields)
  | .writeSingleCoil => do
    let (address, value) ← Fields.twoWords fields
    return .writeSingleCoil address (← coilState? value)
  | .writeSingleRegister => do
    let (address, value) ← Fields.twoWords fields
    return .writeSingleRegister address value
  | .writeMultipleCoils => do
    let (address, quantity) ← Fields.twoWords fields
    return .writeMultipleCoils address quantity
  | .writeMultipleRegisters => do
    let (address, quantity) ← Fields.twoWords fields
    return .writeMultipleRegisters address quantity
  | .writeFileRecord => return .writeFileRecord (← Fields.fileRecord fields)
  | .custom code => return .custom code (← Fields.custom code fields)

def ofPdu : Bytes → Except ProtocolError Response
  | [] => .error .bufferSize
  | code :: fields => ofFields code fields

end Response

structure ExceptionResponse where
  function : FunctionCode
  exception : Exception
  deriving DecidableEq, Repr

namespace ExceptionResponse

def pdu (response : ExceptionResponse) : Bytes :=
  [response.function.toByte ||| 0x80, response.exception.code]

/-- Bytes behind the two that matter are ignored. -/
def ofPdu : Bytes → Except ProtocolError ExceptionResponse
  | function :: code :: _ =>
    if function < 0x80 then .error (.exceptionFunctionCode function)
    else match Exception.ofCode? code with
      | some exception => .ok ⟨.ofByte (function - 0x80), exception⟩
      | none => .error (.exceptionCode code)
  | _ => .error .bufferSize

end ExceptionResponse

end Modbus
