import Modbus.Limits
import Modbus.Pdu.Request
import Modbus.Pdu.Response
import Modbus.Transport

/-!
A master sends requests and accepts the responses that fit them. Arguments
that no request can carry are refused before anything is sent.
-/

namespace Modbus.Master

variable {τ : Type}

def checkQuantity (quantity max : Nat) : Except Error Unit :=
  if quantity = 0 ∨ max < quantity then .error (.argument (.quantityOutOfRange quantity max))
  else .ok ()

/-- A response must carry the function of the request; one whose high bit is set as well tells
of an exception. -/
def checkFunction (request : FunctionCode) : Bytes → Except Error Unit
  | [] => .error (.protocol .bufferSize)
  | code :: rest =>
    if code &&& 0x7F ≠ request.toByte then .error (.protocol (.functionMismatch request code))
    else if code &&& 0x80 = 0 then .ok ()
    else match ExceptionResponse.ofPdu (code :: rest) with
      | .ok response => .error (.exception response.exception)
      | .error cause => .error (.protocol cause)

/-- A read response must carry exactly `expected` bytes of values. -/
def readResponse (expected : Nat) (pdu : Bytes) : Except ProtocolError Response :=
  match Response.ofPdu pdu, pdu with
  | .ok response, _ :: declared :: values =>
    if values.length = expected then .ok response
    else .error (.byteCountMismatch declared expected values.length)
  | .ok _, _ => .error .bufferSize
  | .error (.byteCount declared), _ =>
    .error (.byteCountMismatch declared expected (pdu.length - 2))
  | .error cause, _ => .error cause

/-- A response of a kind that answers another request. -/
def unexpected (response : Response) : ProtocolError := .functionCode response.function.toByte

/-- The address and the value or quantity of a response that confirms a write. -/
def echoed : Response → Except ProtocolError (UInt16 × UInt16)
  | .writeSingleCoil address state => .ok (address, coilWord state)
  | .writeSingleRegister address value => .ok (address, value)
  | .writeMultipleCoils address quantity => .ok (address, quantity)
  | .writeMultipleRegisters address quantity => .ok (address, quantity)
  | other => .error (unexpected other)

/-- Address and value or quantity must come back as they were sent. -/
def checkEcho (address value : UInt16) (pdu : Bytes) : Except ProtocolError Unit := do
  let (echoedAddress, echoedValue) ← echoed (← Response.ofPdu pdu)
  if echoedAddress ≠ address then throw (.addressMismatch address echoedAddress)
  else if echoedValue ≠ value then throw (.valueMismatch value echoedValue)
  else return ()

def protocol {α : Type} : Except ProtocolError α → Except Error α
  | .ok a => .ok a
  | .error cause => .error (.protocol cause)

/-- Memory in which values and PDUs are put together. -/
def scratch (size : Nat) : Bytes := List.replicate size 0

/-- One request and its response, which is no exception and has the right function. -/
def call (transport : Transport τ) (unit : UInt8) (request : Request) : Exchange τ Bytes := do
  let (encoded, buffer) := request.encode (scratch maxPduLength)
  let length ← protocol encoded
  transport.send unit (buffer.take length)
  let response ← transport.receive unit
  checkFunction request.function response
  return response

def readBits (transport : Transport τ) (unit : UInt8) (request : Request) (count : UInt16) :
    Exchange τ (List Bool) := do
  checkQuantity count.toNat maxReadBits
  let pdu ← call transport unit request
  match ← protocol (readResponse (Bits.packedLength count.toNat) pdu) with
  | .readCoils coils | .readDiscreteInputs coils => return coils.toList.take count.toNat
  | other => throw (.protocol (unexpected other))

def readWords (transport : Transport τ) (unit : UInt8) (request : Request) (count : UInt16) :
    Exchange τ (List UInt16) := do
  checkQuantity count.toNat maxReadRegisters
  let pdu ← call transport unit request
  match ← protocol (readResponse (2 * count.toNat) pdu) with
  | .readHoldingRegisters registers | .readInputRegisters registers => return registers.toList
  | other => throw (.protocol (unexpected other))

def readCoils (transport : Transport τ) (unit : UInt8) (address count : UInt16) :
    Exchange τ (List Bool) :=
  readBits transport unit (.readCoils address count) count

def readDiscreteInputs (transport : Transport τ) (unit : UInt8) (address count : UInt16) :
    Exchange τ (List Bool) :=
  readBits transport unit (.readDiscreteInputs address count) count

def readHoldingRegisters (transport : Transport τ) (unit : UInt8) (address count : UInt16) :
    Exchange τ (List UInt16) :=
  readWords transport unit (.readHoldingRegisters address count) count

def readInputRegisters (transport : Transport τ) (unit : UInt8) (address count : UInt16) :
    Exchange τ (List UInt16) :=
  readWords transport unit (.readInputRegisters address count) count

/-- A value that is alone goes out with the function for single values. -/
def writeCoils (transport : Transport τ) (unit : UInt8) (address : UInt16) :
    List Bool → Exchange τ Unit
  | [] => throw (.argument .noValues)
  | [state] => do
    let pdu ← call transport unit (.writeSingleCoil address state)
    protocol (checkEcho address (coilWord state) pdu)
  | coils => do
    checkQuantity coils.length maxWriteCoils
    let block ← protocol (Coils.packInto coils (scratch (Bits.packedLength maxWriteCoils)))
    let pdu ← call transport unit (.writeMultipleCoils address block)
    protocol (checkEcho address coils.length.toUInt16 pdu)

/-- A value that is alone goes out with the function for single values. -/
def writeHoldingRegisters (transport : Transport τ) (unit : UInt8) (address : UInt16) :
    List UInt16 → Exchange τ Unit
  | [] => throw (.argument .noValues)
  | [value] => do
    let pdu ← call transport unit (.writeSingleRegister address value)
    protocol (checkEcho address value pdu)
  | words => do
    checkQuantity words.length maxWriteRegisters
    let block ← protocol (Registers.packInto words (scratch (2 * maxWriteRegisters)))
    let pdu ← call transport unit (.writeMultipleRegisters address block)
    protocol (checkEcho address words.length.toUInt16 pdu)

/-- The bytes of one record of a file, which is cut into records of a fixed size; the last one
may be shorter. -/
def fileWindow (file : Bytes) (recordSize : UInt8) (recordNumber : UInt16) :
    Except ArgumentError Bytes :=
  let start := recordSize.toNat * recordNumber.toNat
  if file.isEmpty then .error .emptyFile
  else if recordSize = 0 ∨ maxRecordSize < recordSize then .error (.invalidRecordSize recordSize)
  else if file.length ≤ start then
    .error (.recordOutOfFile recordNumber recordSize file.length)
  else .ok ((file.drop start).take recordSize.toNat)

/-- The bytes of a window as a record has them. An odd number of them takes along one of the zeros
behind it, for which there is room behind the largest record too. -/
def recordData (window : Bytes) : Except ProtocolError Bytes := do
  let (copied, buffer) := overwrite window (scratch (maxRecordSize.toNat + 1))
  let used ← copied
  return buffer.take (used + used % 2)

def writeFile (transport : Transport τ) (unit : UInt8) (fileNumber : UInt16) (recordSize : UInt8)
    (recordNumber : UInt16) (file : Bytes) : Exchange τ Unit := do
  match fileWindow file recordSize recordNumber with
  | .error cause => throw (.argument cause)
  | .ok window =>
    let record : FileRecord := ⟨fileNumber, recordNumber, ← protocol (recordData window)⟩
    let pdu ← call transport unit (.writeFileRecord record)
    match ← protocol (Response.ofPdu pdu) with
    | .writeFileRecord echo =>
      if echo ≠ record then throw (.protocol .echoMismatch)
    | other => throw (.protocol (unexpected other))

/-- The data of the response, of which nothing but the function code is checked. -/
def userFunction (transport : Transport τ) (unit code : UInt8) (data : Bytes) :
    Exchange τ Bytes := do
  if code = 0 ∨ 0x80 ≤ code then throw (.argument (.invalidFunctionCode code))
  if maxPduLength ≤ data.length then
    throw (.argument (.quantityOutOfRange data.length (maxPduLength - 1)))
  let pdu ← call transport unit (.custom code data)
  return pdu.tail

end Modbus.Master
