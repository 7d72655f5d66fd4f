import Modbus.Device.Service
import Modbus.Limits
import Modbus.Pdu.Request
import Modbus.Pdu.Response

/-!
Answering a request PDU with the help of a service. Checks come in a fixed
order: whether the function is supported, whether the PDU is well formed,
whether the quantity is admissible, whether the block ends within the address
space. Only then the service is called.
-/

namespace Modbus.Device

variable {σ : Type}

/-- An action of the device that may end in an exception and keeps its effects then. -/
abbrev Work (σ α : Type) := ExceptT Exception (StateM σ) α

def checkBlock (address : UInt16) (count max : Nat) : Except Exception Unit :=
  if count = 0 ∨ max < count then .error .illegalDataValue
  else if 0x10000 < address.toNat + count then .error .illegalDataAddress
  else .ok ()

def call (service : Service σ) (c : Call) : Work σ c.Answer :=
  ExceptT.mk (Outcome.toExcept <$> service.handle c)

/-- A read that gives back more or fewer values than asked for is a failure of the device. -/
def callRead {α : Type} (action : Work σ (List α)) (count : UInt16) : Work σ (List α) := do
  let values ← action
  if values.length = count.toNat then return values else throw .serverDeviceFailure

/-- A response that is too long for a PDU is a failure of the device. -/
def respond (response : Response) : Work σ Bytes :=
  if maxPduLength < response.length then throw .serverDeviceFailure else return response.pdu

/-- The response to a request whose data behind the function code is `data`. -/
def perform (service : Service σ) (unit : UInt8) (data : Bytes) : Request → Work σ Bytes
  | .readCoils address count => do
    checkBlock address count.toNat maxServeBits
    let coils ← callRead (call service (.readCoils unit address count)) count
    respond (.readCoils (.ofList coils))
  | .readDiscreteInputs address count => do
    checkBlock address count.toNat maxServeBits
    let inputs ← callRead (call service (.readDiscreteInputs unit address count)) count
    respond (.readDiscreteInputs (.ofList inputs))
  | .readHoldingRegisters address count => do
    checkBlock address count.toNat maxServeRegisters
    let words ← callRead (call service (.readHoldingRegisters unit address count)) count
    respond (.readHoldingRegisters (.ofList words))
  | .readInputRegisters address count => do
    checkBlock address count.toNat maxServeRegisters
    let words ← callRead (call service (.readInputRegisters unit address count)) count
    respond (.readInputRegisters (.ofList words))
  | .writeSingleCoil address state => do
    call service (.writeCoils unit address [state])
    respond (.writeSingleCoil address state)
  | .writeMultipleCoils address coils => do
    checkBlock address coils.count maxWriteCoils
    call service (.writeCoils unit address coils.toList)
    respond (.writeMultipleCoils address coils.count.toUInt16)
  | .writeSingleRegister address value => do
    call service (.writeHoldingRegisters unit address [value])
    respond (.writeSingleRegister address value)
  | .writeMultipleRegisters address registers => do
    checkBlock address registers.count maxWriteRegisters
    call service (.writeHoldingRegisters unit address registers.toList)
    respond (.writeMultipleRegisters address registers.count.toUInt16)
  | .writeFileRecord _ => performFunction FunctionCode.writeFileRecord.toByte
  | .custom code _ => performFunction code
where
  performFunction (code : UInt8) : Work σ Bytes := do
    match ← call service (.function unit code data) with
    | some answer => respond (.custom code answer)
    | none => throw .illegalFunction

/-- As `perform`, from a PDU that still has to be checked. -/
def serve (service : Service σ) (unit code : UInt8) (data : Bytes) : Work σ Bytes :=
  if service.supports (.ofByte code) then
    match Request.ofPdu (code :: data) with
    | .ok request => perform service unit data request
    | .error _ => throw .illegalDataValue
  else throw .illegalFunction

/-- The response PDU. There is none for PDUs that are no requests: the empty one, and those
whose function code has its high bit set. -/
def answer (service : Service σ) (unit : UInt8) : Bytes → StateM σ (Option Bytes)
  | [] => return none
  | code :: data =>
    if 0x80 ≤ code then return none
    else do
      match ← (serve service unit code data).run with
      | .ok pdu => return some pdu
      | .error exception => return some (ExceptionResponse.pdu ⟨.ofByte code, exception⟩)

end Modbus.Device
