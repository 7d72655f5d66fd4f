import Modbus.Hex

/-!
Function codes. Nine functions are in the catalogue, every other code is a
user defined one.
-/

namespace Modbus

inductive FunctionCode where
  | readCoils
  | readDiscreteInputs
  | readHoldingRegisters
  | readInputRegisters
  | writeSingleCoil
  | writeSingleRegister
  | writeMultipleCoils
  | writeMultipleRegisters
  | writeFileRecord
  | custom (code : UInt8)
  deriving DecidableEq, Repr

namespace FunctionCode

def ofByte (code : UInt8) : FunctionCode :=
  if code = 0x01 then .readCoils
  else if code = 0x02 then .readDiscreteInputs
  else if code = 0x03 then .readHoldingRegisters
  else if code = 0x04 then .readInputRegisters
  else if code = 0x05 then .writeSingleCoil
  else if code = 0x06 then .writeSingleRegister
  else if code = 0x0F then .writeMultipleCoils
  else if code = 0x10 then .writeMultipleRegisters
  else if code = 0x15 then .writeFileRecord
  else .custom code

def toByte : FunctionCode → UInt8
  | .readCoils => 0x01
  | .readDiscreteInputs => 0x02
  | .readHoldingRegisters => 0x03
  | .readInputRegisters => 0x04
  | .writeSingleCoil => 0x05
  | .writeSingleRegister => 0x06
  | .writeMultipleCoils => 0x0F
  | .writeMultipleRegisters => 0x10
  | .writeFileRecord => 0x15
  | .custom code => code

theorem toByte_ofByte (code : UInt8) : (ofByte code).toByte = code := by
  unfold ofByte
  repeat' split
  all_goals simp_all [toByte]

/-- The name in the catalogue; all user defined functions share one. -/
def name : FunctionCode → String
  | .readCoils => "ReadCoils"
  | .readDiscreteInputs => "ReadDiscreteInputs"
  | .readHoldingRegisters => "ReadHoldingRegisters"
  | .readInputRegisters => "ReadInputRegisters"
  | .writeSingleCoil => "WriteSingleCoil"
  | .writeSingleRegister => "WriteSingleRegister"
  | .writeMultipleCoils => "WriteMultipleCoils"
  | .writeMultipleRegisters => "WriteMultipleRegisters"
  | .writeFileRecord => "WriteFileRecord"
  | .custom _ => "Custom"

/-- The code in hexadecimal, as messages show it. -/
def text (function : FunctionCode) : String := hex 2 function.toByte.toNat

end FunctionCode

end Modbus
