/-!
Exceptions, the reasons a device gives for not answering a request.
-/

namespace Modbus

inductive Exception where
  | illegalFunction
  | illegalDataAddress
  | illegalDataValue
  | serverDeviceFailure
  | acknowledge
  | serverDeviceBusy
  | memoryParityError
  | gatewayPathUnavailable
  | gatewayTargetDevice
  deriving DecidableEq, Repr

namespace Exception

def code : Exception → UInt8
  | .illegalFunction => 0x01
  | .illegalDataAddress => 0x02
  | .illegalDataValue => 0x03
  | .serverDeviceFailure => 0x04
  | .acknowledge => 0x05
  | .serverDeviceBusy => 0x06
  | .memoryParityError => 0x08
  | .gatewayPathUnavailable => 0x0A
  | .gatewayTargetDevice => 0x0B

def all : List Exception :=
  [.illegalFunction, .illegalDataAddress, .illegalDataValue, .serverDeviceFailure, .acknowledge,
   .serverDeviceBusy, .memoryParityError, .gatewayPathUnavailable, .gatewayTargetDevice]

/-- The exception with the given code; the codes `7`, `9` and those above `11` are unassigned. -/
def ofCode? (code : UInt8) : Option Exception := all.find? (·.code = code)

theorem ofCode?_code (e : Exception) : ofCode? e.code = some e := by
  cases e <;> decide

theorem code_of_ofCode? {c : UInt8} {e : Exception} (h : ofCode? c = some e) : e.code = c := by
  simpa using List.find?_some h

def name : Exception → String
  | .illegalFunction => "IllegalFunction"
  | .illegalDataAddress => "IllegalDataAddress"
  | .illegalDataValue => "IllegalDataValue"
  | .serverDeviceFailure => "ServerDeviceFailure"
  | .acknowledge => "Acknowledge"
  | .serverDeviceBusy => "ServerDeviceBusy"
  | .memoryParityError => "MemoryParityError"
  | .gatewayPathUnavailable => "GatewayPathUnavailable"
  | .gatewayTargetDevice => "GatewayTargetDevice"

def message : Exception → String
  | .illegalFunction => "Illegal function"
  | .illegalDataAddress => "Illegal data address"
  | .illegalDataValue => "Illegal data value"
  | .serverDeviceFailure => "Server device failure"
  | .acknowledge => "Acknowledge"
  | .serverDeviceBusy => "Server device busy"
  | .memoryParityError => "Memory parity error"
  | .gatewayPathUnavailable => "Gateway path unavailable"
  | .gatewayTargetDevice => "Gateway target device failed to respond"

end Exception

end Modbus
