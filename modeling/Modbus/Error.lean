import Modbus.FunctionCode
import Modbus.Exception

/-!
Everything that can go wrong in an operation, by cause. Each cause has a kind,
for programs to tell it by, and a message for people.
-/

namespace Modbus

/-- Arguments that cannot be put on the wire. They are refused before any input or output. -/
inductive ArgumentError where
  | quantityOutOfRange (quantity max : Nat)
  | noValues
  | invalidFunctionCode (code : UInt8)
  | emptyFile
  | invalidRecordSize (size : UInt8)
  | recordOutOfFile (recordNumber : UInt16) (recordSize : UInt8) (fileLength : Nat)
  deriving DecidableEq, Repr

/-- Malformed or inconsistent data on the wire. -/
inductive ProtocolError where
  | coilValue (value : UInt16)
  | bufferSize
  | functionCode (code : UInt8)
  | exceptionCode (code : UInt8)
  | exceptionFunctionCode (code : UInt8)
  | checksum (expected actual : UInt16)
  | byteCount (count : UInt8)
  | lengthMismatch (field length : Nat)
  | lengthField (length : UInt16)
  | protocolNotModbus (protocol : UInt16)
  | functionMismatch (request : FunctionCode) (response : UInt8)
  | byteCountMismatch (declared : UInt8) (expected payload : Nat)
  | addressMismatch (request response : UInt16)
  | valueMismatch (request response : UInt16)
  | transactionMismatch (request response : UInt16)
  | unitMismatch (request response : UInt8)
  | echoMismatch
  deriving DecidableEq, Repr

/-- The name that the operating system gives to a failure of input or output. -/
abbrev Fault := String

/-- The connection is missing, silent or broken. -/
inductive TransportError where
  | notConnected
  | timeout
  | disconnected
  | io (fault : Fault)
  deriving DecidableEq, Repr

inductive Error where
  | argument (cause : ArgumentError)
  | protocol (cause : ProtocolError)
  | exception (cause : Exception)
  | transport (cause : TransportError)
  deriving DecidableEq, Repr

def ArgumentError.kind : ArgumentError → String
  | .quantityOutOfRange .. => "Argument.QuantityOutOfRange"
  | .noValues => "Argument.NoValues"
  | .invalidFunctionCode .. => "Argument.InvalidFnCode"
  | .emptyFile => "Argument.EmptyFile"
  | .invalidRecordSize .. => "Argument.InvalidRecordSize"
  | .recordOutOfFile .. => "Argument.RecordOutOfFile"

def ProtocolError.kind : ProtocolError → String
  | .coilValue .. => "Protocol.CoilValue"
  | .bufferSize => "Protocol.BufferSize"
  | .functionCode .. => "Protocol.FnCode"
  | .exceptionCode .. => "Protocol.ExceptionCode"
  | .exceptionFunctionCode .. => "Protocol.ExceptionFnCode"
  | .checksum .. => "Protocol.Crc"
  | .byteCount .. => "Protocol.ByteCount"
  | .lengthMismatch .. => "Protocol.LengthMismatch"
  | .lengthField .. => "Protocol.LengthField"
  | .protocolNotModbus .. => "Protocol.ProtocolNotModbus"
  | .functionMismatch .. => "Protocol.FnCodeMismatch"
  | .byteCountMismatch .. => "Protocol.ByteCountMismatch"
  | .addressMismatch .. => "Protocol.AddressMismatch"
  | .valueMismatch .. => "Protocol.ValueMismatch"
  | .transactionMismatch .. => "Protocol.TransactionMismatch"
  | .unitMismatch .. => "Protocol.UnitMismatch"
  | .echoMismatch => "Protocol.EchoMismatch"

def TransportError.kind : TransportError → String
  | .notConnected => "Transport.NotConnected"
  | .timeout => "Transport.Timeout"
  | .disconnected => "Transport.Disconnected"
  | .io _ => "Transport.Io"

def Error.kind : Error → String
  | .argument cause => cause.kind
  | .protocol cause => cause.kind
  | .exception cause => "Exception." ++ cause.name
  | .transport cause => cause.kind

def ArgumentError.message : ArgumentError → String
  | .quantityOutOfRange quantity max => s!"Quantity {quantity} out of range 1..={max}"
  | .noValues => "No values to write"
  | .invalidFunctionCode code => "Invalid function code: " ++ hex 2 code.toNat
  | .emptyFile => "File is empty"
  | .invalidRecordSize size => s!"Invalid record size: {size}"
  | .recordOutOfFile recordNumber recordSize fileLength =>
    s!"Record {recordNumber} (size {recordSize}) lies after the end of the file " ++
      s!"({fileLength} bytes)"

/-- Two values that should agree, the one of the response first. -/
private def differs (what response request : String) : String :=
  s!"{what} in response ({response}) differs from request ({request})"

def ProtocolError.message : ProtocolError → String
  | .coilValue value => "Invalid coil value: " ++ hex 4 value.toNat
  | .bufferSize => "Invalid buffer size"
  | .functionCode code => "Invalid function code: " ++ hex 2 code.toNat
  | .exceptionCode code => "Invalid exception code: " ++ hex 2 code.toNat
  | .exceptionFunctionCode code => "Invalid exception function code: " ++ hex 2 code.toNat
  | .checksum expected actual =>
    "Invalid CRC: expected = " ++ hex 4 expected.toNat ++ ", actual = " ++ hex 4 actual.toNat
  | .byteCount count => s!"Invalid byte count: {count}"
  | .lengthMismatch field length =>
    s!"Length Mismatch: Length Field: {field}, PDU Len + 1: {length}"
  | .lengthField length => s!"Invalid length field: {length}"
  | .protocolNotModbus protocol => s!"Protocol not Modbus(0), received {protocol} instead"
  | .functionMismatch request response =>
    differs "Function code" (hex 2 response.toNat) request.text
  | .byteCountMismatch declared expected payload =>
    s!"Byte count {declared} differs from expected {expected} (payload {payload} bytes)"
  | .addressMismatch request response =>
    differs "Address" (hex 4 response.toNat) (hex 4 request.toNat)
  | .valueMismatch request response => differs "Value" (hex 4 response.toNat) (hex 4 request.toNat)
  | .transactionMismatch request response =>
    differs "Transaction id" (toString response) (toString request)
  | .unitMismatch request response => differs "Unit id" (toString response) (toString request)
  | .echoMismatch => "Response differs from request"

def TransportError.message : TransportError → String
  | .notConnected => "Not connected"
  | .timeout => "Timeout"
  | .disconnected => "Connection closed by peer"
  | .io fault => fault

/-- The message of the cause alone. -/
def Error.detail : Error → String
  | .argument cause => cause.message
  | .protocol cause => cause.message
  | .exception cause => cause.message
  | .transport cause => cause.message

def Error.message (error : Error) : String :=
  match error with
  | .argument _ => "Invalid argument: " ++ error.detail
  | .exception _ => "Modbus exception: " ++ error.detail
  | _ => error.detail

end Modbus
