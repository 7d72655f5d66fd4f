import Modbus.Master

/-!
What can be asked of a master, as a value, so that whole sequences of
operations have a result.
-/

namespace Modbus.Master

variable {τ : Type}

inductive Operation where
  | readCoils (unit : UInt8) (address count : UInt16)
  | readDiscreteInputs (unit : UInt8) (address count : UInt16)
  | readHoldingRegisters (unit : UInt8) (address count : UInt16)
  | readInputRegisters (unit : UInt8) (address count : UInt16)
  | writeCoils (unit : UInt8) (address : UInt16) (coils : List Bool)
  | writeHoldingRegisters (unit : UInt8) (address : UInt16) (words : List UInt16)
  | writeFile (unit : UInt8) (fileNumber : UInt16) (recordSize : UInt8) (recordNumber : UInt16)
      (file : Bytes)
  | userFunction (unit code : UInt8) (data : Bytes)
  deriving DecidableEq, Repr

/-- What an operation gives back. -/
inductive Answer where
  | bits (values : List Bool)
  | words (values : List UInt16)
  | data (bytes : Bytes)
  | done
  deriving DecidableEq, Repr

namespace Operation

/-- The unit that an operation is for. -/
def unit : Operation → UInt8
  | .readCoils unit .. | .readDiscreteInputs unit .. | .readHoldingRegisters unit ..
  | .readInputRegisters unit .. | .writeCoils unit .. | .writeHoldingRegisters unit ..
  | .writeFile unit .. | .userFunction unit .. => unit

def perform (transport : Transport τ) : Operation → Exchange τ Answer
  | .readCoils unit address count => .bits <$> Master.readCoils transport unit address count
  | .readDiscreteInputs unit address count =>
    .bits <$> Master.readDiscreteInputs transport unit address count
  | .readHoldingRegisters unit address count =>
    .words <$> Master.readHoldingRegisters transport unit address count
  | .readInputRegisters unit address count =>
    .words <$> Master.readInputRegisters transport unit address count
  | .writeCoils unit address coils =>
    (fun _ => .done) <$> Master.writeCoils transport unit address coils
  | .writeHoldingRegisters unit address words =>
    (fun _ => .done) <$> Master.writeHoldingRegisters transport unit address words
  | .writeFile unit fileNumber recordSize recordNumber file =>
    (fun _ => .done) <$> Master.writeFile transport unit fileNumber recordSize recordNumber file
  | .userFunction unit code data => .data <$> Master.userFunction transport unit code data

/-- One operation after the other, whether or not those before have failed. -/
def performAll (transport : Transport τ) (operations : List Operation) :
    StateM τ (List (Except Error Answer)) :=
  operations.mapM fun operation => (operation.perform transport).run

end Operation

end Modbus.Master
