import Modbus.Bits

/-!
What a device does for a master. A service is called with decoded requests;
it may change its state, give up with an exception, or fail altogether.
-/

namespace Modbus.Device

inductive Outcome (α : Type) where
  | value (value : α)
  | exception (cause : Exception)
  | panic
  deriving DecidableEq, Repr

/-- A failure for no stated reason is the failure of the device. -/
def Outcome.toExcept {α : Type} : Outcome α → Except Exception α
  | .value a => .ok a
  | .exception cause => .error cause
  | .panic => .error .serverDeviceFailure

/-- A request as a service sees it. All functions without a call of their own, such as writing
a record of a file, come as a code and the data behind it. -/
inductive Call where
  | readCoils (unit : UInt8) (address count : UInt16)
  | readDiscreteInputs (unit : UInt8) (address count : UInt16)
  | readHoldingRegisters (unit : UInt8) (address count : UInt16)
  | readInputRegisters (unit : UInt8) (address count : UInt16)
  | writeCoils (unit : UInt8) (address : UInt16) (coils : List Bool)
  | writeHoldingRegisters (unit : UInt8) (address : UInt16) (words : List UInt16)
  | function (unit code : UInt8) (data : Bytes)
  deriving DecidableEq, Repr

/-- What a call gives back. A function that is not there gives back nothing. -/
abbrev Call.Answer : Call → Type
  | .readCoils .. | .readDiscreteInputs .. => List Bool
  | .readHoldingRegisters .. | .readInputRegisters .. => List UInt16
  | .writeCoils .. | .writeHoldingRegisters .. => Unit
  | .function .. => Option Bytes

/-- A service with state `σ`. Requests of functions that it does not support never reach it. -/
structure Service (σ : Type) where
  supports : FunctionCode → Bool
  handle : (call : Call) → StateM σ (Outcome call.Answer)

/-- Claims to support everything, and answers nothing. -/
def Service.bare {σ : Type} : Service σ where
  supports _ := true
  handle
    | .function .. => return .value none
    | _ => return .exception .illegalFunction

/-- Performs an action and notes the call that led to it. -/
def noting {σ α : Type} (call : Call) (action : StateM σ α) : StateM (σ × List Call) α :=
  fun (state, calls) =>
    let (answer, state) := action state
    (answer, state, calls ++ [call])

/-- The same service, which keeps a list of all calls in its state. -/
def Service.noted {σ : Type} (service : Service σ) : Service (σ × List Call) where
  supports := service.supports
  handle call := noting call (service.handle call)

end Modbus.Device
