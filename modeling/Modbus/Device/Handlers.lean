import Modbus.Device.Service

/-!
Services that are put together from handlers. A function is supported if and
only if a handler for it is registered.
-/

namespace Modbus.Device

/-- Reads a number of values from an address on. -/
abbrev Reader (σ α : Type) := UInt8 → UInt16 → UInt16 → StateM σ (Outcome (List α))

/-- Writes values from an address on. -/
abbrev Writer (σ α : Type) := UInt8 → UInt16 → List α → StateM σ (Outcome Unit)

/-- Turns the data of a request into the data of the response. -/
abbrev UserFunction (σ : Type) := UInt8 → Bytes → StateM σ (Outcome Bytes)

/-- Writing a single value and writing several share a handler. -/
structure Handlers (σ : Type) where
  readCoils : Option (Reader σ Bool) := none
  readDiscreteInputs : Option (Reader σ Bool) := none
  readHoldingRegisters : Option (Reader σ UInt16) := none
  readInputRegisters : Option (Reader σ UInt16) := none
  writeCoils : Option (Writer σ Bool) := none
  writeHoldingRegisters : Option (Writer σ UInt16) := none
  functions : UInt8 → Option (UserFunction σ) := fun _ => none

namespace Handlers

variable {σ : Type}

/-- The standard reads and writes go to their own handlers, whatever is registered here. -/
def register (handlers : Handlers σ) (code : UInt8) (f : UserFunction σ) : Handlers σ :=
  { handlers with functions := fun c => if c = code then some f else handlers.functions c }

def supports (handlers : Handlers σ) : FunctionCode → Bool
  | .readCoils => handlers.readCoils.isSome
  | .readDiscreteInputs => handlers.readDiscreteInputs.isSome
  | .readHoldingRegisters => handlers.readHoldingRegisters.isSome
  | .readInputRegisters => handlers.readInputRegisters.isSome
  | .writeSingleCoil | .writeMultipleCoils => handlers.writeCoils.isSome
  | .writeSingleRegister | .writeMultipleRegisters => handlers.writeHoldingRegisters.isSome
  | function => (handlers.functions function.toByte).isSome

/-- The action of a handler, if there is one. -/
private def orIllegal {τ α : Type} (handler : Option τ) (action : τ → StateM σ (Outcome α)) :
    StateM σ (Outcome α) :=
  match handler with
  | some f => action f
  | none => return .exception .illegalFunction

def handle (handlers : Handlers σ) : (call : Call) → StateM σ (Outcome call.Answer)
  | .readCoils unit address count => orIllegal handlers.readCoils (· unit address count)
  | .readDiscreteInputs unit address count =>
    orIllegal handlers.readDiscreteInputs (· unit address count)
  | .readHoldingRegisters unit address count =>
    orIllegal handlers.readHoldingRegisters (· unit address count)
  | .readInputRegisters unit address count =>
    orIllegal handlers.readInputRegisters (· unit address count)
  | .writeCoils unit address coils => orIllegal handlers.writeCoils (· unit address coils)
  | .writeHoldingRegisters unit address words =>
    orIllegal handlers.writeHoldingRegisters (· unit address words)
  | .function unit code data =>
    match handlers.functions code with
    | none => return .value none
    | some f => return match ← f unit data with
      | .value data => .value (some data)
      | .exception cause => .exception cause
      | .panic => .panic

def service (handlers : Handlers σ) : Service σ := ⟨handlers.supports, handlers.handle⟩

/-- The same handlers, which keep a list of their calls in the state. -/
def noted (handlers : Handlers σ) : Handlers (σ × List Call) where
  readCoils := handlers.readCoils.map fun f unit address count =>
    noting (.readCoils unit address count) (f unit address count)
  readDiscreteInputs := handlers.readDiscreteInputs.map fun f unit address count =>
    noting (.readDiscreteInputs unit address count) (f unit address count)
  readHoldingRegisters := handlers.readHoldingRegisters.map fun f unit address count =>
    noting (.readHoldingRegisters unit address count) (f unit address count)
  readInputRegisters := handlers.readInputRegisters.map fun f unit address count =>
    noting (.readInputRegisters unit address count) (f unit address count)
  writeCoils := handlers.writeCoils.map fun f unit address coils =>
    noting (.writeCoils unit address coils) (f unit address coils)
  writeHoldingRegisters := handlers.writeHoldingRegisters.map fun f unit address words =>
    noting (.writeHoldingRegisters unit address words) (f unit address words)
  functions code := (handlers.functions code).map fun f unit data =>
    noting (.function unit code data) (f unit data)

def codes (handlers : Handlers σ) : List UInt8 :=
  ((List.range 256).map Nat.toUInt8).filter fun code => (handlers.functions code).isSome

def summary (handlers : Handlers σ) : String :=
  "Handlers \x7b " ++
    s!"read_coils: {handlers.readCoils.isSome}, " ++
    s!"read_discrete_inputs: {handlers.readDiscreteInputs.isSome}, " ++
    s!"read_holding_registers: {handlers.readHoldingRegisters.isSome}, " ++
    s!"read_input_registers: {handlers.readInputRegisters.isSome}, " ++
    s!"write_coils: {handlers.writeCoils.isSome}, " ++
    s!"write_holding_registers: {handlers.writeHoldingRegisters.isSome}, " ++
    "functions: [" ++ String.intercalate ", " (handlers.codes.map toString) ++ "] \x7d"

end Handlers

end Modbus.Device
