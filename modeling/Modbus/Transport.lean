import Modbus.Bits

/-!
What a master needs from a connection: it sends a request PDU to a unit and
then receives the PDU that the unit answers.
-/

namespace Modbus

/-- An action on a connection with state `τ`, which keeps its effects when it fails. -/
abbrev Exchange (τ α : Type) := ExceptT Error (StateM τ) α

/-- Connections with state `τ`. -/
structure Transport (τ : Type) where
  connect : Exchange τ Unit
  send : (unit : UInt8) → (pdu : Bytes) → Exchange τ Unit
  receive : (unit : UInt8) → Exchange τ Bytes
  close : StateM τ Unit
  isConnected : τ → Bool

end Modbus
