import Modbus.Stream

/-!
How a connection between a master and a device delivers what is written on
it: cut into reads, and after some time.
-/

namespace Modbus

/-- What becomes of the bytes that are written in one exchange after another. The times of what
arrives at the master count from the moment the request is sent. -/
structure Delivery where
  toDevice : (exchange : Nat) → Bytes → List Bytes
  toMaster : (exchange : Nat) → Bytes → List Arrival

/-- Nothing is lost or late. -/
structure Delivery.Faithful (delivery : Delivery) (timeout : Nat) : Prop where
  flatten_toDevice : ∀ n bytes, (delivery.toDevice n bytes).flatten = bytes
  flatten_toMaster : ∀ n bytes, ∃ pieces : List Bytes, pieces.flatten = bytes ∧
    (delivery.toMaster n bytes).map Arrival.read = pieces.map .data
  due_le : ∀ n bytes, ∀ arrival ∈ delivery.toMaster n bytes, arrival.due ≤ timeout

/-- Everything arrives at once and is read in the largest possible pieces. -/
def Delivery.prompt (size : Nat) : Delivery where
  toDevice _ bytes := pieces size bytes
  toMaster _ bytes := Arrival.ofBytes size 0 bytes

end Modbus
