import Modbus.Delivery
import Modbus.Serial.Port
import Modbus.Serial.Station
import Modbus.Transport

/-!
A port and a station at the two ends of a line. Every time the port is
connected it is a new line.
-/

namespace Modbus.Serial

variable {σ : Type}

structure Link (σ : Type) where
  device : σ
  port : Port := {}
  station : Station.Phase := .listening []
  exchanges : Nat := 0

namespace Link

def connect (opening : Opening) (link : Link σ) : Except Error Unit × Link σ :=
  let (outcome, port) := link.port.connect opening
  (outcome, { link with port, station := .listening [] })

/-- What the port sends reaches the station, and what the station answers reaches the port. -/
def send (station : Station σ) (delivery : Delivery) (unit : UInt8) (pdu : Bytes)
    (link : Link σ) : Except Error Unit × Link σ :=
  let (outcome, sent, port) := link.port.send unit pdu
  let requests := (delivery.toDevice link.exchanges sent).map Read.data
  let ((answered, phase), device) := station.run .all link.station requests link.device
  let line := port.line.map (·.feed (delivery.toMaster link.exchanges answered))
  (outcome, ⟨device, { port with line }, phase, link.exchanges + 1⟩)

def receive (unit : UInt8) (link : Link σ) : Except Error Bytes × Link σ :=
  let (outcome, port) := link.port.receive unit
  (outcome, { link with port })

def transport (station : Station σ) (delivery : Delivery) (opening : Opening) :
    Transport (Link σ) where
  connect := connect opening
  send := send station delivery
  receive := receive
  close link := ((), { link with port := link.port.close })
  isConnected link := link.port.isConnected

end Link

end Modbus.Serial
