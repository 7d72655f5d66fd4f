import Modbus.Action
import Modbus.Serial.Scan

/-!
The master's end of a serial line. A response that does not come in time
leaves the line open, and the next request throws away what has come since;
every other failure of the line closes it.
-/

namespace Modbus.Serial

/-- Limits in milliseconds: for opening a line, and for sending as well as for receiving. -/
structure Timing where
  connect : Nat := 100
  response : Nat := 1000
  deriving DecidableEq, Repr

structure Port where
  timing : Timing := {}
  line : Option Stream := none
  deriving DecidableEq, Repr

/-- The PDU with which a unit answers, once the frame is complete. -/
def response (unit : UInt8) (received : Bytes) : Except ProtocolError (Option Bytes) := do
  match ← decode .response received with
  | none => return none
  | some located =>
    if located.frame.unit ≠ unit then throw (.unitMismatch unit located.frame.unit)
    else return some located.frame.pdu

namespace Port

def isConnected (port : Port) : Bool := port.line.isSome

def close (port : Port) : Port := { port with line := none }

/-- Closes the line that is open, and opens another one. -/
def connect (opening : Opening) (port : Port) : Except Error Unit × Port :=
  match opening with
  | .fails fault => (.error (.transport (.io fault)), port.close)
  | .after delay =>
    if port.timing.connect < delay then (.error (.transport .timeout), port.close)
    else (.ok (), { port with line := some {} })

/-- Sends a request. The second component is what went out on the line. -/
def send (unit : UInt8) (pdu : Bytes) (port : Port) : Except Error Unit × Bytes × Port :=
  match port.line with
  | none => (.error (.transport .notConnected), [], port)
  | some line =>
    match line.transmit Acceptance.write (Frame.wire ⟨unit, pdu⟩) with
    | (sent, .ok line) => (.ok (), sent, { port with line := some line })
    | (sent, .error cause) => (.error (.transport cause), sent, port.close)

/-- Waits for the response of a unit. -/
def receive (unit : UInt8) (port : Port) : Except Error Bytes × Port :=
  match port.line with
  | none => (.error (.transport .notConnected), port)
  | some line =>
    let waited :=
      Stream.await (response unit) (line.now + port.timing.response) line.now [] line.incoming
    let after := { port with line := some { line with now := waited.now, incoming := waited.left } }
    match waited.outcome with
    | .error (.transport .timeout) => (.error (.transport .timeout), after)
    | .error (.transport cause) => (.error (.transport cause), port.close)
    | outcome => (outcome, after)

def act (port : Port) : Action → Report × Port
  | .connect opening =>
    let (outcome, port) := port.connect opening
    (.ofUnit outcome [], port)
  | .send unit pdu =>
    let (outcome, sent, port) := port.send unit pdu
    (.ofUnit outcome sent, port)
  | .receive unit =>
    let (outcome, port) := port.receive unit
    ({ outcome := outcome.map some }, port)
  | .close => (.ofUnit (.ok ()) [], port.close)
  | .event event => (.ofUnit (.ok ()) [], { port with line := port.line.map (·.happen event) })

end Port

end Modbus.Serial
