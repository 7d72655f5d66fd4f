import Modbus.Action
import Modbus.Tcp.Frame

/-!
The master's end of a TCP connection. Requests are numbered, and the number
counts up with every response that is waited for. A response that does not
come in time closes the connection.
-/

namespace Modbus.Tcp

/-- The timeout, in milliseconds, holds for connecting, sending and receiving. -/
structure Client where
  timeout : Nat := 10000
  connection : Option Stream := none
  transaction : UInt16 := 0
  deriving DecidableEq, Repr

namespace Client

def isConnected (client : Client) : Bool := client.connection.isSome

def close (client : Client) : Client := { client with connection := none }

/-- Closes the connection that is open, and opens another one. -/
def connect (opening : Opening) (client : Client) : Except Error Unit × Client :=
  match opening with
  | .fails fault => (.error (.transport (.io fault)), client.close)
  | .after delay =>
    if client.timeout < delay then (.error (.transport .timeout), client.close)
    else (.ok (), { client with connection := some {} })

/-- Sends a request. The second component is what went out on the connection. -/
def send (unit : UInt8) (pdu : Bytes) (client : Client) : Except Error Unit × Bytes × Client :=
  match client.connection with
  | none => (.error (.transport .notConnected), [], client)
  | some stream =>
    match stream.transmit Acceptance.writeAll (Frame.wire ⟨client.transaction, unit, pdu⟩) with
    | (sent, .ok stream) => (.ok (), sent, { client with connection := some stream })
    | (sent, .error cause) => (.error (.transport cause), sent, client.close)

/-- The response to the request of a transaction, once the frame is complete. -/
def response (transaction : UInt16) (unit : UInt8) (received : Bytes) :
    Except ProtocolError (Option Bytes) :=
  (Frame.response transaction unit received).map (·.map Prod.fst)

/-- Waits for the response of a unit. What has come behind it is thrown away. -/
def receive (unit : UInt8) (client : Client) : Except Error Bytes × Client :=
  let counted := { client with transaction := client.transaction + 1 }
  match client.connection with
  | none => (.error (.transport .notConnected), counted)
  | some stream =>
    let waited := Stream.await (response client.transaction unit) (stream.now + client.timeout)
      stream.now [] stream.incoming
    let after (left : List Arrival) : Client :=
      { counted with connection := some { stream with now := waited.now, incoming := left } }
    match waited.outcome with
    | .ok pdu =>
      match Stream.drain waited.now waited.left with
      | (.error (.io fault), _) => (.error (.transport (.io fault)), counted.close)
      | (_, left) => (.ok pdu, after left)
    | .error (.transport cause) => (.error (.transport cause), counted.close)
    | .error cause => (.error cause, after waited.left)

def act (client : Client) : Action → Report × Client
  | .connect opening =>
    let (outcome, client) := client.connect opening
    (.ofUnit outcome [], client)
  | .send unit pdu =>
    let (outcome, sent, client) := client.send unit pdu
    (.ofUnit outcome sent, client)
  | .receive unit =>
    let (outcome, client) := client.receive unit
    ({ outcome := outcome.map some }, client)
  | .close => (.ofUnit (.ok ()) [], client.close)
  | .event event =>
    (.ofUnit (.ok ()) [], { client with connection := client.connection.map (·.happen event) })

end Client

end Modbus.Tcp
