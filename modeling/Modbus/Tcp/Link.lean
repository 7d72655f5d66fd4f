import Modbus.Delivery
import Modbus.Tcp.Client
import Modbus.Tcp.Server
import Modbus.Transport

/-!
A client whose connections go to a server.
-/

namespace Modbus.Tcp

variable {σ : Type}

structure Link (σ : Type) where
  device : σ
  client : Client := {}
  server : Server := {}
  connection : Option UInt64 := none
  exchanges : Nat := 0

namespace Link

/-- The client gives up its connection, and the server notices. -/
def close (link : Link σ) : Link σ :=
  { link with
    client := link.client.close
    server := link.connection.elim link.server link.server.finish
    connection := none }

def connect (opening : Opening) (link : Link σ) : Except Error Unit × Link σ :=
  let link := link.close
  match link.client.connect opening with
  | (.ok (), client) =>
    let (id, server) := link.server.accept "client"
    (.ok (), { link with client, server, connection := some id })
  | (.error cause, client) => (.error cause, { link with client })

/-- What the server sends in answer to a number of reads. -/
def serve (service : Device.Service σ) (id : UInt64) (server : Server) :
    List Bytes → StateM σ (Bytes × Server)
  | [] => return ([], server)
  | bytes :: rest => do
    let (sent, server) ← server.receive service .all id bytes
    let (more, server) ← serve service id server rest
    return (sent ++ more, server)

/-- The server notices if the client has given up its connection. -/
def settle (link : Link σ) : Link σ := if link.client.isConnected then link else link.close

/-- What the client sends reaches the server, and what the server answers reaches the client. -/
def send (service : Device.Service σ) (delivery : Delivery) (unit : UInt8) (pdu : Bytes)
    (link : Link σ) : Except Error Unit × Link σ :=
  let (outcome, sent, client) := link.client.send unit pdu
  match link.connection with
  | none => (outcome, { link with client })
  | some id =>
    let requests := delivery.toDevice link.exchanges sent
    let ((answered, server), device) := serve service id link.server requests link.device
    let connection := client.connection.map (·.feed (delivery.toMaster link.exchanges answered))
    (outcome, settle { link with
      device, server, client := { client with connection }, exchanges := link.exchanges + 1 })

def receive (unit : UInt8) (link : Link σ) : Except Error Bytes × Link σ :=
  let (outcome, client) := link.client.receive unit
  (outcome, settle { link with client })

/-- The server closes all connections, which the client does not notice at once. -/
def closeAll (link : Link σ) : Link σ :=
  { link with
    server := link.server.closeAll
    client := { link.client with
      connection := link.client.connection.map (·.feed [⟨0, .closed⟩]) } }

def transport (service : Device.Service σ) (delivery : Delivery) (opening : Opening) :
    Transport (Link σ) where
  connect := connect opening
  send := send service delivery
  receive := receive
  close link := ((), link.close)
  isConnected link := link.client.isConnected

end Link

end Modbus.Tcp
