import Modbus.Tcp.Registry

/-!
A device that serves any number of TCP connections at a time. A connection on
which nothing has been received for too long is closed.
-/

namespace Modbus.Tcp

variable {σ : Type}

structure Connection where
  id : UInt64
  session : Session := {}
  waitingSince : Nat
  deriving DecidableEq, Repr

/-- Times are in milliseconds. -/
structure Server where
  idleTimeout : Nat := 120000
  now : Nat := 0
  registry : Registry := {}
  connections : List Connection := []
  deriving DecidableEq, Repr

namespace Server

/-- A new connection from an address, and its number. -/
def accept (server : Server) (peer : String) : UInt64 × Server :=
  let (id, registry) := server.registry.accept peer server.now
  (id, { server with
    registry, connections := server.connections ++ [{ id, waitingSince := server.now }] })

def isOpen (server : Server) (id : UInt64) : Bool := server.connections.any (·.id = id)

/-- The end of a connection, whichever side has closed it. -/
def finish (id : UInt64) (server : Server) : Server :=
  { server with
    registry := server.registry.complete id server.now
    connections := server.connections.filter (·.id ≠ id) }

/-- A connection goes on with what a read has left of its session. -/
def proceed (id : UInt64) (session : Session) (server : Server) : Server :=
  let updated : Connection := ⟨id, session, server.now⟩
  { server with
    registry := server.registry.setPhase id session.phase server.now
    connections := server.connections.map fun c => if c.id = id then updated else c }

/-- What has come on a connection is answered, unless the connection is closed. Tells which bytes
go out on it. -/
def receive (service : Device.Service σ) (acceptance : Acceptance) (id : UInt64) (bytes : Bytes)
    (server : Server) : StateM σ (Bytes × Server) :=
  match server.connections.find? (·.id = id) with
  | none => return ([], server)
  | some connection => do
    match ← connection.session.next service acceptance bytes with
    | (sent, none) => return (sent, server.finish id)
    | (sent, some session) => return (sent, server.proceed id session)

/-- The connections on which nothing has come for as long as the timeout. -/
def expired (server : Server) : List UInt64 :=
  (server.connections.filter fun c => c.waitingSince + server.idleTimeout ≤ server.now).map (·.id)

/-- Lets time pass. -/
def advance (time : Nat) (server : Server) : Server :=
  let later := { server with now := server.now + time }
  later.expired.foldl (fun server id => server.finish id) later

def closeAll (server : Server) : Server :=
  { server with registry := server.registry.closeAll, connections := [] }

end Server

end Modbus.Tcp
