import Modbus.Stream

/-!
The steps of a run on the master's end of a connection: what the master does,
and what happens to its stream meanwhile.
-/

namespace Modbus

/-- What happens to a stream without its owner doing anything. -/
inductive Event where
  | feed (arrivals : List Arrival)
  | pass (time : Nat)
  | accept (acceptance : Acceptance)
  deriving DecidableEq, Repr

def Stream.happen (stream : Stream) : Event → Stream
  | .feed arrivals => stream.feed arrivals
  | .pass time => { stream with now := stream.now + time }
  | .accept acceptance => { stream with acceptance }

inductive Action where
  | connect (opening : Opening)
  | send (unit : UInt8) (pdu : Bytes)
  | receive (unit : UInt8)
  | close
  | event (event : Event)
  deriving DecidableEq, Repr

/-- What a step gives back, which is a PDU if one was waited for, and what it has written. -/
structure Report where
  outcome : Except Error (Option Bytes)
  written : Bytes := []

/-- A report of a step that gives back nothing. -/
def Report.ofUnit (outcome : Except Error Unit) (written : Bytes) : Report :=
  ⟨outcome.map fun _ => none, written⟩

end Modbus
