import Modbus.Bits

/-!
A connection as one of its ends sees it: bytes, the end of the stream and
failures become readable at certain times, and what is written is taken in
one way or another. Time is counted in milliseconds.
-/

namespace Modbus

inductive Read where
  | data (bytes : Bytes)
  | closed
  | failed (fault : Fault)
  deriving DecidableEq, Repr

/-- Cuts bytes into pieces for reads with a buffer of the given size. -/
def pieces (size : Nat) (bytes : Bytes) : List Bytes :=
  if bytes = [] ∨ size = 0 then []
  else bytes.take size :: pieces size (bytes.drop size)
termination_by bytes.length
decreasing_by
  rename_i h
  have := List.length_pos_iff.mpr (not_or.mp h).1
  simp; omega

structure Arrival where
  due : Nat
  read : Read
  deriving DecidableEq, Repr

/-- Bytes that become readable together, in pieces for a buffer of the given size. No bytes at all
are one empty piece, which brings nothing but holds back what comes behind it. -/
def Arrival.ofBytes (size due : Nat) (bytes : Bytes) : List Arrival :=
  (if bytes = [] then [[]] else pieces size bytes).map (⟨due, .data ·⟩)

inductive Written where
  | done
  | failed (fault : Fault)
  | stalled
  deriving DecidableEq, Repr

/-- How the far end takes the next write: some bytes of it, with a failure, or not in time. -/
inductive Turn where
  | takes (count : Nat)
  | fails (fault : Fault)
  | stalls
  deriving DecidableEq, Repr

/-- How the far end takes a frame: turn by turn, and all that is left of it when there are no more
turns. -/
structure Acceptance where
  turns : List Turn := []
  flush : Written := .done
  deriving DecidableEq, Repr

namespace Acceptance

def all : Acceptance := {}

def fails (fault : Fault) : Acceptance := { turns := [.fails fault] }

def failsFlush (fault : Fault) : Acceptance := { flush := .failed fault }

def stalls : Acceptance := { turns := [.stalls] }

/-- Writes of any size come to the same in the end, but for those that take nothing. -/
def atMost : (bytes : Nat) → Acceptance
  | 0 => { turns := [.takes 0] }
  | _ + 1 => {}

def writeTurns : List Turn → Bytes → Bytes × Written
  | [], bytes => (bytes, .done)
  | _, [] => ([], .done)
  | .takes 0 :: _, _ => ([], .failed "WriteZero")
  | .takes count :: turns, bytes =>
    let (sent, written) := writeTurns turns (bytes.drop count)
    (bytes.take count ++ sent, written)
  | .fails fault :: _, _ => ([], .failed fault)
  | .stalls :: _, _ => ([], .stalled)

/-- Writes until nothing is left or a write takes nothing. Tells which bytes went out. -/
def writeAll (acceptance : Acceptance) (bytes : Bytes) : Bytes × Written :=
  writeTurns acceptance.turns bytes

def write (acceptance : Acceptance) (bytes : Bytes) : Bytes × Written :=
  match acceptance.writeAll bytes with
  | (sent, .done) => (sent, acceptance.flush)
  | broken => broken

end Acceptance

inductive Opening where
  | after (delay : Nat)
  | fails (fault : Fault)
  deriving DecidableEq, Repr

/-- Arrivals are read in their order, so one that is not due yet holds back those behind it. -/
structure Stream where
  now : Nat := 0
  incoming : List Arrival := []
  acceptance : Acceptance := .all
  deriving DecidableEq, Repr

namespace Stream

/-- A stream on which more becomes readable; the times count from now on. -/
def feed (stream : Stream) (arrivals : List Arrival) : Stream :=
  { stream with
    incoming := stream.incoming ++ arrivals.map fun a => ⟨stream.now + a.due, a.read⟩ }

/-- Reads everything that is ready by now and throws the data away. The first read that finds
more than data is reported; an end of the stream stays where it is. -/
def drain (now : Nat) : List Arrival → Except TransportError Unit × List Arrival
  | [] => (.ok (), [])
  | arrival :: rest =>
    if now < arrival.due then (.ok (), arrival :: rest)
    else match arrival.read with
      | .data _ => drain now rest
      | .closed => (.error .disconnected, arrival :: rest)
      | .failed fault => (.error (.io fault), rest)

/-- Drains the stream and writes a frame. Tells which bytes went out, and gives the stream back
unless that failed. -/
def transmit (write : Acceptance → Bytes → Bytes × Written) (frame : Bytes) (stream : Stream) :
    Bytes × Except TransportError Stream :=
  match drain stream.now stream.incoming with
  | (.error cause, _) => ([], .error cause)
  | (.ok (), left) =>
    match write stream.acceptance frame with
    | (sent, .done) => (sent, .ok { stream with incoming := left })
    | (sent, .failed fault) => (sent, .error (.io fault))
    | (sent, .stalled) => (sent, .error .timeout)

structure Waited (α : Type) where
  outcome : Except Error α
  now : Nat
  left : List Arrival

/-- Reads until `decode` finds an answer in all that has been received. Nothing is read that
becomes ready after the deadline. -/
def await {α : Type} (decode : Bytes → Except ProtocolError (Option α)) (deadline now : Nat)
    (received : Bytes) : List Arrival → Waited α
  | [] => ⟨.error (.transport .timeout), deadline, []⟩
  | arrival :: rest =>
    if deadline < arrival.due then ⟨.error (.transport .timeout), deadline, arrival :: rest⟩
    else
      let now := max now arrival.due
      match arrival.read with
      | .closed => ⟨.error (.transport .disconnected), now, rest⟩
      | .failed fault => ⟨.error (.transport (.io fault)), now, rest⟩
      | .data bytes =>
        match decode (received ++ bytes) with
        | .error cause => ⟨.error (.protocol cause), now, rest⟩
        | .ok (some answer) => ⟨.ok answer, now, rest⟩
        | .ok none => await decode deadline now (received ++ bytes) rest

end Stream

end Modbus
