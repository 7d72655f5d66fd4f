import Modbus.Device.Answer
import Modbus.Stream
import Modbus.Tcp.Frame

/-!
One connection of a device that serves TCP. Requests may be cut and joined in
any way. Frames of a foreign protocol are skipped as far as their length says,
and a header that no frame can have throws away what has been received.
-/

namespace Modbus.Tcp

variable {σ : Type}

/-- Bytes that may become a request, and the number of those to come that belong to a foreign
frame. -/
structure Session where
  received : Bytes := []
  foreign : Nat := 0
  deriving DecidableEq, Repr

/-- Where a connection is in the cycle of requests. -/
inductive Phase where
  | idle
  | reading
  | dispatching
  | writing
  | closed
  deriving DecidableEq, Repr

def Phase.name : Phase → String
  | .idle => "Idle"
  | .reading => "Reading"
  | .dispatching => "Dispatching"
  | .writing => "Writing"
  | .closed => "Closed"

theorem pos_of_ofFront_some {buffer : Bytes} {frame : Frame} {length : Nat}
    (h : Frame.ofFront buffer = .ok (some (frame, length))) : 0 < buffer.length ∧ 0 < length := by
  unfold Frame.ofFront at h
  split at h
  · simp only at h
    split at h
    · cases h
    · split at h
      · cases h
      · split at h
        · cases h
        · simp only [Except.map] at h
          split at h
          · cases h
          · cases h; exact ⟨by simp, by omega⟩
  · cases h

theorem pos_of_ofFront_foreign {buffer : Bytes} {protocol : UInt16}
    (h : Frame.ofFront buffer = .error (.protocolNotModbus protocol)) :
    0 < buffer.length ∧ 0 < (Frame.announcedLength buffer).getD buffer.length := by
  unfold Frame.ofFront at h
  split at h
  · refine ⟨by simp, ?_⟩
    simp only [Frame.announcedLength, Option.getD_some]
    omega
  · cases h

namespace Session

/-- A session between two requests, as its phase shows it. -/
def phase (session : Session) : Phase := if session.received.isEmpty then .idle else .reading

/-- Takes the requests off the front of what has been received. -/
def takeRequests (buffer : Bytes) (foreign : Nat) : List Frame × Session :=
  match _h : Frame.ofFront buffer with
  | .ok none => ([], ⟨buffer, foreign⟩)
  | .ok (some (frame, length)) =>
    let (frames, session) := takeRequests (buffer.drop length) foreign
    (frame :: frames, session)
  | .error (.protocolNotModbus _) =>
    let length := (Frame.announcedLength buffer).getD buffer.length
    takeRequests (buffer.drop length) (length - buffer.length)
  | .error _ => ([], ⟨[], foreign⟩)
termination_by buffer.length
decreasing_by
  · have := pos_of_ofFront_some _h
    simp; omega
  · have := pos_of_ofFront_foreign _h
    simp; omega

/-- Answers a request in its own transaction. -/
def reply (service : Device.Service σ) (request : Frame) : StateM σ (Option Frame) := do
  let response ← Device.answer service request.unit request.pdu
  return response.map fun pdu => { request with pdu }

/-- Answers requests until a response cannot be sent. Tells which bytes went out. -/
def replyAll (service : Device.Service σ) (acceptance : Acceptance) :
    List Frame → StateM σ (Bytes × Written)
  | [] => return ([], .done)
  | request :: rest => do
    match ← reply service request with
    | none => replyAll service acceptance rest
    | some response =>
      match acceptance.writeAll response.wire with
      | (sent, .done) =>
        let (more, written) ← replyAll service acceptance rest
        return (sent ++ more, written)
      | broken => return broken

/-- A response that cannot be sent ends the session. -/
def next (service : Device.Service σ) (acceptance : Acceptance) (session : Session)
    (bytes : Bytes) : StateM σ (Bytes × Option Session) := do
  let skipped := min session.foreign bytes.length
  let (requests, session) :=
    takeRequests (session.received ++ bytes.drop skipped) (session.foreign - skipped)
  let (sent, written) ← replyAll service acceptance requests
  return (sent, if written = .done then some session else none)

/-- Serves a connection read by read, as long as the session goes on. -/
def run (service : Device.Service σ) (acceptance : Acceptance) (session : Session) :
    List Bytes → StateM σ (Bytes × Option Session)
  | [] => return ([], some session)
  | bytes :: rest => do
    match ← session.next service acceptance bytes with
    | (sent, none) => return (sent, none)
    | (sent, some session) =>
      let (more, session?) ← session.run service acceptance rest
      return (sent ++ more, session?)

end Session

end Modbus.Tcp
