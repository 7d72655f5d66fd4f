import Modbus.Device.Answer
import Modbus.Serial.Scan
import Modbus.Stream

/-!
A device on a serial line. It answers the requests for its own unit, carries
out those for all units without a word, and ignores those for others.
-/

namespace Modbus.Serial

variable {σ : Type}

/-- The unit of requests that all devices carry out and none answers. -/
def broadcast : UInt8 := 0

theorem size_pos_of_frameAt {direction : Direction} {start : Nat} {bytes : Bytes} {found : Located}
    (h : frameAt direction start bytes = .ok (some found)) (hne : bytes ≠ []) : 0 < found.size := by
  unfold frameAt at h
  split at h
  · cases h
  · simp only [bind, Except.bind] at h
    split at h
    · cases h
    · rename_i frame? _
      cases frame? with
      | none => cases h
      | some frame => cases h; simp [Frame.overhead]
  · split at h
    · cases h; exact List.length_pos_iff.mpr hne
    · cases h

theorem size_pos_of_scan {direction : Direction} {start : Nat} {bytes : Bytes} {found : Located}
    (h : scan direction start bytes = .ok (some found)) : 0 < found.size := by
  fun_induction scan direction start bytes with
  | case1 => cases h
  | case2 => cases h
  | case3 start byte next rest located hf => exact size_pos_of_frameAt (hf.trans h) (by simp)
  | case4 => cases h
  | case5 start byte next rest cause hf hlt ih => exact ih h

theorem size_pos_of_decode {direction : Direction} {buffer : Bytes} {found : Located}
    (h : decode direction buffer = .ok (some found)) : 0 < found.size ∧ 0 < buffer.length := by
  unfold decode find at h
  split at h
  · cases h
  · split at h
    · cases h
    · exact ⟨size_pos_of_scan h, by omega⟩

/-- Takes the requests off the front of what has been received, and leaves what may become one.
Where nothing can, all of it is thrown away. -/
def takeRequests (buffer : Bytes) : List Frame × Bytes :=
  match _h : decode .request buffer with
  | .error _ => ([], [])
  | .ok none => ([], buffer)
  | .ok (some found) =>
    let (frames, left) := takeRequests (buffer.drop found.stop)
    (found.frame :: frames, left)
termination_by buffer.length
decreasing_by
  have := size_pos_of_decode _h
  simp [Located.stop]; omega

structure Station (σ : Type) where
  unit : UInt8
  service : Device.Service σ

namespace Station

/-- Listening with some bytes received, or at the end of its service, or held up by a line that
does not take a response. -/
inductive Phase where
  | listening (received : Bytes)
  | ended (outcome : Except Fault Unit)
  | heldUp

/-- Carries out a request. What is to be sent is a whole frame. -/
def reply (station : Station σ) (request : Frame) : StateM σ (Option Bytes) := do
  if request.unit = broadcast then
    let _ ← Device.answer station.service request.unit request.pdu
    return none
  else if request.unit ≠ station.unit then return none
  else
    let response ← Device.answer station.service request.unit request.pdu
    return response.map fun pdu => Frame.wire ⟨request.unit, pdu⟩

/-- Carries out requests until a response cannot be sent. Tells which bytes went out. -/
def replyAll (station : Station σ) (acceptance : Acceptance) :
    List Frame → StateM σ (Bytes × Written)
  | [] => return ([], .done)
  | request :: rest => do
    match ← station.reply request with
    | none => station.replyAll acceptance rest
    | some frame =>
      match acceptance.write frame with
      | (sent, .done) =>
        let (more, written) ← station.replyAll acceptance rest
        return (sent ++ more, written)
      | (sent, written) => return (sent, written)

/-- What a single read leads to. -/
def next (station : Station σ) (acceptance : Acceptance) (received : Bytes) :
    Read → StateM σ (Bytes × Phase)
  | .closed => return ([], .ended (.ok ()))
  | .failed fault => return ([], .ended (.error fault))
  | .data bytes => do
    let (requests, left) := takeRequests (received ++ bytes)
    let (sent, written) ← station.replyAll acceptance requests
    match written with
    | .done => return (sent, .listening left)
    | .failed fault => return (sent, .ended (.error fault))
    | .stalled => return (sent, .heldUp)

/-- Serves a line read by read, as long as the service goes on. -/
def run (station : Station σ) (acceptance : Acceptance) : Phase → List Read →
    StateM σ (Bytes × Phase)
  | .listening received, read :: rest => do
    let (sent, phase) ← station.next acceptance received read
    let (more, phase) ← station.run acceptance phase rest
    return (sent ++ more, phase)
  | phase, _ => return ([], phase)

end Station

end Modbus.Serial
