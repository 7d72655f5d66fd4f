import Modbus.Proofs.FrameReading
import Modbus.Proofs.SerialStream

/-! What a station makes of a line on which anything may come. Whatever it
carries out has stood on the line as a whole frame, with a checksum that is
right, and no byte of the line is part of two requests. -/

namespace Modbus.Serial

variable {σ : Type}

/-- The frames stand in a stream one behind the other, with any bytes before, between and behind
them. -/
inductive StandIn : List Frame → Bytes → Prop where
  | nil (rest : Bytes) : StandIn [] rest
  | cons (gap : Bytes) {frame : Frame} {frames : List Frame} {rest : Bytes}
    (hpdu : frame.pdu ≠ []) (hrest : StandIn frames rest) :
    StandIn (frame :: frames) (gap ++ frame.wire ++ rest)

theorem StandIn.behind {frames : List Frame} {stream : Bytes} (h : StandIn frames stream)
    (gap : Bytes) : StandIn frames (gap ++ stream) := by
  cases h with
  | nil rest => exact .nil _
  | cons inner hpdu hrest =>
    rw [← List.append_assoc, ← List.append_assoc]
    exact .cons _ hpdu hrest

theorem StandIn.append {frames more : List Frame} {stream rest : Bytes}
    (h : StandIn frames stream) (hmore : StandIn more rest) :
    StandIn (frames ++ more) (stream ++ rest) := by
  induction h with
  | nil gap => exact hmore.behind gap
  | cons gap hpdu _ ih =>
    rw [List.append_assoc]
    exact .cons gap hpdu ih

/-- The requests that are taken off a buffer stand in it, before what is left. -/
theorem takeRequests_standIn (buffer : Bytes) :
    ∃ used, buffer = used ++ (takeRequests buffer).2 ∧ StandIn (takeRequests buffer).1 used := by
  fun_induction takeRequests buffer with
  | case1 buffer cause _ => exact ⟨buffer, (List.append_nil buffer).symm, .nil buffer⟩
  | case2 buffer _ => exact ⟨[], rfl, .nil []⟩
  | case3 buffer found hfound frames left htaken ih =>
    rw [htaken] at ih
    obtain ⟨used, hused, hstand⟩ := ih
    obtain ⟨hpdu, hsize, before, rest, hbuffer, hstart⟩ := within_of_decode hfound
    have hstop : found.stop = (before ++ found.frame.wire).length := by
      rw [Located.stop, hstart, hsize, List.length_append]
    rw [hbuffer, hstop, List.drop_left] at hused
    refine ⟨before ++ found.frame.wire ++ used, ?_, .cons before hpdu hstand⟩
    rw [hbuffer, hused, List.append_assoc _ used]

/-- The requests that one read after the other completes, and what is kept behind them. -/
def takeAll (received : Bytes) : List Bytes → List Frame × Bytes
  | [] => ([], received)
  | bytes :: rest =>
    ((takeRequests (received ++ bytes)).1 ++ (takeAll (takeRequests (received ++ bytes)).2 rest).1,
      (takeAll (takeRequests (received ++ bytes)).2 rest).2)

theorem takeAll_standIn (reads : List Bytes) (received : Bytes) :
    ∃ used, received ++ reads.flatten = used ++ (takeAll received reads).2 ∧
      StandIn (takeAll received reads).1 used := by
  induction reads generalizing received with
  | nil => exact ⟨[], List.append_nil received, .nil []⟩
  | cons bytes reads ih =>
    obtain ⟨first, hfirst, hstand⟩ := takeRequests_standIn (received ++ bytes)
    obtain ⟨others, hothers, hrest⟩ := ih (takeRequests (received ++ bytes)).2
    refine ⟨first ++ others, ?_, hstand.append hrest⟩
    rw [List.flatten_cons, ← List.append_assoc, hfirst, List.append_assoc, hothers, takeAll,
      List.append_assoc]

namespace Station

theorem run_eq_takeAll (station : Station σ) {acceptance : Acceptance}
    (hwrite : ∀ bytes, acceptance.write bytes = (bytes, .done)) (reads : List Bytes)
    (received : Bytes) :
    station.run acceptance (.listening received) (reads.map .data) = do
      let sent ← (takeAll received reads).1.mapM station.served
      return (sent.flatten, .listening (takeAll received reads).2) := by
  induction reads generalizing received with
  | nil => rfl
  | cons bytes reads ih =>
    rw [List.map_cons, run, next_eq_served station hwrite rfl, takeAll]
    simp only [bind_assoc, pure_bind, ih, List.mapM_append, List.flatten_append]

/-- What a station sends when a request for it, or for all, has been handed to the device. -/
theorem served_of_concerned (station : Station σ) {request : Frame}
    (h : request.unit = broadcast ∨ request.unit = station.unit) :
    station.served request = do
      let response ← Device.answer station.service request.unit request.pdu
      return if request.unit = broadcast then []
        else response.elim [] fun pdu => Frame.wire ⟨station.unit, pdu⟩ := by
  rw [served]
  by_cases hbroadcast : request.unit = broadcast
  · simp only [if_pos hbroadcast]
    rfl
  · have hunit : request.unit = station.unit := h.resolve_left hbroadcast
    rw [if_neg hbroadcast, if_pos hunit, ← hunit]
    simp only [if_neg hbroadcast]
    rfl

/-- Requests for other units change nothing. -/
theorem flatten_served (station : Station σ) (requests : List Frame) :
    List.flatten <$> requests.mapM station.served =
      List.flatten <$> (requests.filter fun request =>
          request.unit = broadcast ∨ request.unit = station.unit).mapM fun request => do
        let response ← Device.answer station.service request.unit request.pdu
        return if request.unit = broadcast then []
          else response.elim [] fun pdu => Frame.wire ⟨station.unit, pdu⟩ := by
  induction requests with
  | nil => rfl
  | cons request rest ih =>
    rw [List.mapM_cons, List.filter_cons]
    split
    · next hconcerned =>
      have hrest := congrArg (fun sent => do
        let first ← station.served request
        let others ← sent
        return first ++ others) ih
      rw [List.mapM_cons, ← served_of_concerned station (of_decide_eq_true hconcerned)]
      simpa using hrest
    · next hother =>
      have hnot := of_decide_eq_false (Bool.not_eq_true _ ▸ hother)
      rw [not_or] at hnot
      rw [served, if_neg hnot.1, if_neg hnot.2, ← ih]
      simp

theorem flatten_reply (station : Station σ) (requests : List Frame) :
    List.flatten <$> requests.mapM station.served =
      (fun replies => replies.flatMap (·.getD [])) <$> requests.mapM station.reply := by
  induction requests with
  | nil => rfl
  | cons request rest ih =>
    have hrest := congrArg (fun sent => do
      let first ← station.reply request
      let others ← sent
      return first.getD [] ++ others) ih
    rw [List.mapM_cons, List.mapM_cons, served_eq_reply]
    simpa using hrest

/-- On any line, the requests that a station takes have stood there whole, one behind the other,
before what is kept. Each of them is handed to `reply`, in order, and this comes to the same as
handing those for all units and for this one to the device, and answering the latter only. -/
theorem run_takes_whole_frames (station : Station σ) {acceptance : Acceptance}
    (hwrite : ∀ bytes, acceptance.write bytes = (bytes, .done)) (reads : List Bytes) :
    let requests := (takeAll [] reads).1
    let left := (takeAll [] reads).2
    let served := station.run acceptance (.listening []) (reads.map .data)
    (∃ used, reads.flatten = used ++ left ∧ StandIn requests used) ∧
    (served = do
      let replies ← requests.mapM station.reply
      return (replies.flatMap (·.getD []), .listening left)) ∧
    (served = do
      let sent ← (requests.filter fun request =>
          request.unit = broadcast ∨ request.unit = station.unit).mapM fun request => do
        let response ← Device.answer station.service request.unit request.pdu
        return if request.unit = broadcast then []
          else response.elim [] fun pdu => Frame.wire ⟨station.unit, pdu⟩
      return (sent.flatten, .listening left)) := by
  intro requests left served
  have hserved : served = (fun sent => (sent, .listening left)) <$>
      (List.flatten <$> requests.mapM station.served) := by
    rw [Functor.map_map, map_eq_pure_bind]
    exact run_eq_takeAll station hwrite reads []
  refine ⟨takeAll_standIn reads [], ?_, ?_⟩
  · rw [hserved, flatten_reply, Functor.map_map, map_eq_pure_bind]
  · rw [hserved, flatten_served, Functor.map_map, map_eq_pure_bind]

set_option maxRecDepth 2000 in
theorem run_takes_whole_frames_behind_noise :
    let service := Device.Handlers.service
      { readHoldingRegisters := some Device.Memory.readHoldingRegisters }
    let reads : List Bytes := [[255, 2, 6, 0, 0], [0, 9, 73, 255, 1, 3, 0, 0, 0, 1, 132, 10, 7]]
    takeAll [] reads = ([⟨2, [6, 0, 0, 0, 9]⟩, ⟨1, [3, 0, 0, 0, 1]⟩], [7]) ∧
    ((Station.mk 1 service).run .all (.listening []) (reads.map .data)).run
        { holdingRegisters := [5] } =
      (([1, 3, 2, 0, 5, 120, 71], .listening [7]), { holdingRegisters := [5] }) := by
  intro service reads
  have hbegun : decode .request [255, 2, 6, 0, 0] = .ok none := by cbv
  have hother : decode .request [255, 2, 6, 0, 0, 0, 9, 73, 255, 1, 3, 0, 0, 0, 1, 132, 10, 7] =
      .ok (some ⟨⟨2, [6, 0, 0, 0, 9]⟩, 1, 8⟩) := by cbv
  have hown : decode .request [1, 3, 0, 0, 0, 1, 132, 10, 7] =
      .ok (some ⟨⟨1, [3, 0, 0, 0, 1]⟩, 0, 8⟩) := by
    refine decode_of_frameAt (by decide) ?_
    cbv
  have hleft : decode .request [7] = .ok none := rfl
  have htaken : takeAll [] reads = ([⟨2, [6, 0, 0, 0, 9]⟩, ⟨1, [3, 0, 0, 0, 1]⟩], [7]) := by
    simp [reads, takeAll, takeRequests_none hbegun, takeRequests_some hother, Located.stop,
      takeRequests_some hown, takeRequests_none hleft]
  have hwrite : ∀ bytes, Acceptance.all.write bytes = (bytes, .done) := fun _ => rfl
  have hreplied : (List.mapM (Station.mk 1 service).reply [⟨2, [6, 0, 0, 0, 9]⟩,
      ⟨1, [3, 0, 0, 0, 1]⟩]).run { holdingRegisters := [5] } =
      ([none, some [1, 3, 2, 0, 5, 120, 71]], { holdingRegisters := [5] }) := by
    change @Eq (List (Option Bytes) × Device.Memory) _ _
    decide +kernel
  obtain ⟨-, hrun, -⟩ := run_takes_whole_frames ⟨1, service⟩ hwrite reads
  refine ⟨htaken, ?_⟩
  rw [hrun, htaken, StateT.run_bind, hreplied]
  rfl

end Station

end Modbus.Serial
