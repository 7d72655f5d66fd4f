import Modbus.Device.Memory
import Modbus.Proofs.SerialFraming

/-! A station on a serial line answers the requests of a stream, however the
stream is cut into reads. What is kept between two reads is the beginning of
one request at most, and it is empty at the end. -/

namespace Modbus.Serial

variable {σ : Type}

theorem takeRequests_none {buffer : Bytes} (h : decode .request buffer = .ok none) :
    takeRequests buffer = ([], buffer) := by
  rw [takeRequests]
  split <;> simp_all

theorem takeRequests_some {buffer : Bytes} {found : Located}
    (h : decode .request buffer = .ok (some found)) :
    takeRequests buffer =
      (found.frame :: (takeRequests (buffer.drop found.stop)).1,
        (takeRequests (buffer.drop found.stop)).2) := by
  rw [takeRequests]
  split <;> simp_all

theorem takeRequests_wire_append {frame : Frame} (h : Delimited frame.pdu) (rest : Bytes) :
    takeRequests (frame.wire ++ rest) =
      (frame :: (takeRequests rest).1, (takeRequests rest).2) := by
  rw [takeRequests_some (decode_append h.tells rest), Located.stop, Nat.zero_add, List.drop_left]

theorem takeRequests_wires {frames : List Frame} (h : ∀ frame ∈ frames, Delimited frame.pdu) :
    takeRequests (frames.flatMap Frame.wire) = (frames, []) := by
  induction frames with
  | nil => exact takeRequests_none rfl
  | cons frame frames ih =>
    obtain ⟨hframe, hframes⟩ := List.forall_mem_cons.mp h
    rw [List.flatMap_cons, takeRequests_wire_append hframe, ih hframes]

/-- Bytes in which no request is complete. -/
def Unfinished (buffer : Bytes) : Prop := takeRequests buffer = ([], buffer)

theorem unfinished_nil : Unfinished [] := takeRequests_none rfl

/-- Of some requests that have begun to come, those that are complete are taken off, and what is
left goes on with the others. -/
theorem takeRequests_prefix {frames : List Frame} (h : ∀ frame ∈ frames, Delimited frame.pdu)
    {received more : Bytes} (hreceived : received ++ more = frames.flatMap Frame.wire) :
    ∃ complete pending left, frames = complete ++ pending ∧
      takeRequests received = (complete, left) ∧ Unfinished left ∧
      left ++ more = pending.flatMap Frame.wire := by
  induction frames generalizing received with
  | nil =>
    obtain ⟨rfl, rfl⟩ := List.append_eq_nil_iff.mp hreceived
    exact ⟨[], [], [], rfl, unfinished_nil, unfinished_nil, rfl⟩
  | cons frame frames ih =>
    obtain ⟨hframe, hframes⟩ := List.forall_mem_cons.mp h
    rw [List.flatMap_cons] at hreceived
    have hfirst : received <+: received ++ more := List.prefix_append _ _
    have hwire : frame.wire <+: received ++ more := ⟨_, hreceived.symm⟩
    -- either the first request is still incomplete, or what is behind it has begun to come
    rcases Nat.lt_or_ge received.length frame.wire.length with hlen | hlen
    · have htake := List.prefix_iff_eq_take.mp
        (List.prefix_of_prefix_length_le hfirst hwire (Nat.le_of_lt hlen))
      have hnone := decode_take hframe.tells hlen
      rw [← htake] at hnone
      exact ⟨[], frame :: frames, received, rfl, takeRequests_none hnone, takeRequests_none hnone,
        hreceived⟩
    · obtain ⟨rest, rfl⟩ := List.prefix_of_prefix_length_le hwire hfirst hlen
      rw [List.append_assoc, List.append_cancel_left_eq] at hreceived
      obtain ⟨complete, pending, left, rfl, htaken, hleft, hpending⟩ := ih hframes hreceived
      refine ⟨frame :: complete, pending, left, rfl, ?_, hleft, hpending⟩
      rw [takeRequests_wire_append hframe, htaken]

namespace Station

/-- What a station makes of a request: it carries out those for all units and its own, and answers
the latter. -/
def served (station : Station σ) (request : Frame) : StateM σ Bytes :=
  if request.unit = broadcast then
    (fun _ => []) <$> Device.answer station.service request.unit request.pdu
  else if request.unit = station.unit then
    (fun response => response.elim [] fun pdu => Frame.wire ⟨request.unit, pdu⟩) <$>
      Device.answer station.service request.unit request.pdu
  else return []

theorem served_eq_reply (station : Station σ) (request : Frame) :
    station.served request = (·.getD []) <$> station.reply request := by
  rw [served, reply]
  split
  · simp
  · by_cases hunit : request.unit = station.unit
    · rw [if_pos hunit, if_neg (not_not_intro hunit)]
      rw [bind_pure_comp, Functor.map_map]
      refine congrArg (· <$> _) (funext fun response => ?_)
      cases response <;> rfl
    · rw [if_neg hunit, if_pos hunit]
      simp

/-- If the line takes what is written, every request is served. -/
theorem replyAll_eq_served (station : Station σ) {acceptance : Acceptance}
    (hwrite : ∀ bytes, acceptance.write bytes = (bytes, .done)) (requests : List Frame) :
    station.replyAll acceptance requests = do
      let sent ← requests.mapM station.served
      return (sent.flatten, .done) := by
  induction requests with
  | nil => rfl
  | cons request rest ih =>
    rw [replyAll, List.mapM_cons, served_eq_reply]
    simp only [ih, hwrite, bind_map_left, bind_assoc, pure_bind]
    congr
    funext reply
    cases reply with
    | none => rfl
    | some frame => simp

theorem next_eq_served (station : Station σ) {acceptance : Acceptance}
    (hwrite : ∀ bytes, acceptance.write bytes = (bytes, .done)) {received bytes left : Bytes}
    {requests : List Frame} (h : takeRequests (received ++ bytes) = (requests, left)) :
    station.next acceptance received (.data bytes) = do
      let sent ← requests.mapM station.served
      return (sent.flatten, .listening left) := by
  rw [next, h]
  simp only [replyAll_eq_served station hwrite, bind_assoc, pure_bind]

/-- A line on which requests have begun to come is served as if it were idle and the requests came
whole. -/
theorem run_pending (station : Station σ) {acceptance : Acceptance}
    (hwrite : ∀ bytes, acceptance.write bytes = (bytes, .done)) {pending : List Frame}
    (hpending : ∀ frame ∈ pending, Delimited frame.pdu) (reads : List Bytes) {received : Bytes}
    (hreceived : Unfinished received)
    (hreads : received ++ reads.flatten = pending.flatMap Frame.wire) :
    station.run acceptance (.listening received) (reads.map .data) = do
      let sent ← pending.mapM station.served
      return (sent.flatten, .listening []) := by
  induction reads generalizing received pending with
  | nil =>
    -- all requests have come whole, and none of them is still unfinished
    rw [List.flatten_nil, List.append_nil] at hreads
    have hall := takeRequests_wires hpending
    rw [← hreads, hreceived] at hall
    obtain ⟨rfl, rfl⟩ := Prod.mk.inj hall
    rfl
  | cons bytes reads ih =>
    rw [List.flatten_cons, ← List.append_assoc] at hreads
    obtain ⟨complete, others, left, rfl, htaken, hleft, hothers⟩ :=
      takeRequests_prefix hpending hreads
    have hrest : ∀ frame ∈ others, Delimited frame.pdu := fun frame h =>
      hpending frame (List.mem_append_right _ h)
    rw [List.map_cons, run, next_eq_served station hwrite htaken]
    simp only [bind_assoc, pure_bind, ih hrest hleft hothers, List.mapM_append,
      List.flatten_append]

/-- Serving a line is serving the requests of its stream, however the stream is cut into reads, if
every request tells its length and the line takes what is written. -/
theorem run_eq_served (station : Station σ) {acceptance : Acceptance}
    (hwrite : ∀ bytes, acceptance.write bytes = (bytes, .done)) {frames : List Frame}
    (hframes : ∀ frame ∈ frames, Delimited frame.pdu) (reads : List Bytes)
    (hreads : reads.flatten = frames.flatMap Frame.wire) :
    station.run acceptance (.listening []) (reads.map .data) = do
      let sent ← frames.mapM station.served
      return (sent.flatten, .listening []) :=
  run_pending station hwrite hframes reads unfinished_nil hreads

theorem run_eq_served_broadcast_first :
    let service := Device.Handlers.service
      { readHoldingRegisters := some Device.Memory.readHoldingRegisters
        writeHoldingRegisters := some Device.Memory.writeHoldingRegisters }
    let reads : List Bytes := [[0], [0x10, 0, 0, 0, 1], [2, 0, 7, 234, 2, 2, 6], [0, 0, 0, 9, 73],
      [255, 1, 3, 0, 0, 0, 1, 132], [10]]
    ((Station.mk 1 service).run (.atMost 1) (.listening []) (reads.map .data)).run
        { holdingRegisters := [5] } =
      (([1, 3, 2, 0, 7, 249, 134], .listening []), { holdingRegisters := [7] }) := by
  intro service reads
  have hframes : ∀ frame ∈ ([⟨0, [0x10, 0, 0, 0, 1, 2, 0, 7]⟩, ⟨2, [6, 0, 0, 0, 9]⟩,
      ⟨1, [3, 0, 0, 0, 1]⟩] : List Frame), Delimited frame.pdu := by
    simp only [List.forall_mem_cons]
    exact ⟨.counted (.inr rfl) rfl, .plain (by decide) rfl, .plain (by decide) rfl, nofun⟩
  have hsent : (List.mapM (Station.mk 1 service).served [⟨0, [0x10, 0, 0, 0, 1, 2, 0, 7]⟩,
      ⟨2, [6, 0, 0, 0, 9]⟩, ⟨1, [3, 0, 0, 0, 1]⟩]).run { holdingRegisters := [5] } =
      ([[], [], [1, 3, 2, 0, 7, 249, 134]], { holdingRegisters := [7] }) := by
    change @Eq (List Bytes × Device.Memory) _ _
    decide +kernel
  rw [run_eq_served _ (fun _ => rfl) hframes reads (by decide +kernel), StateT.run_bind, hsent]
  rfl

end Station

end Modbus.Serial
