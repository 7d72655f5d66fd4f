import Modbus.Proofs.Arrivals
import Modbus.Proofs.Exchange
import Modbus.Proofs.SerialStream
import Modbus.Proofs.Writing
import Modbus.Serial.Link

/-! A serial link between two exchanges is `Ready`: the line is open, nothing
but empty reads is on its way to the port, and the station waits for the
beginning of a request. An exchange whose request and response tell their
length keeps it so, and gives back what the service answers. -/

namespace Modbus.Serial

variable {σ : Type}

namespace Port

/-- A port with an open line and nothing on its way to it but empty reads. -/
def Quiet (port : Port) : Prop :=
  ∃ line, port.line = some line ∧ line.acceptance = .all ∧
    Brings (line.now + port.timing.response) line.incoming []

/-- What is made of a frame at the front of a line, whatever follows it. -/
theorem response_wire_append {frame : Frame} (h : DelimitedResponse frame.pdu) (unit : UInt8)
    (more : Bytes) :
    response unit (frame.wire ++ more) =
      if frame.unit ≠ unit then .error (.unitMismatch unit frame.unit)
      else .ok (some frame.pdu) := by
  rw [response, decode_append h.tells]
  simp only [bind, Except.bind]
  split <;> rfl

theorem response_take {frame : Frame} (h : DelimitedResponse frame.pdu) (unit : UInt8) {n : Nat}
    (hn : n < frame.wire.length) : response unit (frame.wire.take n) = .ok none := by
  rw [response, decode_take h.tells hn]
  rfl

theorem Quiet.send {port : Port} (h : port.Quiet) (unit : UInt8) (pdu : Bytes) :
    ∃ sent : Port, port.send unit pdu = (.ok (), Frame.wire ⟨unit, pdu⟩, sent) ∧ sent.Quiet ∧
      sent.timing = port.timing := by
  obtain ⟨line, hline, haccept, hqueue⟩ := h
  obtain ⟨left, hdrain, hleft⟩ := hqueue.drain_nil line.now
  refine ⟨{ port with line := some { line with incoming := left } }, ?_,
    ⟨_, rfl, haccept, hleft⟩, rfl⟩
  have hwrite : line.acceptance.write (Frame.wire ⟨unit, pdu⟩) =
      (Frame.wire ⟨unit, pdu⟩, .done) := by
    rw [haccept]
    rfl
  simp only [Port.send, hline, Stream.transmit_ok hdrain hwrite]

theorem Quiet.receive {port : Port} (h : port.Quiet) {delivery : Delivery}
    (hfaithful : delivery.Faithful port.timing.response) (n : Nat) (unit : UInt8) {pdu : Bytes}
    (hpdu : DelimitedResponse pdu) :
    ∃ received : Port, Port.receive unit { port with
        line := port.line.map (·.feed (delivery.toMaster n (Frame.wire ⟨unit, pdu⟩))) } =
        (.ok pdu, received) ∧ received.Quiet ∧ received.timing = port.timing := by
  obtain ⟨line, hline, haccept, hqueue⟩ := h
  obtain ⟨frame, hframe⟩ : ∃ frame : Frame, frame = ⟨unit, pdu⟩ := ⟨_, rfl⟩
  have hdelimited : DelimitedResponse frame.pdu := by rwa [hframe]
  have hwhole : ∀ more, response frame.unit (frame.wire ++ more) = .ok (some frame.pdu) := by
    intro more
    rw [response_wire_append hdelimited, if_neg (not_not_intro rfl)]
  have hpart : ∀ n < frame.wire.length, response frame.unit (frame.wire.take n) = .ok none :=
    fun _ => response_take hdelimited frame.unit
  have hfull : frame.wire ≠ [] := by simp [Frame.wire_eq]
  obtain ⟨now, left, hawait, hle, hleft⟩ := hfaithful.await hqueue n hwhole hpart hfull
  rw [hframe] at hawait
  refine ⟨{ port with line := some { line with now := now, incoming := left } }, ?_,
    ⟨_, rfl, haccept, hleft.mono (Nat.add_le_add_right hle _)⟩, rfl⟩
  simp only [Port.receive, hline, Option.map_some, hawait]
  rfl

end Port

namespace Link

/-- A link between two exchanges, neither end of which has anything left of the last one. -/
structure Ready (link : Link σ) : Prop where
  port : link.port.Quiet
  station : link.station = .listening []

/-- The station answers a request for its own unit, in whatever reads it comes. -/
theorem run_answered (station : Station σ) (hunit : station.unit ≠ broadcast) {pdu : Bytes}
    (hpdu : Delimited pdu) {reads : List Bytes}
    (hreads : reads.flatten = Frame.wire ⟨station.unit, pdu⟩) {response : Bytes} {s s' : σ}
    (hanswer : (Device.answer station.service station.unit pdu).run s = (some response, s')) :
    station.run .all (.listening []) (reads.map .data) s =
      ((Frame.wire ⟨station.unit, response⟩, .listening []), s') := by
  have hpending : ∀ frame ∈ [(⟨station.unit, pdu⟩ : Frame)], Delimited frame.pdu := by
    simpa using hpdu
  have hall : [] ++ reads.flatten = [(⟨station.unit, pdu⟩ : Frame)].flatMap Frame.wire := by
    simpa using hreads
  have hserved : (station.served ⟨station.unit, pdu⟩).run s =
      (Frame.wire ⟨station.unit, response⟩, s') := by
    rw [Station.served, if_neg hunit, if_pos rfl, StateT.run_map, hanswer]
    rfl
  rw [station.run_pending (fun _ => rfl) hpending reads unfinished_nil hall]
  change (([(⟨station.unit, pdu⟩ : Frame)].mapM station.served >>= fun sent =>
    pure (sent.flatten, Station.Phase.listening [])).run s) = _
  rw [List.mapM_cons, bind_assoc, StateT.run_bind, hserved]
  change (([Frame.wire ⟨station.unit, response⟩].flatten, Station.Phase.listening []), s') = _
  rw [List.flatten_singleton]

/-- A ready link brings a request for the station to the service, and its answer back. -/
theorem Ready.exchange {link : Link σ} (h : link.Ready) (station : Station σ)
    {delivery : Delivery} (opening : Opening)
    (hfaithful : delivery.Faithful link.port.timing.response) (hunit : station.unit ≠ broadcast)
    {pdu response : Bytes} {s' : σ} (hpdu : Delimited pdu) (hresponse : DelimitedResponse response)
    (hanswer : (Device.answer station.service station.unit pdu).run link.device =
      (some response, s')) :
    ∃ after : Link σ,
      ((transport station delivery opening).exchange station.unit pdu).run.run link =
        (.ok response, after) ∧ after.Ready ∧ after.device = s' ∧
      after.port.timing = link.port.timing := by
  obtain ⟨hport, hstation⟩ := h
  obtain ⟨sent, hsend, hsent, htiming⟩ := hport.send station.unit pdu
  have hrun := run_answered station hunit hpdu
    (hfaithful.flatten_toDevice link.exchanges (Frame.wire ⟨station.unit, pdu⟩)) hanswer
  obtain ⟨received, hreceive, hquiet, htiming'⟩ :=
    hsent.receive (htiming ▸ hfaithful) link.exchanges station.unit hresponse
  let fed : Port := { sent with line := sent.line.map (·.feed
    (delivery.toMaster link.exchanges (Frame.wire ⟨station.unit, response⟩))) }
  let waiting : Link σ := ⟨s', fed, .listening [], link.exchanges + 1⟩
  have hlink : ((transport station delivery opening).send station.unit pdu).run.run link =
      (.ok (), waiting) := by
    change send station delivery station.unit pdu link = _
    simp only [send, hsend, hstation, hrun]
    rfl
  have hback : ((transport station delivery opening).receive station.unit).run.run waiting =
      (.ok response, { waiting with port := received }) := by
    change ((Port.receive station.unit fed).1,
      { waiting with port := (Port.receive station.unit fed).2 }) = _
    rw [hreceive]
  refine ⟨{ waiting with port := received }, ?_, ⟨hquiet, rfl⟩, rfl, htiming'.trans htiming⟩
  rw [Transport.exchange, ExceptT.run_bind, StateT.run_bind, hlink]
  exact hback

theorem ready_connect (station : Station σ) (delivery : Delivery) {delay : Nat} {link : Link σ}
    (hdelay : delay ≤ link.port.timing.connect) :
    ∃ connected : Link σ,
      (transport station delivery (.after delay)).connect.run.run link = (.ok (), connected) ∧
      connected.Ready ∧ connected.device = link.device ∧
      connected.port.timing = link.port.timing := by
  refine ⟨{ link with port := { link.port with line := some {} }, station := .listening [] }, ?_,
    ⟨⟨{}, rfl, rfl, .nil⟩, rfl⟩, rfl, rfl⟩
  have hopen : link.port.connect (.after delay) =
      (.ok (), { link.port with line := some {} }) :=
    if_neg (Nat.not_lt.mpr hdelay)
  change connect (.after delay) link = _
  simp only [connect, hopen]

end Link

end Modbus.Serial
