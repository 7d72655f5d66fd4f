import Modbus.Device.Memory
import Modbus.Proofs.Arrivals
import Modbus.Proofs.Exchange
import Modbus.Proofs.TcpStream
import Modbus.Tcp.Link

/-! A TCP link is transparent over whole runs. Between two exchanges both ends
are `Ready`: the client is connected and nothing but empty reads is on its way,
and the server waits for a new request. An exchange keeps them so, gives back
what the service answers, and counts the transaction up by one. -/

namespace Modbus.Tcp

variable {σ : Type}

namespace Client

/-- A client that is connected and has nothing on its way to it but empty reads. -/
def Quiet (client : Client) : Prop :=
  ∃ stream, client.connection = some stream ∧ stream.acceptance = .all ∧
    Brings (stream.now + client.timeout) stream.incoming []

theorem Quiet.isConnected {client : Client} (h : client.Quiet) : client.isConnected := by
  obtain ⟨stream, hstream, -⟩ := h
  rw [Client.isConnected, hstream]
  rfl

/-- What is made of a frame at the front of a stream, whatever follows it. -/
theorem response_wire_append {frame : Frame} (h : Device.Carried frame.pdu) (transaction : UInt16)
    (unit : UInt8) (more : Bytes) :
    response transaction unit (frame.wire ++ more) =
      if frame.transaction ≠ transaction then
        .error (.transactionMismatch transaction frame.transaction)
      else if frame.unit ≠ unit then .error (.unitMismatch unit frame.unit)
      else .ok (some frame.pdu) := by
  rw [response, Frame.response, Frame.ofFront_wire_append h]
  simp only [bind, Except.bind]
  split
  · rfl
  · split <;> rfl

theorem response_take {frame : Frame} (h : Device.Carried frame.pdu) (transaction : UInt16)
    (unit : UInt8) {n : Nat} (hn : n < frame.wire.length) :
    response transaction unit (frame.wire.take n) = .ok none := by
  rw [response, Frame.response, Frame.ofFront_wire_take h hn]
  rfl

/-- A quiet client sends its request whole, and stays quiet. -/
theorem Quiet.send {client : Client} (h : client.Quiet) (unit : UInt8) (pdu : Bytes) :
    ∃ sent : Client, client.send unit pdu =
        (.ok (), Frame.wire ⟨client.transaction, unit, pdu⟩, sent) ∧ sent.Quiet ∧
      sent.timeout = client.timeout ∧ sent.transaction = client.transaction := by
  obtain ⟨stream, hstream, haccept, hqueue⟩ := h
  obtain ⟨left, hdrain, hleft⟩ := hqueue.drain_nil stream.now
  have hwrite : stream.acceptance.TakesAll := by
    rw [haccept]
    exact Acceptance.takesAll_all
  refine ⟨{ client with connection := some { stream with incoming := left } }, ?_,
    ⟨_, rfl, haccept, hleft⟩, rfl, rfl⟩
  simp only [Client.send, hstream, Stream.transmit_ok hdrain (hwrite _)]

/-- A client that has been quiet gets the response that is delivered to it, counts it and is quiet
again. -/
theorem Quiet.receive {client : Client} (h : client.Quiet) {delivery : Delivery}
    (hfaithful : delivery.Faithful client.timeout) (n : Nat) (unit : UInt8) {pdu : Bytes}
    (hpdu : Device.Carried pdu) :
    ∃ received : Client, Client.receive unit { client with
        connection := client.connection.map
          (·.feed (delivery.toMaster n (Frame.wire ⟨client.transaction, unit, pdu⟩))) } =
        (.ok pdu, received) ∧ received.Quiet ∧
      received.timeout = client.timeout ∧ received.transaction = client.transaction + 1 := by
  obtain ⟨stream, hstream, haccept, hqueue⟩ := h
  obtain ⟨frame, hframe⟩ : ∃ frame : Frame, frame = ⟨client.transaction, unit, pdu⟩ := ⟨_, rfl⟩
  have hcarried : Device.Carried frame.pdu := by rwa [hframe]
  have hwhole : ∀ more, response frame.transaction frame.unit (frame.wire ++ more) =
      .ok (some frame.pdu) := by
    intro more
    rw [response_wire_append hcarried, if_neg (not_not_intro rfl), if_neg (not_not_intro rfl)]
  have hpart : ∀ n < frame.wire.length,
      response frame.transaction frame.unit (frame.wire.take n) = .ok none :=
    fun _ => response_take hcarried frame.transaction frame.unit
  have hfull : frame.wire ≠ [] := by simp [Frame.wire_eq]
  obtain ⟨now, left, hawait, hle, hleft⟩ := hfaithful.await hqueue n hwhole hpart hfull
  obtain ⟨quiet, hdrain, hquiet⟩ := hleft.drain_nil now
  rw [hframe] at hawait
  refine ⟨{ client with
    transaction := client.transaction + 1
    connection := some { stream with now := now, incoming := quiet } }, ?_,
    ⟨_, rfl, haccept, hquiet.mono (Nat.add_le_add_right hle _)⟩, rfl, rfl⟩
  simp only [Client.receive, hstream, Option.map_some, hawait, hdrain]
  rfl

end Client

namespace Server

/-- The session of a connection, if it is open. -/
def session? (server : Server) (id : UInt64) : Option Session :=
  (server.connections.find? (·.id = id)).map Connection.session

theorem find?_update {connections : List Connection} {updated : Connection}
    (h : (connections.find? (·.id = updated.id)).isSome) :
    (connections.map fun c => if c.id = updated.id then updated else c).find?
      (·.id = updated.id) = some updated := by
  induction connections with
  | nil => cases h
  | cons first rest ih =>
    by_cases hid : first.id = updated.id
    · simp [hid]
    · rw [List.find?_cons_of_neg (by simpa using hid)] at h
      rw [List.map_cons, if_neg hid, List.find?_cons_of_neg (by simpa using hid)]
      exact ih h

/-- A new connection has a new session, if its number is free. -/
theorem session?_accept (server : Server) (peer : String)
    (hfree : ∀ other ∈ server.connections, other.id ≠ server.registry.nextId) :
    (server.accept peer).2.session? (server.accept peer).1 = some {} := by
  have hnone : server.connections.find? (·.id = server.registry.nextId) = none := by
    rw [List.find?_eq_none]
    intro other hmem
    simpa using hfree other hmem
  change ((server.connections ++ _).find? (·.id = server.registry.nextId)).map _ = _
  rw [List.find?_append, hnone]
  simp

theorem session?_proceed {server : Server} {id : UInt64} (h : (server.session? id).isSome)
    (session : Session) : (server.proceed id session).session? id = some session := by
  rw [session?, Option.isSome_map] at h
  have hupdate : _ = some (⟨id, session, server.now⟩ : Connection) := find?_update h
  exact congrArg (Option.map Connection.session) hupdate

theorem session?_finish (server : Server) (id : UInt64) :
    (server.finish id).session? id = none := by
  have hnone : (server.connections.filter (·.id ≠ id)).find? (·.id = id) = none := by
    rw [List.find?_eq_none]
    intro other hmem
    simpa using (List.mem_filter.mp hmem).2
  exact congrArg (Option.map Connection.session) hnone

/-- What comes on an open connection goes through its session. -/
theorem receive_eq_next (service : Device.Service σ) (acceptance : Acceptance) {server : Server}
    {id : UInt64} {session : Session} (h : server.session? id = some session) (bytes : Bytes) :
    server.receive service acceptance id bytes = do
      let (sent, after) ← session.next service acceptance bytes
      return (sent, after.elim (server.finish id) (server.proceed id ·)) := by
  obtain ⟨connection, hfind, rfl⟩ := Option.map_eq_some_iff.mp h
  simp only [receive, hfind]
  congr
  funext ⟨sent, after⟩
  cases after <;> rfl

end Server

namespace Link

/-- Several reads go through the session of a connection one after the other. -/
theorem serve_eq_gatherAll (service : Device.Service σ) {server : Server} {id : UInt64}
    {session : Session} (h : server.session? id = some session) (reads : List Bytes) :
    ∃ after : Server, after.session? id = some (session.gatherAll reads).2 ∧
      serve service id server reads = do
        let responses ← answers service (session.gatherAll reads).1
        return (responses.flatMap Frame.wire, after) := by
  induction reads generalizing server session with
  | nil => exact ⟨server, h, rfl⟩
  | cons bytes rest ih =>
    have hopen : (server.session? id).isSome := by rw [h]; rfl
    obtain ⟨after, hafter, hserve⟩ := ih (Server.session?_proceed hopen (session.gather bytes).2)
    refine ⟨after, hafter, ?_⟩
    rw [serve, Server.receive_eq_next service .all h,
      Session.next_eq_gather Acceptance.takesAll_all, Session.gatherAll, answers_append]
    simp [hserve]

theorem settle_connected {link : Link σ} (h : link.client.isConnected) : link.settle = link :=
  if_pos h

/-- What can be sent as a request: it fits a frame, and its function code has no high bit. -/
def Sendable (pdu : Bytes) : Prop := Device.Carried pdu ∧ ∀ code ∈ pdu.head?, code < 0x80

instance (pdu : Bytes) : Decidable (Sendable pdu) :=
  inferInstanceAs (Decidable (Device.Carried pdu ∧ ∀ code ∈ pdu.head?, code < 0x80))

theorem Sendable.answered {pdu : Bytes} (h : Sendable pdu) (service : Device.Service σ)
    (unit : UInt8) (s : σ) :
    ∃ response s', (Device.answer service unit pdu).run s = (some response, s') ∧
      Device.Carried response := by
  obtain ⟨⟨hpos, -⟩, hcode⟩ := h
  cases pdu with
  | nil => cases hpos
  | cons code data => exact Device.answer_carried service unit data (hcode code rfl) s

/-- A link between two exchanges, neither end of which has anything left of the last one. -/
structure Ready (link : Link σ) : Prop where
  client : link.client.Quiet
  server : ∃ id, link.connection = some id ∧ link.server.session? id = some {}

/-- The request of one frame, in whatever reads it comes. -/
theorem gatherAll_wire (frame : Frame) (h : Device.Carried frame.pdu) {reads : List Bytes}
    (hreads : reads.flatten = frame.wire) : Session.gatherAll {} reads = ([frame], {}) := by
  rw [Session.gatherAll_flatten (by rw [hreads, parse_wire h]; rfl), hreads,
    Session.takeRequests_wire h]

theorem answers_singleton (service : Device.Service σ) (request : Frame) {response : Bytes}
    {s s' : σ} (h : (Device.answer service request.unit request.pdu).run s = (some response, s')) :
    (answers service [request]).run s = ([{ request with pdu := response }], s') := by
  rw [answers_cons, Session.reply, bind_assoc, StateT.run_bind, h]
  rfl

/-- A ready link brings a request to the service, and its answer back. -/
theorem Ready.exchange {link : Link σ} (h : link.Ready) (service : Device.Service σ)
    {delivery : Delivery} (opening : Opening) (hfaithful : delivery.Faithful link.client.timeout)
    (unit : UInt8) {pdu response : Bytes} {s' : σ} (hpdu : Device.Carried pdu)
    (hresponse : Device.Carried response)
    (hanswer : (Device.answer service unit pdu).run link.device = (some response, s')) :
    ∃ after : Link σ,
      ((transport service delivery opening).exchange unit pdu).run.run link =
        (.ok response, after) ∧ after.Ready ∧ after.device = s' ∧
      after.client.timeout = link.client.timeout ∧
      after.client.transaction = link.client.transaction + 1 := by
  obtain ⟨hclient, id, hid, hsession⟩ := h
  obtain ⟨sent, hsend, hsent, htimeout, htransaction⟩ := hclient.send unit pdu
  rw [← htransaction] at hsend
  obtain ⟨server, hserver, hserve⟩ := serve_eq_gatherAll service hsession
    (delivery.toDevice link.exchanges (Frame.wire ⟨sent.transaction, unit, pdu⟩))
  rw [gatherAll_wire ⟨sent.transaction, unit, pdu⟩ hpdu (hfaithful.flatten_toDevice _ _)]
    at hserver hserve
  -- the server: one request in however many reads, and one response
  have hserved : serve service id link.server
      (delivery.toDevice link.exchanges (Frame.wire ⟨sent.transaction, unit, pdu⟩)) link.device =
        ((Frame.wire ⟨sent.transaction, unit, response⟩, server), s') := by
    rw [hserve]
    change (answers service [⟨sent.transaction, unit, pdu⟩] >>= _).run link.device = _
    rw [StateT.run_bind, answers_singleton service ⟨sent.transaction, unit, pdu⟩ hanswer]
    exact congrArg (fun sent => ((sent, server), s')) (List.flatMap_singleton _ _)
  -- the client: the response to its own transaction is all that is on its way
  obtain ⟨received, hreceive, hquiet, htimeout', htransaction'⟩ :=
    hsent.receive (htimeout ▸ hfaithful) link.exchanges unit hresponse
  let fed : Client := { sent with connection := sent.connection.map (·.feed
    (delivery.toMaster link.exchanges (Frame.wire ⟨sent.transaction, unit, response⟩))) }
  let waiting : Link σ := ⟨s', fed, server, some id, link.exchanges + 1⟩
  have hfed : waiting.client.isConnected := by
    rw [Client.isConnected, Option.isSome_map]
    exact hsent.isConnected
  have hlink : ((transport service delivery opening).send unit pdu).run.run link =
      (.ok (), waiting) := by
    change send service delivery unit pdu link = _
    simp only [send, hsend, hid, hserved]
    exact congrArg _ (settle_connected hfed)
  have hback : ((transport service delivery opening).receive unit).run.run waiting =
      (.ok response, { waiting with client := received }) := by
    change ((Client.receive unit fed).1,
      settle { waiting with client := (Client.receive unit fed).2 }) = _
    rw [hreceive]
    exact congrArg _ (if_pos hquiet.isConnected)
  refine ⟨{ waiting with client := received }, ?_, ⟨hquiet, id, rfl, hserver⟩, rfl,
    htimeout'.trans htimeout, htransaction'.trans (congrArg (· + 1) htransaction)⟩
  rw [Transport.exchange, ExceptT.run_bind, StateT.run_bind, hlink]
  exact hback

/-- A connection that is opened in time is ready, under a number that no other one has. -/
theorem ready_connect (service : Device.Service σ) (delivery : Delivery) {delay : Nat}
    {link : Link σ} (hdelay : delay ≤ link.client.timeout)
    (hfree : ∀ other ∈ link.server.connections, other.id ≠ link.server.registry.nextId) :
    ∃ connected : Link σ,
      (transport service delivery (.after delay)).connect.run.run link = (.ok (), connected) ∧
      connected.Ready ∧ connected.device = link.device ∧
      connected.client.timeout = link.client.timeout ∧
      connected.client.transaction = link.client.transaction := by
  have hnext : link.close.server.registry.nextId = link.server.registry.nextId := by
    rw [close]
    cases link.connection <;> rfl
  have hclosed : ∀ other ∈ link.close.server.connections, other ∈ link.server.connections := by
    rw [close]
    cases link.connection with
    | none => exact fun _ h => h
    | some id => exact fun _ h => (List.mem_filter.mp h).1
  have hsession := Server.session?_accept link.close.server "client" fun other h =>
    hnext ▸ hfree other (hclosed other h)
  refine ⟨{ link.close with
    client := { link.client with connection := some {} }
    server := (link.close.server.accept "client").2
    connection := some (link.close.server.accept "client").1 }, ?_,
    ⟨⟨{}, rfl, rfl, .nil⟩, _, rfl, hsession⟩, rfl, rfl, rfl⟩
  have hopen : link.close.client.connect (.after delay) =
      (.ok (), { link.client with connection := some {} }) :=
    if_neg (Nat.not_lt.mpr hdelay)
  change connect (.after delay) link = _
  simp only [connect, hopen]

theorem Ready.exchanges {link : Link σ} (h : link.Ready) (service : Device.Service σ)
    {delivery : Delivery} (opening : Opening) (hfaithful : delivery.Faithful link.client.timeout)
    (requests : List (UInt8 × Bytes)) (hrequests : ∀ request ∈ requests, Sendable request.2) :
    ∃ (responses : List Bytes) (after : Link σ),
      (requests.mapM fun request => Device.answer service request.1 request.2).run link.device =
        (responses.map some, after.device) ∧
      (requests.mapM fun request => ((transport service delivery opening).exchange request.1
        request.2).run).run link = (responses.map .ok, after) ∧
      after.Ready ∧ after.client.transaction =
        link.client.transaction + requests.length.toUInt16 := by
  induction requests generalizing link with
  | nil => exact ⟨[], link, rfl, rfl, h, (UInt16.add_zero _).symm⟩
  | cons request rest ih =>
    obtain ⟨hfirst, hrest⟩ := List.forall_mem_cons.mp hrequests
    obtain ⟨unit, pdu⟩ := request
    obtain ⟨response, s', hanswer, hresponse⟩ := hfirst.answered service unit link.device
    obtain ⟨next, hexchange, hnext, hdevice, htimeout, htransaction⟩ :=
      h.exchange service opening hfaithful unit hfirst.1 hresponse hanswer
    obtain ⟨responses, after, hanswers, hexchanges, hafter, hcount⟩ :=
      ih hnext (htimeout ▸ hfaithful) hrest
    subst hdevice
    refine ⟨response :: responses, after, ?_, ?_, hafter, ?_⟩
    · rw [List.mapM_cons, StateT.run_bind, hanswer]
      change (((rest.mapM fun request => Device.answer service request.1 request.2) >>=
        fun others => pure (some response :: others)).run next.device) = _
      rw [StateT.run_bind, hanswers]
      rfl
    · rw [List.mapM_cons, StateT.run_bind, hexchange]
      change (((rest.mapM fun request => ((transport service delivery opening).exchange request.1
        request.2).run) >>= fun others => pure (.ok response :: others)).run next) = _
      rw [StateT.run_bind, hexchanges]
      rfl
    · rw [hcount, htransaction, List.length_cons, UInt16.add_assoc, UInt16.add_comm 1]
      exact congrArg (link.client.transaction + ·) (UInt16.ofNat_add _ _).symm

/-- Over a connection that has been opened, and whose bytes are cut in any way but neither lost
nor late, every exchange gives back what the service answers. The service is called for these
requests only and in their order, the client stays connected, and its counter has gone up by the
number of exchanges. The number of a new connection is free because numbers are given out in
order. -/
theorem exchanges_eq_answers (service : Device.Service σ) {delivery : Delivery} {delay : Nat}
    {link : Link σ} (hdelay : delay ≤ link.client.timeout)
    (hfree : ∀ other ∈ link.server.connections, other.id ≠ link.server.registry.nextId)
    (hfaithful : delivery.Faithful link.client.timeout) (requests : List (UInt8 × Bytes))
    (hrequests : ∀ request ∈ requests, Sendable request.2) :
    ∃ (responses : List Bytes) (connected after : Link σ),
      let transport := transport service delivery (.after delay)
      transport.connect.run.run link = (.ok (), connected) ∧
      (requests.mapM fun request => Device.answer service request.1 request.2).run link.device =
        (responses.map some, after.device) ∧
      (requests.mapM fun request => (transport.exchange request.1 request.2).run).run connected =
        (responses.map .ok, after) ∧
      transport.isConnected after ∧
      after.client.transaction = link.client.transaction + requests.length.toUInt16 := by
  obtain ⟨connected, hconnect, hready, hdevice, htimeout, htransaction⟩ :=
    ready_connect service delivery hdelay hfree
  obtain ⟨responses, after, hanswers, hexchanges, hafter, hcount⟩ :=
    hready.exchanges service (.after delay) (htimeout ▸ hfaithful) requests hrequests
  refine ⟨responses, connected, after, hconnect, ?_, hexchanges, hafter.client.isConnected, ?_⟩
  · rw [← hdevice]
    exact hanswers
  · rw [hcount, htransaction]

theorem exchanges_eq_answers_wrap :
    let service := Device.Handlers.service
      { readCoils := some Device.Memory.readCoils, writeCoils := some Device.Memory.writeCoils }
    let link : Link Device.Memory :=
      { device := { coils := [false, true] }, client := { transaction := 65535 } }
    let requests := [(9, [5, 0, 0, 0xFF, 0]), (9, [1, 0, 0, 0, 2]), (9, [6])]
    let transport := transport service (.prompt 260) (.after 0)
    ∃ connected after : Link Device.Memory,
      transport.connect.run.run link = (.ok (), connected) ∧
      (requests.mapM fun request => (transport.exchange request.1 request.2).run).run connected =
        ([.ok [5, 0, 0, 0xFF, 0], .ok [1, 1, 3], .ok [0x86, 1]], after) ∧
      after.device.coils = [true, true] ∧ after.client.transaction = 2 := by
  intro service link requests transport
  have hdelay : 0 ≤ link.client.timeout := Nat.zero_le _
  have hfree : ∀ other ∈ link.server.connections, other.id ≠ link.server.registry.nextId := by
    decide
  have hfaithful : (Delivery.prompt 260).Faithful link.client.timeout :=
    Delivery.prompt_faithful (by decide) _
  have hrequests : ∀ request ∈ requests, Sendable request.2 := by decide +kernel
  obtain ⟨responses, connected, after, hconnect, hanswers, hexchanges, -, hcount⟩ :=
    exchanges_eq_answers service hdelay hfree hfaithful requests hrequests
  have hdone : (requests.mapM fun request => Device.answer service request.1 request.2).run
      link.device = ([[5, 0, 0, 0xFF, 0], [1, 1, 3], [0x86, 1]].map some,
        { coils := [true, true] }) := by
    change @Eq (List (Option Bytes) × Device.Memory) _ _
    decide +kernel
  obtain ⟨hresponses, hdevice⟩ := Prod.mk.inj (hanswers.symm.trans hdone)
  obtain rfl := (List.map_inj_right fun _ _ => Option.some.inj).mp hresponses
  exact ⟨connected, after, hconnect, hexchanges, congrArg Device.Memory.coils hdevice,
    hcount.trans (by decide)⟩

end Link

end Modbus.Tcp
