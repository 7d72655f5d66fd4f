import Modbus.Proofs.TcpFraming
import Modbus.Proofs.Writing

/-! A device serves a TCP connection as if it had received the whole stream at
once. What is taken off a stream does not depend on how the stream is cut into
reads, and it is what `parse` reads; every request is answered once, in order
and in its own transaction, and what is written are the frames of the answers. -/

namespace Modbus.Tcp

variable {σ : Type}

namespace Session

section Fronts

variable {buffer : Bytes} {foreign : Nat}

theorem takeRequests_none (h : Frame.ofFront buffer = .ok none) :
    takeRequests buffer foreign = ([], ⟨buffer, foreign⟩) := by
  rw [takeRequests]
  split <;> simp_all

theorem takeRequests_some {frame : Frame} {length : Nat}
    (h : Frame.ofFront buffer = .ok (some (frame, length))) :
    takeRequests buffer foreign =
      (frame :: (takeRequests (buffer.drop length) foreign).1,
        (takeRequests (buffer.drop length) foreign).2) := by
  rw [takeRequests]
  split <;> simp_all

/-- A foreign frame is thrown away as far as it is there; what is not becomes the number of bytes
to skip. -/
theorem takeRequests_protocol {protocol : UInt16}
    (h : Frame.ofFront buffer = .error (.protocolNotModbus protocol)) :
    takeRequests buffer foreign =
      takeRequests (buffer.drop (foreignLength buffer)) (foreignLength buffer - buffer.length) := by
  rw [takeRequests]
  split <;> simp_all [foreignLength]

@[simp] theorem takeRequests_nil : takeRequests [] foreign = ([], ⟨[], foreign⟩) :=
  takeRequests_none (Frame.ofFront_short (by decide))

end Fronts

/-- What a session makes of a read: the requests that it completes, and the session behind it. -/
def gather (session : Session) (bytes : Bytes) : List Frame × Session :=
  let skipped := min session.foreign bytes.length
  takeRequests (session.received ++ bytes.drop skipped) (session.foreign - skipped)

/-- The requests that one read after the other completes. -/
def gatherAll (session : Session) : List Bytes → List Frame × Session
  | [] => ([], session)
  | bytes :: rest =>
    ((session.gather bytes).1 ++ ((session.gather bytes).2.gatherAll rest).1,
      ((session.gather bytes).2.gatherAll rest).2)

/-- A session that waits for the rest of a buffer goes on from that buffer. -/
theorem gather_received (buffer bytes : Bytes) :
    gather ⟨buffer, 0⟩ bytes = takeRequests (buffer ++ bytes) 0 := by
  simp [gather]

/-- A session that waits for the rest of a foreign frame drops it as far as it comes. -/
theorem gather_foreign (foreign : Nat) (bytes : Bytes) :
    gather ⟨[], foreign⟩ bytes = takeRequests (bytes.drop foreign) (foreign - bytes.length) := by
  rw [gather]
  simp only [List.nil_append]
  rcases Nat.le_total foreign bytes.length with h | h
  · rw [Nat.min_eq_left h]
    congr 1
    omega
  · rw [Nat.min_eq_right h, List.drop_of_length_le (Nat.le_refl _), List.drop_of_length_le h]

/-- Taking the requests off a buffer and going on with more bytes is taking them off both
together, wherever the cut between the two is. -/
theorem takeRequests_append (buffer more : Bytes) (h : (parse (buffer ++ more)).isSome) :
    takeRequests (buffer ++ more) 0 =
      ((takeRequests buffer 0).1 ++ ((takeRequests buffer 0).2.gather more).1,
        ((takeRequests buffer 0).2.gather more).2) := by
  induction buffer using Frame.front_induction with
  | incomplete buffer hfront => rw [takeRequests_none hfront, gather_received, List.nil_append]
  | request buffer frame length hfront hle ih =>
    have hmore := Frame.ofFront_append hfront nofun more
    rw [parse_request hmore, Option.isSome_map, List.drop_append_of_le_length hle] at h
    rw [takeRequests_some hmore, takeRequests_some hfront, List.drop_append_of_le_length hle, ih h]
    rfl
  | foreign buffer protocol hfront ih =>
    have hmore := Frame.ofFront_append hfront nofun more
    rw [takeRequests_protocol hmore, takeRequests_protocol hfront,
      Frame.foreignLength_append hfront]
    rcases Nat.lt_or_ge buffer.length (foreignLength buffer) with hlen | hlen
    · -- the frame ends behind the buffer, so what comes is dropped against the rest of it
      rw [List.drop_append, List.drop_of_length_le (Nat.le_of_lt hlen), takeRequests_nil,
        gather_foreign, List.length_append, Nat.sub_add_eq]
      rfl
    · -- the frame ends within the buffer, and nothing of what comes belongs to it
      have hin : foreignLength buffer - buffer.length = 0 := by omega
      have hinmore : foreignLength buffer - (buffer ++ more).length = 0 := by
        rw [List.length_append]
        omega
      rw [parse_foreign hmore, Frame.foreignLength_append hfront,
        List.drop_append_of_le_length hlen] at h
      rw [hin, hinmore, List.drop_append_of_le_length hlen]
      exact ih h
  | invalid buffer length hfront =>
    rw [parse_invalid (Frame.ofFront_append hfront nofun more)] at h
    cases h

/-- A stream whose reading meets no impossible header meets none in its first bytes. -/
theorem isSome_parse_of_append (buffer more : Bytes) (h : (parse (buffer ++ more)).isSome) :
    (parse buffer).isSome := by
  induction buffer using Frame.front_induction with
  | incomplete buffer hfront =>
    rw [parse_incomplete hfront]
    rfl
  | request buffer frame length hfront hle ih =>
    rw [parse_request (Frame.ofFront_append hfront nofun more), Option.isSome_map,
      List.drop_append_of_le_length hle] at h
    rw [parse_request hfront, Option.isSome_map]
    exact ih h
  | foreign buffer protocol hfront ih =>
    rw [parse_foreign hfront]
    rcases Nat.lt_or_ge buffer.length (foreignLength buffer) with hlen | hlen
    · rw [List.drop_of_length_le (Nat.le_of_lt hlen), parse_nil]
      rfl
    · rw [parse_foreign (Frame.ofFront_append hfront nofun more), Frame.foreignLength_append hfront,
        List.drop_append_of_le_length hlen] at h
      exact ih h
  | invalid buffer length hfront =>
    rw [parse_invalid (Frame.ofFront_append hfront nofun more)] at h
    cases h

/-- What one read after the other completes is what is taken off all of them together. -/
theorem gatherAll_takeRequests (buffer : Bytes) (reads : List Bytes)
    (h : (parse (buffer ++ reads.flatten)).isSome) :
    ((takeRequests buffer 0).1 ++ ((takeRequests buffer 0).2.gatherAll reads).1,
        ((takeRequests buffer 0).2.gatherAll reads).2) =
      takeRequests (buffer ++ reads.flatten) 0 := by
  induction reads generalizing buffer with
  | nil => simp [gatherAll]
  | cons bytes rest ih =>
    rw [List.flatten_cons, ← List.append_assoc] at h ⊢
    rw [← ih _ h, takeRequests_append _ _ (isSome_parse_of_append _ _ h), gatherAll]
    simp only [List.append_assoc]

/-- A new connection makes of its reads what it would make of the whole stream. -/
theorem gatherAll_flatten {reads : List Bytes} (h : (parse reads.flatten).isSome) :
    gatherAll {} reads = takeRequests reads.flatten 0 := by
  have htaken := gatherAll_takeRequests [] reads h
  rwa [takeRequests_nil, List.nil_append, List.nil_append] at htaken

theorem takeRequests_wire {frame : Frame} (h : Device.Carried frame.pdu) :
    takeRequests frame.wire 0 = ([frame], {}) := by
  have hfront := Frame.ofFront_wire_append h []
  rw [List.append_nil] at hfront
  rw [takeRequests_some hfront, List.drop_length, takeRequests_nil]

/-- The requests that are taken off a stream are those that a reading of it finds. -/
theorem takeRequests_parse {stream : Bytes} {requests : List Frame} (foreign : Nat)
    (h : parse stream = some requests) : (takeRequests stream foreign).1 = requests := by
  induction stream using Frame.front_induction generalizing requests foreign with
  | incomplete stream hfront =>
    rw [parse_incomplete hfront] at h
    cases h
    rw [takeRequests_none hfront]
  | request stream frame length hfront hle ih =>
    rw [parse_request hfront] at h
    obtain ⟨rest, hrest, rfl⟩ := Option.map_eq_some_iff.mp h
    rw [takeRequests_some hfront, ih foreign hrest]
  | foreign stream protocol hfront ih =>
    rw [parse_foreign hfront] at h
    rw [takeRequests_protocol hfront, ih _ h]
  | invalid stream length hfront =>
    rw [parse_invalid hfront] at h
    cases h

end Session

/-- What a service answers to requests: those that are answered at all, each in the transaction
and for the unit of its request. -/
def answers (service : Device.Service σ) (requests : List Frame) : StateM σ (List Frame) :=
  requests.filterMapM fun request => do
    let response ← Device.answer service request.unit request.pdu
    return response.map fun pdu => ⟨request.transaction, request.unit, pdu⟩

theorem answers_cons (service : Device.Service σ) (request : Frame) (rest : List Frame) :
    answers service (request :: rest) = do
      let response ← Session.reply service request
      let responses ← answers service rest
      return response.toList ++ responses := by
  rw [answers, List.filterMapM_cons, ← answers, Session.reply]
  simp only [bind_assoc, pure_bind]
  congr
  funext response
  cases response <;> simp

theorem answers_append (service : Device.Service σ) (requests more : List Frame) :
    answers service (requests ++ more) = do
      let responses ← answers service requests
      let others ← answers service more
      return responses ++ others := by
  induction requests with
  | nil =>
    change answers service more = pure [] >>= _
    simp
  | cons request rest ih =>
    simp only [List.cons_append, answers_cons, ih, bind_assoc, pure_bind, List.append_assoc]

theorem answers_carried (service : Device.Service σ) (requests : List Frame) (s : σ) :
    ∀ response ∈ ((answers service requests).run s).1, Device.Carried response.pdu := by
  induction requests generalizing s with
  | nil => exact nofun
  | cons request rest ih =>
    rw [answers_cons, Session.reply, bind_assoc, StateT.run_bind]
    cases hanswer : (Device.answer service request.unit request.pdu).run s with
    | mk answered s' =>
      cases answered with
      | none => exact ih s'
      | some pdu =>
        have hpdu : Device.Carried pdu := Device.carried_of_answer (congrArg Prod.fst hanswer)
        exact List.forall_mem_cons.mpr ⟨hpdu, ih s'⟩

namespace Session

section Served

variable {service : Device.Service σ} {acceptance : Acceptance}
  (hwrite : acceptance.TakesAll)

include hwrite

theorem replyAll_eq_answers (requests : List Frame) :
    replyAll service acceptance requests = do
      let responses ← answers service requests
      return (responses.flatMap Frame.wire, .done) := by
  induction requests with
  | nil => rfl
  | cons request rest ih =>
    rw [replyAll, answers_cons]
    simp only [ih, bind_assoc, pure_bind]
    congr
    funext response
    cases response with
    | none => simp
    | some response => simp [hwrite response.wire]

theorem next_eq_gather (session : Session) (bytes : Bytes) :
    session.next service acceptance bytes = do
      let responses ← answers service (session.gather bytes).1
      return (responses.flatMap Frame.wire, some (session.gather bytes).2) := by
  change (replyAll service acceptance (session.gather bytes).1 >>= fun replied =>
    pure (replied.1, if replied.2 = .done then some (session.gather bytes).2 else none)) = _
  rw [replyAll_eq_answers hwrite]
  simp only [bind_assoc, pure_bind, if_true]

/-- A session answers the requests that its reads complete, and does nothing else. -/
theorem run_eq_gatherAll (session : Session) (reads : List Bytes) :
    session.run service acceptance reads = do
      let responses ← answers service (session.gatherAll reads).1
      return (responses.flatMap Frame.wire, some (session.gatherAll reads).2) := by
  induction reads generalizing session with
  | nil => rfl
  | cons bytes rest ih =>
    rw [run, next_eq_gather hwrite, gatherAll, answers_append]
    simp only [ih, bind_assoc, pure_bind, List.flatMap_append]

end Served

/-- Serving a connection is answering the requests that `parse` reads in its stream, however the
stream is cut into reads and in whatever parts the answers are taken: what is written are the
frames of the answers, it reads back as these, and the session goes on. -/
theorem run_eq_answers (service : Device.Service σ) {acceptance : Acceptance}
    (hwrite : acceptance.TakesAll) {requests : List Frame} (reads : List Bytes)
    (h : parse reads.flatten = some requests) :
    (∃ left, run service acceptance {} reads = do
      let responses ← answers service requests
      return (responses.flatMap Frame.wire, some left)) ∧
    ∀ s, let responses := ((answers service requests).run s).1
      parse (responses.flatMap Frame.wire) = some responses := by
  have hsome : (parse reads.flatten).isSome := by rw [h]; rfl
  refine ⟨⟨(takeRequests reads.flatten 0).2, ?_⟩, fun s => parse_wires (answers_carried _ _ s)⟩
  rw [run_eq_gatherAll hwrite, gatherAll_flatten hsome, takeRequests_parse 0 h]

theorem run_eq_answers_foreign_between :
    let reads : List Bytes := [[0, 7, 0, 0, 0, 6, 1], [3, 0, 0, 0, 1, 0, 9, 5], [5, 0, 3, 1],
      [2, 3, 0, 8, 0, 0, 0, 2, 1, 0x42]]
    let acceptance : Acceptance := { turns := [.takes 4, .takes 1] }
    ((run (σ := Unit) Device.Service.bare acceptance {} reads).run ()).1.1 =
      [0, 7, 0, 0, 0, 3, 1, 0x83, 1, 0, 8, 0, 0, 0, 3, 1, 0xC2, 1] := by
  intro reads acceptance
  have hwrite : acceptance.TakesAll := by
    refine Acceptance.writeTurns_takes ?_
    simp only [acceptance, List.forall_mem_cons]
    exact ⟨⟨3, rfl⟩, ⟨0, rfl⟩, nofun⟩
  have hparse : parse reads.flatten = some [⟨7, 1, [3, 0, 0, 0, 1]⟩, ⟨8, 1, [0x42]⟩] := by cbv
  obtain ⟨⟨left, hrun⟩, -⟩ := run_eq_answers (σ := Unit) Device.Service.bare hwrite reads hparse
  rw [hrun]
  rfl

end Session

end Modbus.Tcp
