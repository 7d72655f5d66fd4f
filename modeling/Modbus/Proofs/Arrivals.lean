import Modbus.Delivery

/-! What is on its way to one end of a connection. Reads that `Brings` some
bytes before a deadline can be thrown away as far as they are there. Who waits
for an answer gets it with its last byte, in whatever reads that comes, and if
none comes, waiting ends as the stream `Ends`. -/

namespace Modbus

/-- Reads that bring some bytes, all before a deadline. -/
inductive Brings (deadline : Nat) : List Arrival → Bytes → Prop where
  | nil : Brings deadline [] []
  | cons {due : Nat} {bytes rest : Bytes} {queue : List Arrival} (hdue : due ≤ deadline)
    (hqueue : Brings deadline queue rest) :
    Brings deadline (⟨due, .data bytes⟩ :: queue) (bytes ++ rest)

/-- Waiting ends with what is found in the bytes, or as the stream does. -/
theorem Stream.await_outcome {α : Type} (decode : Bytes → Except ProtocolError (Option α))
    (deadline now : Nat) (received : Bytes) (queue : List Arrival) :
    (∃ verdict : Except ProtocolError α,
      (await decode deadline now received queue).outcome = verdict.mapError .protocol) ∨
    ∃ cause, (await decode deadline now received queue).outcome = .error (.transport cause) := by
  fun_induction await decode deadline now received queue with
  | case1 | case2 | case3 | case4 => exact .inr ⟨_, rfl⟩
  | case5 => exact .inl ⟨.error _, rfl⟩
  | case6 => exact .inl ⟨.ok _, rfl⟩
  | case7 _ _ _ _ _ _ _ _ _ ih => exact ih

theorem Stream.await_ok {α : Type} {decode : Bytes → Except ProtocolError (Option α)}
    {deadline now : Nat} {received : Bytes} {queue : List Arrival} {answer : α}
    (h : (await decode deadline now received queue).outcome = .ok answer) :
    ∃ reads rest bytes, queue = reads ++ rest ∧ Brings deadline reads bytes ∧
      decode (received ++ bytes) = .ok (some answer) := by
  induction queue generalizing now received with
  | nil => cases h
  | cons arrival queue ih =>
    obtain ⟨due, read⟩ := arrival
    rw [await] at h
    split at h
    · cases h
    · next hlate =>
      have hdue : due ≤ deadline := Nat.le_of_not_lt hlate
      cases read with
      | closed => cases h
      | failed fault => cases h
      | data bytes =>
        cases hdecode : decode (received ++ bytes) with
        | error cause =>
          simp only [hdecode] at h
          cases h
        | ok found =>
          cases found with
          | none =>
            simp only [hdecode] at h
            obtain ⟨reads, rest, more, rfl, hreads, hfound⟩ := ih h
            refine ⟨⟨due, .data bytes⟩ :: reads, rest, bytes ++ more, rfl, .cons hdue hreads, ?_⟩
            rwa [← List.append_assoc]
          | some found =>
            simp only [hdecode] at h
            cases h
            exact ⟨[⟨due, .data bytes⟩], queue, bytes ++ [], rfl, .cons hdue .nil,
              by rwa [List.append_nil]⟩

namespace Brings

variable {deadline : Nat} {queue : List Arrival} {bytes : Bytes}

theorem append (h : Brings deadline queue bytes) {others : List Arrival} {more : Bytes}
    (hothers : Brings deadline others more) :
    Brings deadline (queue ++ others) (bytes ++ more) := by
  induction h with
  | nil => exact hothers
  | cons hdue _ ih =>
    rw [List.append_assoc]
    exact .cons hdue ih

theorem mono (h : Brings deadline queue bytes) {later : Nat} (hle : deadline ≤ later) :
    Brings later queue bytes := by
  induction h with
  | nil => exact .nil
  | cons hdue _ ih => exact .cons (Nat.le_trans hdue hle) ih

/-- Throwing away what is there leaves a part of the reads. -/
theorem drain (h : Brings deadline queue bytes) (now : Nat) :
    ∃ left gone rest, Stream.drain now queue = (.ok (), left) ∧ Brings deadline left rest ∧
      bytes = gone ++ rest := by
  induction h with
  | nil => exact ⟨[], [], [], rfl, .nil, rfl⟩
  | @cons due bytes rest queue hdue hqueue ih =>
    by_cases hlate : now < due
    · exact ⟨_, [], _, by rw [Stream.drain, if_pos hlate], .cons hdue hqueue, rfl⟩
    · obtain ⟨left, gone, rest', hdrain, hleft, rfl⟩ := ih
      refine ⟨left, bytes ++ gone, rest', ?_, hleft, (List.append_assoc ..).symm⟩
      rw [Stream.drain, if_neg hlate]
      exact hdrain

theorem drain_nil (h : Brings deadline queue []) (now : Nat) :
    ∃ left, Stream.drain now queue = (.ok (), left) ∧ Brings deadline left [] := by
  obtain ⟨left, gone, rest, hdrain, hleft, hbytes⟩ := h.drain now
  obtain ⟨-, rfl⟩ := List.append_eq_nil_iff.mp hbytes.symm
  exact ⟨left, hdrain, hleft⟩

section Waiting

variable {α : Type} {decode : Bytes → Except ProtocolError (Option α)} {received : Bytes}

theorem await_undecided (h : Brings deadline queue bytes)
    (hnone : ∀ gone left, bytes = gone ++ left → decode (received ++ gone) = .ok none)
    (now : Nat) (rest : List Arrival) :
    ∃ now', now ≤ now' ∧ Stream.await decode deadline now received (queue ++ rest) =
      Stream.await decode deadline now' (received ++ bytes) rest := by
  induction h generalizing now received with
  | nil => exact ⟨now, Nat.le_refl _, by rw [List.nil_append, List.append_nil]⟩
  | @cons due piece left queue hdue hqueue ih =>
    have hpiece : decode (received ++ piece) = .ok none := hnone piece left rfl
    have hleft : ∀ gone rest, left = gone ++ rest →
        decode (received ++ piece ++ gone) = .ok none := by
      intro gone rest hbytes
      rw [List.append_assoc]
      exact hnone _ _ (by rw [hbytes, List.append_assoc])
    obtain ⟨now', hle, hawait⟩ := ih hleft (max now due)
    refine ⟨now', Nat.le_trans (Nat.le_max_left _ _) hle, ?_⟩
    rw [List.cons_append, Stream.await, if_neg (Nat.not_lt.mpr hdue)]
    simp only [hpiece]
    rw [hawait, List.append_assoc]

theorem await_decided {due : Nat} {piece : Bytes} {verdict : Except ProtocolError α}
    (hdue : due ≤ deadline) (h : decode (received ++ piece) = verdict.map some) (now : Nat)
    (rest : List Arrival) :
    Stream.await decode deadline now received (⟨due, .data piece⟩ :: rest) =
      ⟨verdict.mapError .protocol, max now due, rest⟩ := by
  rw [Stream.await, if_neg (Nat.not_lt.mpr hdue)]
  cases verdict <;> simp only [h] <;> rfl

/-- If more bytes never change what has been found, waiting finds what there is in all the bytes,
in whatever reads they come. -/
theorem await_stable
    (hstable : ∀ {buffer found}, decode buffer = found → found ≠ .ok none →
      ∀ more, decode (buffer ++ more) = found)
    (h : Brings deadline queue bytes) {now : Nat} (hnow : now ≤ deadline)
    (hstart : decode received = .ok none) {verdict : Except ProtocolError α}
    (hverdict : decode (received ++ bytes) = verdict.map some) (rest : List Arrival) :
    ∃ now' left skipped, Stream.await decode deadline now received (queue ++ rest) =
        ⟨verdict.mapError .protocol, now', left ++ rest⟩ ∧
      now' ≤ deadline ∧ Brings deadline left skipped := by
  induction h generalizing now received with
  | nil =>
    rw [List.append_nil, hstart] at hverdict
    cases verdict <;> cases hverdict
  | @cons due piece left queue hdue hqueue ih =>
    rw [← List.append_assoc] at hverdict
    have hlater : max now due ≤ deadline := Nat.max_le.mpr ⟨hnow, hdue⟩
    by_cases hpiece : decode (received ++ piece) = .ok none
    · obtain ⟨now', unread, skipped, hawait, hle, hunread⟩ := ih hlater hpiece hverdict
      refine ⟨now', unread, skipped, ?_, hle, hunread⟩
      rw [List.cons_append, Stream.await, if_neg (Nat.not_lt.mpr hdue)]
      simp only [hpiece]
      exact hawait
    · have hfound : decode (received ++ piece) = verdict.map some := by
        rw [← hverdict]
        exact (hstable rfl hpiece left).symm
      exact ⟨max now due, queue, left, await_decided hdue hfound now (queue ++ rest), hlater,
        hqueue⟩

end Waiting

end Brings

/-- How reads come to the last of some bytes, which others may follow at once. -/
structure Completion (deadline : Nat) (queue : List Arrival) (whole tail : Bytes) where
  before : List Arrival
  gone : Bytes
  due : Nat
  piece : Bytes
  after : List Arrival
  skipped : Bytes
  queue_eq : queue = before ++ ⟨due, .data piece⟩ :: after
  before_brings : Brings deadline before gone
  due_le : due ≤ deadline
  after_brings : Brings deadline after skipped
  missing : gone.length < whole.length
  complete : ∃ more, gone ++ piece = whole ++ more ∧ tail = more ++ skipped

theorem Brings.exists_completion {deadline : Nat} {queue : List Arrival} {bytes whole tail : Bytes}
    (h : Brings deadline queue bytes) (hbytes : bytes = whole ++ tail) (hne : whole ≠ []) :
    Nonempty (Completion deadline queue whole tail) := by
  induction h generalizing whole with
  | nil =>
    obtain ⟨rfl, -⟩ := List.append_eq_nil_iff.mp hbytes.symm
    exact absurd rfl hne
  | @cons due piece left queue hdue hqueue ih =>
    by_cases hwhole : whole.length ≤ piece.length
    · obtain ⟨more, rfl⟩ : whole <+: piece :=
        List.prefix_of_prefix_length_le ⟨tail, hbytes.symm⟩ ⟨left, rfl⟩ hwhole
      rw [List.append_assoc, List.append_cancel_left_eq] at hbytes
      exact ⟨⟨[], [], due, whole ++ more, queue, left, rfl, .nil, hdue, hqueue,
        List.length_pos_iff.mpr hne, more, rfl, hbytes.symm⟩⟩
    · obtain ⟨rest, rfl⟩ : piece <+: whole :=
        List.prefix_of_prefix_length_le ⟨left, rfl⟩ ⟨tail, hbytes.symm⟩
          (Nat.le_of_lt (Nat.lt_of_not_le hwhole))
      rw [List.append_assoc, List.append_cancel_left_eq] at hbytes
      have hrest : rest ≠ [] := by
        rintro rfl
        exact hwhole (Nat.le_of_eq (congrArg List.length (List.append_nil piece)))
      obtain ⟨completion⟩ := ih hbytes hrest
      obtain ⟨more, hcomplete, htail⟩ := completion.complete
      exact ⟨{ completion with
        before := ⟨due, .data piece⟩ :: completion.before
        gone := piece ++ completion.gone
        queue_eq := by rw [List.cons_append, ← completion.queue_eq]
        before_brings := .cons hdue completion.before_brings
        missing := by
          rw [List.length_append, List.length_append]
          exact Nat.add_lt_add_left completion.missing _
        complete := ⟨more, by rw [List.append_assoc, hcomplete, List.append_assoc], htail⟩ }⟩

/-- Waiting ends with the read that completes an answer, if no part of the answer is taken for one
and what follows makes no difference. -/
theorem Completion.await {deadline : Nat} {queue : List Arrival} {whole tail : Bytes}
    (completion : Completion deadline queue whole tail) {α : Type}
    {decode : Bytes → Except ProtocolError (Option α)} {verdict : Except ProtocolError α}
    (hwhole : ∀ more, decode (whole ++ more) = verdict.map some)
    (hpart : ∀ n < whole.length, decode (whole.take n) = .ok none) (now : Nat)
    (rest : List Arrival) :
    ∃ now', now ≤ now' ∧ Stream.await decode deadline now [] (queue ++ rest) =
      ⟨verdict.mapError .protocol, now', completion.after ++ rest⟩ := by
  obtain ⟨more, hcomplete, -⟩ := completion.complete
  have hnone : ∀ gone left, completion.gone = gone ++ left → decode ([] ++ gone) = .ok none := by
    intro gone left hgone
    have hless : gone.length < whole.length := by
      refine Nat.lt_of_le_of_lt ?_ completion.missing
      rw [hgone, List.length_append]
      exact Nat.le_add_right _ _
    have hprefix : gone <+: whole := by
      refine List.prefix_of_prefix_length_le ?_ ⟨more, hcomplete.symm⟩ (Nat.le_of_lt hless)
      rw [hgone, List.append_assoc]
      exact List.prefix_append _ _
    rw [List.nil_append, List.prefix_iff_eq_take.mp hprefix]
    exact hpart _ hless
  obtain ⟨now', hle, hawait⟩ := completion.before_brings.await_undecided hnone now
    (⟨completion.due, .data completion.piece⟩ :: (completion.after ++ rest))
  have hfound : decode ([] ++ completion.gone ++ completion.piece) = verdict.map some := by
    rw [List.nil_append, hcomplete]
    exact hwhole more
  have hqueue : queue ++ rest = completion.before ++
      (⟨completion.due, .data completion.piece⟩ :: (completion.after ++ rest)) :=
    (congrArg (· ++ rest) completion.queue_eq).trans (List.append_assoc ..)
  refine ⟨max now' completion.due, Nat.le_trans hle (Nat.le_max_left _ _), ?_⟩
  rw [hqueue, hawait]
  exact Brings.await_decided completion.due_le hfound now' _

/-- What there is behind the reads that are waited for: nothing before the deadline, or the end of
the stream. -/
inductive Ends (deadline : Nat) : List Arrival → TransportError → Prop where
  | silent : Ends deadline [] .timeout
  | late {arrival : Arrival} {rest : List Arrival} (hdue : deadline < arrival.due) :
    Ends deadline (arrival :: rest) .timeout
  | closed {due : Nat} {rest : List Arrival} (hdue : due ≤ deadline) :
    Ends deadline (⟨due, .closed⟩ :: rest) .disconnected

namespace Ends

variable {deadline : Nat} {rest : List Arrival} {cause : TransportError}

theorem await (h : Ends deadline rest cause) {α : Type}
    (decode : Bytes → Except ProtocolError (Option α)) (now : Nat) (received : Bytes) :
    (Stream.await decode deadline now received rest).outcome = .error (.transport cause) := by
  cases h with
  | silent => rfl
  | late hdue => rw [Stream.await, if_pos hdue]
  | closed hdue => rw [Stream.await, if_neg (Nat.not_lt.mpr hdue)]

/-- Nothing worse than the end of the stream is found when reads before it are thrown away. -/
theorem drain (h : Ends deadline rest cause) {queue : List Arrival} {bytes : Bytes}
    (hqueue : Brings deadline queue bytes) {now : Nat} (hnow : now ≤ deadline) :
    ∃ left, Stream.drain now (queue ++ rest) = (.ok (), left) ∨
      Stream.drain now (queue ++ rest) = (.error .disconnected, left) := by
  induction hqueue with
  | nil =>
    cases h with
    | silent => exact ⟨[], .inl rfl⟩
    | @late arrival rest hdue =>
      have hlate : now < arrival.due := Nat.lt_of_le_of_lt hnow hdue
      exact ⟨_, .inl (by rw [List.nil_append, Stream.drain, if_pos hlate])⟩
    | @closed due rest hdue =>
      rw [List.nil_append, Stream.drain]
      split
      · exact ⟨_, .inl rfl⟩
      · exact ⟨_, .inr rfl⟩
  | @cons due piece left queue hdue hqueue ih =>
    rw [List.cons_append, Stream.drain]
    split
    · exact ⟨_, .inl rfl⟩
    · exact ih

end Ends

theorem brings_flatten {deadline : Nat} {queue : List Arrival} {pieces : List Bytes}
    (hreads : queue.map Arrival.read = pieces.map .data)
    (hdue : ∀ arrival ∈ queue, arrival.due ≤ deadline) : Brings deadline queue pieces.flatten := by
  induction pieces generalizing queue with
  | nil =>
    rw [List.map_nil, List.map_eq_nil_iff] at hreads
    rw [hreads]
    exact .nil
  | cons bytes pieces ih =>
    cases queue with
    | nil => cases hreads
    | cons arrival queue =>
      obtain ⟨due, read⟩ := arrival
      obtain ⟨rfl, hrest⟩ := List.cons.inj hreads
      obtain ⟨hfirst, hdue⟩ := List.forall_mem_cons.mp hdue
      exact .cons hfirst (ih hrest hdue)

theorem Delivery.Faithful.brings {delivery : Delivery} {timeout : Nat}
    (h : delivery.Faithful timeout) (now n : Nat) (bytes : Bytes) :
    Brings (now + timeout)
      ((delivery.toMaster n bytes).map fun arrival => ⟨now + arrival.due, arrival.read⟩) bytes := by
  obtain ⟨pieces, rfl, hreads⟩ := h.flatten_toMaster n bytes
  refine brings_flatten (by rwa [List.map_map]) ?_
  simp only [List.mem_map]
  rintro _ ⟨arrival, hmem, rfl⟩
  exact Nat.add_le_add_left (h.due_le n _ arrival hmem) now

/-- Who waits on a stream with nothing on its way gets the answer that is delivered faithfully. -/
theorem Delivery.Faithful.await {delivery : Delivery} {timeout : Nat}
    (h : delivery.Faithful timeout) {stream : Stream}
    (hqueue : Brings (stream.now + timeout) stream.incoming []) (n : Nat) {α : Type}
    {decode : Bytes → Except ProtocolError (Option α)} {answer : α} {whole : Bytes}
    (hwhole : ∀ more, decode (whole ++ more) = .ok (some answer))
    (hpart : ∀ n < whole.length, decode (whole.take n) = .ok none) (hne : whole ≠ []) :
    let fed := stream.feed (delivery.toMaster n whole)
    ∃ now left, Stream.await decode (fed.now + timeout) fed.now [] fed.incoming =
        ⟨.ok answer, now, left⟩ ∧
      fed.now ≤ now ∧ Brings (fed.now + timeout) left [] := by
  -- what is still on its way comes first, but brings no bytes
  have hbrings := hqueue.append (h.brings stream.now n whole)
  rw [List.nil_append] at hbrings
  obtain ⟨completion⟩ := hbrings.exists_completion (List.append_nil whole).symm hne
  obtain ⟨more, -, hnothing⟩ := completion.complete
  obtain ⟨-, hskipped⟩ := List.append_eq_nil_iff.mp hnothing.symm
  have hafter := completion.after_brings
  rw [hskipped] at hafter
  have hfound : ∀ more, decode (whole ++ more) = (Except.ok answer).map some := hwhole
  obtain ⟨now, hle, hawait⟩ := completion.await hfound hpart stream.now []
  rw [List.append_nil, List.append_nil] at hawait
  exact ⟨now, completion.after, hawait, hle, hafter⟩

theorem flatten_pieces {size : Nat} (h : size ≠ 0) (bytes : Bytes) :
    (pieces size bytes).flatten = bytes := by
  induction bytes using pieces.induct size with
  | case1 bytes hstop =>
    obtain rfl : bytes = [] := hstop.resolve_right h
    rw [pieces, if_pos (.inl rfl)]
    rfl
  | case2 bytes hstop ih =>
    rw [pieces, if_neg hstop, List.flatten_cons, ih, List.take_append_drop]

theorem Delivery.prompt_faithful {size : Nat} (h : size ≠ 0) (timeout : Nat) :
    (prompt size).Faithful timeout where
  flatten_toDevice _ bytes := flatten_pieces h bytes
  flatten_toMaster _ bytes := by
    refine ⟨if bytes = [] then [[]] else pieces size bytes, ?_, ?_⟩
    · split
      · next hbytes => exact hbytes.symm
      · exact flatten_pieces h bytes
    · change ((if bytes = [] then [[]] else pieces size bytes).map _).map _ = _
      rw [List.map_map]
      rfl
  due_le _ bytes arrival harrival := by
    obtain ⟨_, -, rfl⟩ := List.mem_map.mp harrival
    exact Nat.zero_le timeout

end Modbus
