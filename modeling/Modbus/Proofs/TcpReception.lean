import Modbus.Proofs.TcpLink

/-! Which bytes a TCP client takes for the response to its request. A stream
bears a `Verdict` as soon as it begins with a header that no response can have,
or with a complete frame, and more bytes do not change it. So the client comes
to the verdict that all the bytes bear together, in whatever reads they come,
and if they bear none it fails as the connection does. -/

namespace Modbus.Tcp

/-- What a stream says to a client that waits for the response of a unit to the request of a
transaction: that it bears no Modbus, or no length that a frame can have, or what the first frame
is. Nothing is said before one of these is there. -/
inductive Verdict (transaction : UInt16) (unit : UInt8) :
    Bytes → Except ProtocolError Bytes → Prop where
  | foreign {t1 t0 p1 p0 l1 l0 u : UInt8} {rest : Bytes} (hp : word p1 p0 ≠ 0) :
    Verdict transaction unit (t1 :: t0 :: p1 :: p0 :: l1 :: l0 :: u :: rest)
      (.error (.protocolNotModbus (word p1 p0)))
  | invalid {t1 t0 p1 p0 l1 l0 u : UInt8} {rest : Bytes} (hp : word p1 p0 = 0)
    (hl : (word l1 l0).toNat < 2 ∨ 254 < (word l1 l0).toNat) :
    Verdict transaction unit (t1 :: t0 :: p1 :: p0 :: l1 :: l0 :: u :: rest)
      (.error (.lengthField (word l1 l0)))
  | otherTransaction {frame : Frame} {tail : Bytes} (hpdu : Device.Carried frame.pdu)
    (hother : frame.transaction ≠ transaction) :
    Verdict transaction unit (frame.wire ++ tail)
      (.error (.transactionMismatch transaction frame.transaction))
  | otherUnit {frame : Frame} {tail : Bytes} (hpdu : Device.Carried frame.pdu)
    (hown : frame.transaction = transaction) (hother : frame.unit ≠ unit) :
    Verdict transaction unit (frame.wire ++ tail) (.error (.unitMismatch unit frame.unit))
  | accepted {pdu tail : Bytes} (hpdu : Device.Carried pdu) :
    Verdict transaction unit (Frame.wire ⟨transaction, unit, pdu⟩ ++ tail) (.ok pdu)

namespace Client

variable {transaction : UInt16} {unit : UInt8}

theorem response_none {buffer : Bytes} (h : Frame.ofFront buffer = .ok none) :
    response transaction unit buffer = .ok none := by
  rw [response, Frame.response, h]
  rfl

theorem response_error {buffer : Bytes} {cause : ProtocolError}
    (h : Frame.ofFront buffer = .error cause) :
    response transaction unit buffer = .error cause := by
  rw [response, Frame.response, h]
  rfl

/-- The client reads off a stream the verdict that it bears, and nothing before it bears one. -/
theorem response_eq_iff {buffer : Bytes} {verdict : Except ProtocolError Bytes} :
    response transaction unit buffer = verdict.map some ↔
      Verdict transaction unit buffer verdict := by
  constructor
  · intro h
    cases front_cases buffer with
    | short hlen =>
      rw [response_none (Frame.ofFront_short hlen)] at h
      cases verdict <;> cases h
    | foreign hp =>
      rw [response_error (Frame.ofFront_foreign hp)] at h
      cases verdict <;> cases h
      exact .foreign hp
    | invalid hp hl =>
      rw [response_error (Frame.ofFront_invalid hp hl)] at h
      cases verdict <;> cases h
      exact .invalid hp hl
    | incomplete hp hl hlen =>
      rw [response_none (Frame.ofFront_incomplete hp hl hlen)] at h
      cases verdict <;> cases h
    | @complete t1 t0 p1 p0 l1 l0 u rest hp hl hlen =>
      have hpdu : Device.Carried (rest.take ((word l1 l0).toNat - 1)) := by
        rw [Device.Carried, List.length_take]
        omega
      rw [Frame.eq_wire_of_complete hp hl.1 hlen] at h ⊢
      obtain ⟨frame, hframe⟩ : ∃ frame : Frame,
          frame = ⟨word t1 t0, u, rest.take ((word l1 l0).toNat - 1)⟩ := ⟨_, rfl⟩
      rw [← hframe] at h ⊢
      replace hpdu : Device.Carried frame.pdu := by rwa [hframe]
      rw [response_wire_append hpdu] at h
      split at h
      · next hother => cases verdict <;> cases h; exact .otherTransaction hpdu hother
      · next hown =>
        have hown : frame.transaction = transaction := Decidable.not_not.mp hown
        split at h
        · next hother => cases verdict <;> cases h; exact .otherUnit hpdu hown hother
        · next hunit =>
          have hunit : frame.unit = unit := Decidable.not_not.mp hunit
          cases verdict <;> cases h
          subst hown hunit
          exact .accepted hpdu
  · intro h
    cases h with
    | foreign hp => exact response_error (Frame.ofFront_foreign hp)
    | invalid hp hl => exact response_error (Frame.ofFront_invalid hp hl)
    | otherTransaction hpdu hother => rw [response_wire_append hpdu, if_pos hother]; rfl
    | otherUnit hpdu hown hother =>
      rw [response_wire_append hpdu, if_neg (not_not_intro hown), if_pos hother]
      rfl
    | @accepted pdu tail hpdu =>
      have hframe : Device.Carried (⟨transaction, unit, pdu⟩ : Frame).pdu := hpdu
      rw [response_wire_append hframe, if_neg (not_not_intro rfl), if_neg (not_not_intro rfl)]
      rfl

/-- A verdict stands whatever follows. -/
theorem verdict_append {buffer : Bytes} {verdict : Except ProtocolError Bytes}
    (h : Verdict transaction unit buffer verdict) (more : Bytes) :
    Verdict transaction unit (buffer ++ more) verdict := by
  cases h with
  | foreign hp => exact .foreign hp
  | invalid hp hl => exact .invalid hp hl
  | otherTransaction hpdu hother =>
    rw [List.append_assoc]
    exact .otherTransaction hpdu hother
  | otherUnit hpdu hown hother =>
    rw [List.append_assoc]
    exact .otherUnit hpdu hown hother
  | accepted hpdu =>
    rw [List.append_assoc]
    exact .accepted hpdu

theorem exists_of_ne_none {found : Except ProtocolError (Option Bytes)} (h : found ≠ .ok none) :
    ∃ verdict : Except ProtocolError Bytes, found = verdict.map some := by
  match found with
  | .ok none => exact absurd rfl h
  | .ok (some pdu) => exact ⟨.ok pdu, rfl⟩
  | .error cause => exact ⟨.error cause, rfl⟩

theorem response_append {buffer : Bytes} {found : Except ProtocolError (Option Bytes)}
    (h : response transaction unit buffer = found) (hne : found ≠ .ok none) (more : Bytes) :
    response transaction unit (buffer ++ more) = found := by
  obtain ⟨verdict, rfl⟩ := exists_of_ne_none hne
  exact response_eq_iff.mpr (verdict_append (response_eq_iff.mp h) more)

/-- Without a verdict on all bytes there is none on the first of them either. -/
theorem response_none_of_prefix {gone left : Bytes}
    (h : ¬ ∃ verdict, Verdict transaction unit (gone ++ left) verdict) :
    response transaction unit gone = .ok none := by
  refine Classical.byContradiction fun hne => ?_
  rw [← response_append rfl hne left] at hne
  obtain ⟨verdict, hverdict⟩ := exists_of_ne_none hne
  exact h ⟨verdict, response_eq_iff.mp hverdict⟩

/-- A connected client to which some bytes come before the deadline of its next response, in any
reads, and after them nothing until the deadline or the end of the stream. -/
def Hears (client : Client) (bytes : Bytes) (cause : TransportError) : Prop :=
  ∃ stream reads rest, client.connection = some stream ∧ stream.incoming = reads ++ rest ∧
    Brings (stream.now + client.timeout) reads bytes ∧ Ends (stream.now + client.timeout) rest cause

section Hearing

variable {client : Client} {bytes : Bytes} {cause : TransportError}

theorem Hears.verdict (h : client.Hears bytes cause) {verdict : Except ProtocolError Bytes}
    (hverdict : Verdict client.transaction unit bytes verdict) :
    (client.receive unit).1 = verdict.mapError .protocol := by
  obtain ⟨stream, reads, rest, hstream, hincoming, hbrings, hends⟩ := h
  have hstart : response client.transaction unit [] = .ok none :=
    response_none (Frame.ofFront_short (by decide))
  obtain ⟨now, left, skipped, hawait, hnow, hleft⟩ :=
    hbrings.await_stable response_append (Nat.le_add_right _ _) hstart
      (response_eq_iff.mpr hverdict) rest
  rw [← hincoming] at hawait
  cases verdict with
  | error cause =>
    change _ = Stream.Waited.mk (.error (.protocol cause)) now (left ++ rest) at hawait
    simp only [receive, hstream, hawait]
    rfl
  | ok pdu =>
    change _ = Stream.Waited.mk (.ok pdu) now (left ++ rest) at hawait
    -- the end of the stream behind the response is left for the next request
    obtain ⟨after, hdrain | hdrain⟩ := hends.drain hleft hnow
    · simp only [receive, hstream, hawait, hdrain]
      rfl
    · simp only [receive, hstream, hawait, hdrain]
      rfl

theorem Hears.undecided (h : client.Hears bytes cause)
    (hnone : ¬ ∃ verdict, Verdict client.transaction unit bytes verdict) :
    (client.receive unit).1 = .error (.transport cause) := by
  obtain ⟨stream, reads, rest, hstream, hincoming, hbrings, hends⟩ := h
  have hpart : ∀ gone left, bytes = gone ++ left →
      response client.transaction unit ([] ++ gone) = .ok none := by
    rintro gone left rfl
    exact response_none_of_prefix hnone
  obtain ⟨now, -, hawait⟩ := hbrings.await_undecided hpart stream.now rest
  rw [← hincoming] at hawait
  simp only [receive, hstream, hawait, hends.await]

theorem Hears.ok_iff (h : client.Hears bytes cause) {pdu : Bytes} :
    (client.receive unit).1 = .ok pdu ↔
      Device.Carried pdu ∧ Frame.wire ⟨client.transaction, unit, pdu⟩ <+: bytes := by
  constructor
  · intro hok
    by_cases hexists : ∃ verdict, Verdict client.transaction unit bytes verdict
    · obtain ⟨verdict, hverdict⟩ := hexists
      rw [h.verdict hverdict] at hok
      cases verdict <;> cases hok
      cases hverdict with
      | accepted hpdu => exact ⟨hpdu, List.prefix_append _ _⟩
    · rw [h.undecided hexists] at hok
      cases hok
  · rintro ⟨hpdu, tail, rfl⟩
    exact h.verdict (.accepted hpdu)

/-- The reads do not matter, only what they bring. -/
theorem Hears.receive_eq (h : client.Hears bytes cause) {other : Client}
    (hother : other.Hears bytes cause) (htransaction : other.transaction = client.transaction) :
    (other.receive unit).1 = (client.receive unit).1 := by
  by_cases hexists : ∃ verdict, Verdict client.transaction unit bytes verdict
  · obtain ⟨verdict, hverdict⟩ := hexists
    rw [h.verdict hverdict, hother.verdict (htransaction ▸ hverdict)]
  · rw [h.undecided hexists, hother.undecided (htransaction ▸ hexists)]

end Hearing

theorem receive_transaction (client : Client) (unit : UInt8) :
    (client.receive unit).2.transaction = client.transaction + 1 := by
  rw [receive]
  split
  · rfl
  · dsimp only
    split
    · split <;> rfl
    · rfl
    · rfl

/-- The outcomes that leave a connection open: a PDU, or a frame or header that is no response to
the request. -/
inductive KeepsOpen : Except Error Bytes → Prop where
  | ok (pdu : Bytes) : KeepsOpen (.ok pdu)
  | protocol (cause : ProtocolError) : KeepsOpen (.error (.protocol cause))

theorem not_keepsOpen (cause : TransportError) : ¬ KeepsOpen (.error (.transport cause)) := nofun

/-- Every other outcome is a failure of the connection, and closes it. -/
theorem receive_cases (client : Client) (unit : UInt8) :
    KeepsOpen (client.receive unit).1 ∧ (client.receive unit).2.isConnected ∨
    (∃ cause, (client.receive unit).1 = .error (.transport cause)) ∧
      ¬ (client.receive unit).2.isConnected := by
  cases hstream : client.connection with
  | none =>
    refine .inr ⟨⟨.notConnected, ?_⟩, ?_⟩
    · simp only [receive, hstream]
    · simp [receive, isConnected, hstream]
  | some stream =>
    obtain ⟨waited, hwaited⟩ : ∃ waited, Stream.await (response client.transaction unit)
      (stream.now + client.timeout) stream.now [] stream.incoming = waited := ⟨_, rfl⟩
    have houtcome := Stream.await_outcome (response client.transaction unit)
      (stream.now + client.timeout) stream.now [] stream.incoming
    rw [hwaited] at houtcome
    simp only [receive, hstream, hwaited]
    obtain ⟨verdict, houtcome⟩ | ⟨cause, houtcome⟩ := houtcome
    · cases verdict with
      | error cause =>
        change waited.outcome = .error (.protocol cause) at houtcome
        simp only [houtcome]
        exact .inl ⟨.protocol cause, rfl⟩
      | ok pdu =>
        change waited.outcome = .ok pdu at houtcome
        simp only [houtcome]
        -- reading on behind the response may fail
        split
        · exact .inr ⟨⟨_, rfl⟩, Bool.false_ne_true⟩
        · exact .inl ⟨.ok pdu, rfl⟩
    · simp only [houtcome]
      exact .inr ⟨⟨cause, rfl⟩, Bool.false_ne_true⟩

theorem receive_isConnected (client : Client) (unit : UInt8) :
    (client.receive unit).2.isConnected ↔ KeepsOpen (client.receive unit).1 := by
  obtain ⟨hkeeps, hopen⟩ | ⟨⟨cause, hfailed⟩, hclosed⟩ := client.receive_cases unit
  · exact iff_of_true hopen hkeeps
  · rw [hfailed]
    exact iff_of_false hclosed (not_keepsOpen cause)

/-- A response is accepted for the transaction that is waited for and for no other, in whatever
reads it comes. The transaction counts up in every case, and the connection stays open if what has
come is a response or a protocol error. -/
theorem receive_judges (client : Client) (unit : UInt8) :
    (client.receive unit).2.transaction = client.transaction + 1 ∧
    ((client.receive unit).2.isConnected ↔ KeepsOpen (client.receive unit).1) ∧
    (client.connection = none →
      (client.receive unit).1 = .error (.transport .notConnected)) ∧
    ∀ bytes cause, client.Hears bytes cause →
      (∀ pdu, (client.receive unit).1 = .ok pdu ↔
        Device.Carried pdu ∧ Frame.wire ⟨client.transaction, unit, pdu⟩ <+: bytes) ∧
      (∀ verdict, Verdict client.transaction unit bytes verdict →
        (client.receive unit).1 = verdict.mapError .protocol) ∧
      ((¬ ∃ verdict, Verdict client.transaction unit bytes verdict) →
        (client.receive unit).1 = .error (.transport cause)) ∧
      ∀ other : Client, other.transaction = client.transaction → other.Hears bytes cause →
        (other.receive unit).1 = (client.receive unit).1 := by
  refine ⟨receive_transaction client unit, receive_isConnected client unit, ?_, ?_⟩
  · intro hclosed
    simp only [receive, hclosed]
  · intro bytes cause h
    exact ⟨fun _ => h.ok_iff, fun _ => h.verdict, h.undecided,
      fun _ htransaction hother => h.receive_eq hother htransaction⟩

/-- A client whose response comes in two reads, of which the second goes on behind it. -/
def splitResponse : Client where
  transaction := 0x1234
  connection := some { incoming :=
    [⟨3, .data [0x12, 0x34, 0, 0]⟩,
      ⟨7, .data [0, 6, 0x11, 0x06, 0x22, 0x22, 0xAB, 0xCD, 0xFF]⟩] }

theorem splitResponse_hears : splitResponse.Hears
    [0x12, 0x34, 0, 0, 0, 6, 0x11, 0x06, 0x22, 0x22, 0xAB, 0xCD, 0xFF] .timeout :=
  ⟨_, _, [], rfl, (List.append_nil _).symm, .cons (by decide) (.cons (by decide) .nil), .silent⟩

theorem receive_judges_splitResponse :
    splitResponse.Hears
      [0x12, 0x34, 0, 0, 0, 6, 0x11, 0x06, 0x22, 0x22, 0xAB, 0xCD, 0xFF] .timeout ∧
    (splitResponse.receive 0x11).1 = .ok [0x06, 0x22, 0x22, 0xAB, 0xCD] ∧
    (splitResponse.receive 0x11).2.transaction = 0x1235 ∧
    (splitResponse.receive 0x11).2.isConnected := by
  obtain ⟨htransaction, hconnected, -, hhears⟩ := receive_judges splitResponse 0x11
  have hok : (splitResponse.receive 0x11).1 = .ok [0x06, 0x22, 0x22, 0xAB, 0xCD] :=
    ((hhears _ _ splitResponse_hears).1 _).mpr ⟨by decide, [0xFF], rfl⟩
  exact ⟨splitResponse_hears, hok, htransaction, hconnected.mpr (hok ▸ .ok _)⟩

end Client

end Modbus.Tcp
