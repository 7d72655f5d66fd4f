import Mathlib.Data.List.Chain
import Modbus.Proofs.ConnectionState
import Modbus.Proofs.Refusal
import Modbus.Proofs.RequestDiscipline

/-! How the requests of a master are numbered in the course of whole runs. A
run is a list of notes, and each call adds one. The transaction of the client
is the number of responses that have been waited for; it is one ahead of the
last request on an open connection, so the next request there continues the
numbers. A request that fails to go out, or goes out in part only, is not
counted, but it also ends its connection, and the numbers only have to differ
on one. -/

namespace Modbus.Tcp

open Master (Operation Answer)

/-- What happens between a master and its connections. -/
inductive Note where
  | opened (outcome : Except Error Unit)
  | closed
  | sent (connection : Nat) (outcome : Except Error Unit) (written : Bytes)
  | received (incoming : List Arrival) (outcome : Except Error Bytes)
  | performed (operation : Operation) (outcome : Except Error Answer)
  deriving DecidableEq

namespace Note

def isReceived : Note → Bool
  | .received .. => true
  | _ => false

/-- The transaction in the header of what was written on a connection, as far as that went out. -/
def transaction? (connection : Nat) : Note → Option UInt16
  | .sent number _ (high :: low :: _) => if number = connection then some (word high low) else none
  | _ => none

end Note

/-- How many responses have been waited for. -/
def receives (past : List Note) : Nat := past.countP Note.isReceived

/-- The transactions of the requests on a connection, those of later ones first. -/
def ids (connection : Nat) (past : List Note) : List UInt16 :=
  past.filterMap (Note.transaction? connection)

/-- A client in the course of a run. Connections are numbered as they are opened, and the latest
note is the first. -/
structure Conversation where
  client : Client
  connections : Nat := 0
  past : List Note := []

/-- The far end and all that lies between. It may do anything before each call, in view of what
has happened. -/
structure Peer where
  opening : List Note → Opening
  events : List Note → List Event

/-- What a master is told to do. -/
inductive Task where
  | connect
  | close
  | perform (operation : Operation)

namespace Peer

def act (peer : Peer) (c : Conversation) : Conversation :=
  { c with client := { c.client with
      connection := c.client.connection.map fun stream =>
        (peer.events c.past).foldl Stream.happen stream } }

def connect (peer : Peer) (c : Conversation) : Except Error Unit × Conversation :=
  let (outcome, client) := c.client.connect (peer.opening c.past)
  (outcome, ⟨client, if client.isConnected then c.connections + 1 else c.connections,
    .opened outcome :: c.past⟩)

def send (peer : Peer) (unit : UInt8) (pdu : Bytes) (c : Conversation) :
    Except Error Unit × Conversation :=
  let (outcome, written, client) := (peer.act c).client.send unit pdu
  (outcome, ⟨client, c.connections, .sent c.connections outcome written :: c.past⟩)

/-- What is on its way to the client, or has come already. -/
def incoming (peer : Peer) (c : Conversation) : List Arrival :=
  ((peer.act c).client.connection.map Stream.incoming).getD []

def receive (peer : Peer) (unit : UInt8) (c : Conversation) :
    Except Error Bytes × Conversation :=
  let (outcome, client) := (peer.act c).client.receive unit
  (outcome, ⟨client, c.connections, .received (peer.incoming c) outcome :: c.past⟩)

def close (c : Conversation) : Conversation :=
  { c with client := c.client.close, past := .closed :: c.past }

/-- Connections of a client to the peer, on which all that happens is noted. -/
def transport (peer : Peer) : Transport Conversation where
  connect := peer.connect
  send := peer.send
  receive := peer.receive
  close c := ((), close c)
  isConnected c := c.client.isConnected

def step (peer : Peer) (c : Conversation) : Task → Conversation
  | .connect => (peer.transport.connect.run.run c).2
  | .close => (peer.transport.close.run c).2
  | .perform operation =>
    let (outcome, c) := (operation.perform peer.transport).run.run c
    { c with past := .performed operation outcome :: c.past }

/-- A run of a new client. -/
def run (peer : Peer) (timeout : Nat) (tasks : List Task) : Conversation :=
  tasks.foldl peer.step { client := { timeout } }

end Peer

/-- The data that come first are some bytes, and maybe more. -/
def StartsWith (incoming : List Arrival) (bytes : Bytes) : Prop :=
  ∃ deadline reads rest tail, incoming = reads ++ rest ∧ Brings deadline reads (bytes ++ tail)

/-- A PDU that is received right behind a request: it is that of the first frame to come in, which
is for the transaction of the request. -/
inductive Taken (incoming : List Arrival) (pdu : Bytes) : List Note → Prop where
  | intro {connection : Nat} {transaction : UInt16} {unit : UInt8} {request : Bytes}
    {earlier : List Note} (hfront : StartsWith incoming (Frame.wire ⟨transaction, unit, pdu⟩)) :
    Taken incoming pdu
      (.sent connection (.ok ()) (Frame.wire ⟨transaction, unit, request⟩) :: earlier)

/-- What an exchange has come to: a PDU only if that has been received right behind the request. -/
inductive Exchanged (unit : UInt8) (request : Bytes) : Except Error Bytes → List Note → Prop where
  | response {connection : Nat} {transaction : UInt16} {incoming : List Arrival} {pdu : Bytes}
    {earlier : List Note} :
    Exchanged unit request (.ok pdu) (.received incoming (.ok pdu) ::
      .sent connection (.ok ()) (Frame.wire ⟨transaction, unit, request⟩) :: earlier)
  | mismatch {incoming : List Arrival} {cause : ProtocolError} {earlier : List Note} :
    Exchanged unit request (.error (.protocol cause))
      (.received incoming (.error (.protocol cause)) :: earlier)
  | failure (cause : TransportError) (past : List Note) :
    Exchanged unit request (.error (.transport cause)) past

/-- What an operation has come to: its arguments are refused, or it judges the outcome of its
exchange. -/
def Concluded (operation : Operation) (outcome : Except Error Answer) (past : List Note) : Prop :=
  (∃ cause, outcome = .error (.argument cause)) ∨
  ∃ exchanged, Exchanged operation.unit operation.request.pdu exchanged past ∧
    outcome = exchanged >>= operation.accept

section Numbers

variable {id : UInt16} {numbers : List UInt16}

/-- In a list that counts down, another number is as far off as its place. -/
theorem distance_of_chain (h : (id :: numbers).IsChain fun later earlier => later = earlier + 1)
    {other : UInt16} (hmem : other ∈ numbers) :
    ∃ n, 0 < n ∧ n ≤ numbers.length ∧ id = other + UInt16.ofNat n := by
  induction numbers generalizing id with
  | nil => cases hmem
  | cons next rest ih =>
    obtain ⟨hnext, hrest⟩ := List.isChain_cons_cons.mp h
    rcases List.mem_cons.mp hmem with rfl | hmem
    · exact ⟨1, Nat.one_pos, Nat.le_add_left _ _, hnext⟩
    · obtain ⟨n, -, hle, rfl⟩ := ih hrest hmem
      refine ⟨n + 1, Nat.succ_pos n, Nat.succ_le_succ hle, ?_⟩
      rw [hnext, UInt16.ofNat_add, UInt16.add_assoc]
      rfl

/-- Numbers that count down do not come back before all others have been there. -/
theorem nodup_of_chain (h : numbers.IsChain fun later earlier => later = earlier + 1)
    (hlen : numbers.length ≤ 65536) : numbers.Nodup := by
  induction numbers with
  | nil => exact .nil
  | cons id rest ih =>
    rw [List.length_cons] at hlen
    refine List.nodup_cons.mpr ⟨fun hmem => ?_, ih h.tail (Nat.le_of_succ_le hlen)⟩
    obtain ⟨n, hpos, hle, hid⟩ := distance_of_chain h hmem
    have hzero : UInt16.ofNat n = 0 := by
      rw [← UInt16.add_right_inj id, UInt16.add_zero, ← hid]
    have hmod : n % 2 ^ 16 = 0 := by
      rw [← UInt16.toNat_ofNat', hzero]
      rfl
    omega

end Numbers

theorem receives_received (incoming : List Arrival) (outcome : Except Error Bytes)
    (past : List Note) : receives (.received incoming outcome :: past) = receives past + 1 :=
  List.countP_cons_of_pos rfl

/-- What went out of a frame has its transaction, if that went out. -/
theorem transaction?_front {frame : Frame} {written : Bytes} (h : written <+: frame.wire)
    (number connection : Nat) (outcome : Except Error Unit) :
    (Note.sent number outcome written).transaction? connection =
      if number = connection ∧ 2 ≤ written.length then some frame.transaction else none := by
  obtain ⟨rest, hrest⟩ := h
  match written with
  | [] | [_] => exact (if_neg (by simp)).symm
  | high :: low :: tail =>
    obtain ⟨hhigh, hlow⟩ := List.cons.inj hrest
    have hword : word high low = frame.transaction := by
      rw [hhigh, (List.cons.inj hlow).1]
      exact word_wordBytes frame.transaction
    simp only [Note.transaction?, hword, List.length_cons, Nat.le_add_left, and_true]

/-- What went out of a frame adds its transaction to those of the connection, or none. -/
theorem ids_front {frame : Frame} {written : Bytes} (h : written <+: frame.wire)
    (number connection : Nat) (outcome : Except Error Unit) (past : List Note) :
    ids connection (.sent number outcome written :: past) = ids connection past ∨
    number = connection ∧ written ≠ [] ∧
      ids connection (.sent number outcome written :: past) =
        frame.transaction :: ids connection past := by
  rw [ids, List.filterMap_cons, transaction?_front h]
  by_cases hwritten : number = connection ∧ 2 ≤ written.length
  · rw [if_pos hwritten]
    refine .inr ⟨hwritten.1, ?_, rfl⟩
    rintro rfl
    cases hwritten.2
  · rw [if_neg hwritten]
    exact .inl rfl

theorem ids_wire (connection : Nat) (outcome : Except Error Unit) (frame : Frame)
    (past : List Note) :
    ids connection (.sent connection outcome frame.wire :: past) =
      frame.transaction :: ids connection past := by
  have hlen : 2 ≤ frame.wire.length := by simp [Frame.wire_eq]
  rw [ids, List.filterMap_cons, transaction?_front List.prefix_rfl, if_pos ⟨rfl, hlen⟩]
  rfl

namespace Client

theorem connect_transaction (client : Client) (opening : Opening) :
    (client.connect opening).2.transaction = client.transaction := by
  cases opening with
  | fails fault => rfl
  | after delay =>
    simp only [connect]
    split <;> rfl

/-- A PDU that is received comes from the first frame that has come in, which is for the
transaction that was waited for. -/
theorem startsWith_of_receive {client : Client} {unit : UInt8} {pdu : Bytes}
    (h : (client.receive unit).1 = .ok pdu) :
    StartsWith ((client.connection.map Stream.incoming).getD [])
      (Frame.wire ⟨client.transaction, unit, pdu⟩) := by
  cases hstream : client.connection with
  | none =>
    simp only [receive, hstream] at h
    cases h
  | some stream =>
    have houtcome : (Stream.await (response client.transaction unit)
        (stream.now + client.timeout) stream.now [] stream.incoming).outcome = .ok pdu := by
      simp only [receive, hstream] at h
      split at h
      · next found hfound =>
        split at h
        · cases h
        · rw [hfound]
          exact h
      · cases h
      · cases h
    obtain ⟨reads, rest, bytes, hincoming, hreads, hfound⟩ := Stream.await_ok houtcome
    have hverdict : Verdict client.transaction unit bytes (.ok pdu) := response_eq_iff.mp hfound
    cases hverdict with
    | accepted hpdu => exact ⟨_, reads, rest, _, hincoming, hreads⟩

end Client

namespace Conversation

/-- The next request on an open connection continues the numbers there. -/
def Next (c : Conversation) : Prop :=
  c.client.isConnected →
    ∀ id ∈ (ids c.connections c.past).head?, c.client.transaction = id + 1

/-- What can be noted of a conversation: a request is sent under the transaction of the client, a
PDU answers it, and an operation concludes from that. -/
inductive Follows (c : Conversation) : Note → Prop where
  | opened (outcome : Except Error Unit) : Follows c (.opened outcome)
  | closed : Follows c .closed
  | sent (unit : UInt8) (pdu : Bytes) {outcome : Except Error Unit} {written : Bytes}
    (hfront : written <+: Frame.wire ⟨c.client.transaction, unit, pdu⟩)
    (hwhole : outcome = .ok () → written = Frame.wire ⟨c.client.transaction, unit, pdu⟩)
    (hopen : written ≠ [] → c.client.isConnected) (hnext : c.Next) :
    Follows c (.sent c.connections outcome written)
  | received {incoming : List Arrival} {outcome : Except Error Bytes}
    (htaken : ∀ pdu, outcome = .ok pdu → Taken incoming pdu c.past) :
    Follows c (.received incoming outcome)
  | performed {operation : Operation} {outcome : Except Error Answer}
    (hconcluded : Concluded operation outcome c.past) : Follows c (.performed operation outcome)

/-- What holds of all that has happened, whatever the peer does. -/
structure Sound (c : Conversation) : Prop where
  counted : c.client.transaction = (receives c.past).toUInt16
  headed : ∀ connection outcome written before,
    .sent connection outcome written :: before <:+ c.past →
    ∃ unit pdu, written <+: Frame.wire ⟨(receives before).toUInt16, unit, pdu⟩ ∧
      (outcome = .ok () → written = Frame.wire ⟨(receives before).toUInt16, unit, pdu⟩)
  consecutive : ∀ connection,
    (ids connection c.past).IsChain fun later earlier => later = earlier + 1
  fresh : ∀ connection, c.connections < connection → ids connection c.past = []
  taken : ∀ incoming pdu before, .received incoming (.ok pdu) :: before <:+ c.past →
    Taken incoming pdu before
  concluded : ∀ operation outcome before, .performed operation outcome :: before <:+ c.past →
    Concluded operation outcome before

variable {c : Conversation}

/-- One more note that may follow changes nothing of this, as long as the client counts. -/
theorem Sound.note (h : c.Sound) {note : Note} (hnote : c.Follows note) {client : Client}
    {connections : Nat} (hle : c.connections ≤ connections)
    (hcounted : client.transaction = (receives (note :: c.past)).toUInt16) :
    Sound ⟨client, connections, note :: c.past⟩ where
  counted := hcounted
  headed := by
    intro connection outcome written before hsuffix
    rcases List.suffix_cons_iff.mp hsuffix with heq | hsuffix
    · cases hnote with
      | sent unit pdu hfront hwhole =>
        cases heq
        rw [h.counted] at hfront hwhole
        exact ⟨unit, pdu, hfront, hwhole⟩
      | _ => cases heq
    · exact h.headed connection outcome written before hsuffix
  consecutive := by
    intro connection
    cases hnote with
    | sent unit pdu hfront hwhole hopen hnext =>
      -- the connection that is open is the only one that can be written on
      obtain hsame | ⟨rfl, hwritten, hids⟩ := ids_front hfront c.connections connection _ c.past
      · rw [hsame]
        exact h.consecutive connection
      · rw [hids]
        exact List.isChain_cons.mpr ⟨hnext (hopen hwritten), h.consecutive c.connections⟩
    | _ => exact h.consecutive connection
  fresh := by
    intro connection hlt
    have hnone := h.fresh connection (Nat.lt_of_le_of_lt hle hlt)
    cases hnote with
    | sent unit pdu hfront =>
      obtain hsame | ⟨rfl, -⟩ := ids_front hfront c.connections connection _ c.past
      · rw [hsame]
        exact hnone
      · exact absurd hlt (Nat.not_lt.mpr hle)
    | _ => exact hnone
  taken := by
    intro incoming pdu before hsuffix
    rcases List.suffix_cons_iff.mp hsuffix with heq | hsuffix
    · cases hnote with
      | received htaken => cases heq; exact htaken pdu rfl
      | _ => cases heq
    · exact h.taken incoming pdu before hsuffix
  concluded := by
    intro operation outcome before hsuffix
    rcases List.suffix_cons_iff.mp hsuffix with heq | hsuffix
    · cases hnote with
      | performed hconcluded => cases heq; exact hconcluded
      | _ => cases heq
    · exact h.concluded operation outcome before hsuffix

/-- A conversation between two tasks. -/
structure Settled (c : Conversation) : Prop where
  sound : c.Sound
  next : c.Next

variable {peer : Peer}

theorem act_isConnected (peer : Peer) (c : Conversation) :
    (peer.act c).client.isConnected = c.client.isConnected := Option.isSome_map

theorem Settled.connect (h : c.Settled) : (peer.connect c).2.Settled where
  sound := by
    have hle : ∀ opened : Bool,
        c.connections ≤ if opened then c.connections + 1 else c.connections := by
      intro opened
      cases opened with
      | true => exact Nat.le_succ _
      | false => exact Nat.le_refl _
    exact h.sound.note (.opened _) (hle _)
      ((Client.connect_transaction c.client _).trans h.sound.counted)
  next := by
    intro hopen id hid
    -- nothing has been sent on a connection that is new
    have hfresh : ids (peer.connect c).2.connections (peer.connect c).2.past = [] := by
      have hnew : (peer.connect c).2.connections = c.connections + 1 := if_pos hopen
      rw [hnew]
      exact h.sound.fresh _ (Nat.lt_succ_self _)
    rw [hfresh] at hid
    cases hid

theorem Settled.close (h : c.Settled) : (Peer.close c).Settled where
  sound := h.sound.note .closed (Nat.le_refl _) h.sound.counted
  next hopen := absurd hopen Bool.false_ne_true

/-- A conversation in which a response is waited for. -/
structure Waiting (c : Conversation) (unit : UInt8) (pdu : Bytes) : Prop where
  sound : c.Sound
  requested : ∃ earlier, c.past =
    .sent c.connections (.ok ()) (Frame.wire ⟨c.client.transaction, unit, pdu⟩) :: earlier

theorem Settled.send (h : c.Settled) (peer : Peer) (unit : UInt8) (pdu : Bytes) :
    (∃ after, peer.send unit pdu c = (.ok (), after) ∧ after.Waiting unit pdu) ∨
    ∃ cause after, peer.send unit pdu c = (.error (.transport cause), after) ∧ after.Settled := by
  have hopen : ∀ stream, (peer.act c).client.connection = some stream → c.client.isConnected := by
    intro stream hstream
    rw [← act_isConnected peer c, Client.isConnected, hstream]
    rfl
  obtain ⟨stream, stream', hstream, hsent⟩ | ⟨cause, written, hfailed, hfront, hrefused⟩ :=
    (peer.act c).client.send_cases unit pdu
  · have hfollows : c.Follows (.sent c.connections (.ok ())
        (Frame.wire ⟨c.client.transaction, unit, pdu⟩)) :=
      .sent unit pdu List.prefix_rfl (fun _ => rfl) (fun _ => hopen stream hstream) h.next
    refine .inl ⟨⟨{ (peer.act c).client with connection := some stream' }, c.connections, _⟩, ?_,
      h.sound.note hfollows (Nat.le_refl _) h.sound.counted, c.past, rfl⟩
    rw [Peer.send, hsent]
    rfl
  · have hfollows : c.Follows (.sent c.connections (.error (.transport cause)) written) := by
      refine .sent unit pdu hfront (fun hok => ?_) (fun hwritten => ?_) h.next
      · cases hok
      · cases hstream : (peer.act c).client.connection with
        | none => exact absurd (hrefused hstream).2 hwritten
        | some stream => exact hopen stream hstream
    refine .inr ⟨cause, ⟨(peer.act c).client.close, c.connections, _⟩, ?_,
      h.sound.note hfollows (Nat.le_refl _) h.sound.counted,
      fun hopen => absurd hopen Bool.false_ne_true⟩
    rw [Peer.send, hfailed]

section Waiting

variable {unit : UInt8} {request : Bytes}

theorem Waiting.taken (h : c.Waiting unit request) (peer : Peer) {pdu : Bytes}
    (hpdu : (peer.receive unit c).1 = .ok pdu) : Taken (peer.incoming c) pdu c.past := by
  obtain ⟨-, earlier, hpast⟩ := h
  rw [hpast]
  exact .intro (Client.startsWith_of_receive hpdu)

/-- Waiting for a response makes the client's transaction one more than that of the request. -/
theorem Waiting.settled (h : c.Waiting unit request) (peer : Peer) :
    (peer.receive unit c).2.Settled := by
  have htransaction : (peer.receive unit c).2.client.transaction = c.client.transaction + 1 :=
    (peer.act c).client.receive_transaction unit
  constructor
  · have hcounted : (peer.receive unit c).2.client.transaction =
        (receives (.received (peer.incoming c) (peer.receive unit c).1 :: c.past)).toUInt16 := by
      rw [htransaction, receives_received, h.sound.counted]
      exact (UInt16.ofNat_add _ 1).symm
    exact h.sound.note (.received fun _ => h.taken peer) (Nat.le_refl _) hcounted
  · intro _ id hid
    obtain ⟨-, earlier, hpast⟩ := h
    have hhead : (ids c.connections c.past).head? = some id := hid
    rw [hpast, ids_wire] at hhead
    obtain rfl : c.client.transaction = id := Option.some.inj hhead
    exact htransaction

theorem Waiting.exchanged (h : c.Waiting unit request) (peer : Peer) :
    Exchanged unit request (peer.receive unit c).1 (peer.receive unit c).2.past := by
  obtain ⟨-, earlier, hpast⟩ := h
  have hreceived : (peer.receive unit c).2.past =
      .received (peer.incoming c) (peer.receive unit c).1 :: c.past := rfl
  rw [hreceived, hpast]
  obtain ⟨hkeeps, -⟩ | ⟨⟨cause, hfailed⟩, -⟩ := (peer.act c).client.receive_cases unit
  · have hkeeps : Client.KeepsOpen (peer.receive unit c).1 := hkeeps
    cases houtcome : (peer.receive unit c).1 with
    | ok pdu => exact .response
    | error error =>
      rw [houtcome] at hkeeps
      cases hkeeps
      exact .mismatch
  · have houtcome : (peer.receive unit c).1 = .error (.transport cause) := hfailed
    rw [houtcome]
    exact .failure cause _

end Waiting

/-- An exchange leaves the conversation settled, and gives back what was received behind its
request. -/
theorem Settled.exchange (h : c.Settled) (peer : Peer) (unit : UInt8) (request : Bytes) :
    let exchanged := (peer.transport.exchange unit request).run.run c
    exchanged.2.Settled ∧ Exchanged unit request exchanged.1 exchanged.2.past := by
  have hsend : (peer.transport.send unit request).run.run c = peer.send unit request c := rfl
  rw [peer.transport.exchange_run, hsend]
  obtain ⟨waiting, hsent, hwaiting⟩ | ⟨cause, after, hsent, hafter⟩ := h.send peer unit request
  · rw [hsent]
    exact ⟨hwaiting.settled peer, hwaiting.exchanged peer⟩
  · rw [hsent]
    exact ⟨hafter, .failure cause _⟩

/-- A note of what an operation gave back changes nothing for the requests. -/
theorem Settled.performed (h : c.Settled) {operation : Operation}
    {outcome : Except Error Answer} (hconcluded : Concluded operation outcome c.past) :
    Settled { c with past := .performed operation outcome :: c.past } where
  sound := h.sound.note (.performed hconcluded) (Nat.le_refl _) h.sound.counted
  next := h.next

theorem Settled.perform (h : c.Settled) (peer : Peer) (operation : Operation) :
    (peer.step c (.perform operation)).Settled := by
  cases hrefusal : operation.refusal with
  | some cause =>
    rw [Peer.step, Operation.perform_refused peer.transport hrefusal]
    exact h.performed (.inl ⟨cause, rfl⟩)
  | none =>
    have hadmissible : operation.Admissible := Operation.admissible_iff.mpr hrefusal
    obtain ⟨hsettled, hexchanged⟩ := h.exchange peer operation.unit operation.request.pdu
    rw [Peer.step, Operation.perform_run peer.transport hadmissible]
    exact hsettled.performed (.inr ⟨_, hexchanged, rfl⟩)

theorem Settled.step (h : c.Settled) (peer : Peer) (task : Task) : (peer.step c task).Settled := by
  cases task with
  | connect => exact h.connect
  | close => exact h.close
  | perform operation => exact h.perform peer operation

theorem Settled.run {peer : Peer} (h : c.Settled) (tasks : List Task) :
    (tasks.foldl peer.step c).Settled := by
  induction tasks generalizing c with
  | nil => exact h
  | cons task tasks ih => exact ih (h.step peer task)

theorem settled_run (peer : Peer) (timeout : Nat) (tasks : List Task) :
    (peer.run timeout tasks).Settled := by
  have hsound : Sound { client := { timeout } } :=
    ⟨rfl, by simp, fun _ => .nil, fun _ _ => rfl, by simp, by simp⟩
  exact Settled.run ⟨hsound, nofun⟩ tasks

theorem ids_suffix {past before : List Note} (h : before <:+ past) (connection : Nat) :
    ∃ newer, ids connection past = newer ++ ids connection before := by
  obtain ⟨later, rfl⟩ := h
  exact ⟨ids connection later, List.filterMap_append⟩

end Conversation

open Conversation

/-- Whatever is done and whatever the peer does, a request is numbered by the responses waited for
before it, and the requests on a connection have consecutive numbers. So among up to 65536 of them
no number comes twice, and no PDU is taken from a frame with the number of another one. -/
theorem run_ids (peer : Peer) (timeout : Nat) (tasks : List Task) :
    let past := (peer.run timeout tasks).past
    (∀ connection outcome written before, .sent connection outcome written :: before <:+ past →
      ∃ unit pdu, written <+: Frame.wire ⟨(receives before).toUInt16, unit, pdu⟩ ∧
        (outcome = .ok () → written = Frame.wire ⟨(receives before).toUInt16, unit, pdu⟩)) ∧
    (∀ connection, (ids connection past).IsChain fun later earlier => later = earlier + 1) ∧
    (∀ connection window, window <:+: ids connection past → window.length ≤ 65536 →
      window.Nodup) ∧
    (∀ operation outcome before, .performed operation outcome :: before <:+ past →
      Concluded operation outcome before) ∧
    ∀ incoming pdu before, .received incoming (.ok pdu) :: before <:+ past →
      ∃ connection transaction unit request earlier later,
        before = .sent connection (.ok ()) (Frame.wire ⟨transaction, unit, request⟩) :: earlier ∧
        StartsWith incoming (Frame.wire ⟨transaction, unit, pdu⟩) ∧
        ids connection past = later ++ transaction :: ids connection earlier ∧
        ∀ next previous, next <:+ later → previous <+: ids connection earlier →
          next.length + previous.length < 65536 → transaction ∉ next ∧ transaction ∉ previous := by
  intro past
  have hsound : (peer.run timeout tasks).Sound := (settled_run peer timeout tasks).sound
  have hnodup : ∀ connection window, window <:+: ids connection past → window.length ≤ 65536 →
      window.Nodup := by
    rintro connection window ⟨before, after, hwindow⟩ hlen
    have hchain := hsound.consecutive connection
    rw [← hwindow] at hchain
    exact nodup_of_chain hchain.left_of_append.right_of_append hlen
  refine ⟨hsound.headed, hsound.consecutive, hnodup, hsound.concluded, ?_⟩
  intro incoming pdu before hbefore
  obtain @⟨connection, transaction, unit, request, earlier, hfront⟩ :=
    hsound.taken incoming pdu before hbefore
  obtain ⟨later, hlater⟩ := ids_suffix hbefore connection
  have hids : ids connection past = later ++ transaction :: ids connection earlier := by
    rw [hlater]
    exact congrArg (later ++ ·) (ids_wire connection (.ok ()) _ earlier)
  refine ⟨connection, transaction, unit, request, earlier, later, rfl, hfront, hids, ?_⟩
  rintro next previous ⟨first, hnext⟩ ⟨last, hprevious⟩ hlen
  have hwindow : next ++ transaction :: previous <:+: ids connection past := by
    rw [hids, ← hnext, ← hprevious]
    exact ⟨first, last, by simp⟩
  have hlength : (next ++ transaction :: previous).length ≤ 65536 := by
    rw [List.length_append, List.length_cons]
    omega
  obtain ⟨-, hrest, hapart⟩ := List.nodup_append.mp (hnodup connection _ hwindow hlength)
  exact ⟨fun hmem => hapart _ hmem _ List.mem_cons_self rfl, (List.nodup_cons.mp hrest).1⟩

/-- A peer that gives requests back, which is the response to a write of a single register. Of the
second request on the first connection it takes three bytes only. -/
def Peer.echo : Peer where
  opening _ := .after 0
  events
    | .sent _ _ written :: _ => [.feed [⟨1, .data written⟩]]
    | past => if ids 1 past = [0] then [.accept { turns := [.takes 3, .stalls] }] else []

theorem run_ids_cut_short :
    let tasks : List Task := [.connect, .perform (.writeHoldingRegisters 1 5 [7]),
      .perform (.writeHoldingRegisters 1 6 [8]), .connect,
      .perform (.writeHoldingRegisters 1 6 [8])]
    let past := (Peer.echo.run 10 tasks).past
    receives past = 2 ∧ ids 1 past = [1, 0] ∧ (ids 1 past).Nodup ∧ ids 2 past = [1] ∧
    past.head? = some (.performed (.writeHoldingRegisters 1 6 [8]) (.ok .done)) ∧
    Concluded (.writeHoldingRegisters 1 6 [8]) (.ok .done) past.tail := by
  intro tasks past
  obtain ⟨-, -, hnodup, hconcluded, -⟩ := run_ids Peer.echo 10 tasks
  have hids : ids 1 past = [1, 0] := by decide +kernel
  have hdistinct := hnodup 1 _ (List.infix_refl _) (by rw [hids]; decide)
  have hhead : past.head? =
      some (.performed (.writeHoldingRegisters 1 6 [8]) (.ok .done)) := by decide +kernel
  obtain ⟨before, hbefore⟩ := List.head?_eq_some_iff.mp hhead
  have hlast := hconcluded _ _ before ⟨[], hbefore.symm⟩
  refine ⟨by decide +kernel, hids, hdistinct, by decide +kernel, hhead, ?_⟩
  rw [hbefore]
  exact hlast

end Modbus.Tcp
