import Modbus.Proofs.TcpReception
import Modbus.Proofs.Writing
import Modbus.Serial.Port

/-! When a connection is open. The two kinds of connections are closed in the
same cases, but for a response that is late, which a serial line survives. So
whether a connection is open shows in the reports of its steps, whatever the
far end does meanwhile: how it opens, what it sends and when, and in which parts
it takes what is written. What an open connection has carried is a sequence of
whole requests. -/

namespace Modbus

/-! ## Both kinds of connections -/

/-- One end of a connection, and the frames that its requests go out in. -/
structure Endpoint (τ : Type) where
  isConnected : τ → Bool
  act : τ → Action → Report × τ
  frame : τ → UInt8 → Bytes → Bytes
  /-- Whether a response that does not come in time leaves the connection open. -/
  patient : Bool

/-- The outcomes that leave a connection open. -/
inductive Survived (patient : Bool) : Except Error (Option Bytes) → Prop where
  | ok (answer : Option Bytes) : Survived patient (.ok answer)
  | protocol (cause : ProtocolError) : Survived patient (.error (.protocol cause))
  | late (h : patient = true) : Survived patient (.error (.transport .timeout))

theorem not_survived (cause : TransportError) : ¬ Survived false (.error (.transport cause)) := by
  intro h
  cases h with
  | late hpatient => cases hpatient

/-- Whether a connection is open behind a step, as its report and what was before tell. -/
def LeavesOpen (patient : Bool) (before : Prop) (report : Report) : Action → Prop
  | .connect _ => report.outcome = .ok none
  | .send .. => before ∧ Survived false report.outcome
  | .receive _ => before ∧ Survived patient report.outcome
  | .close => False
  | .event _ => before

namespace Endpoint

variable {τ : Type} {endpoint : Endpoint τ} {state after : τ} {unit : UInt8} {pdu : Bytes}

/-- What comes of sending a request: it goes out whole, or the connection is closed, and then it may
have gone out in part. -/
inductive Sent (endpoint : Endpoint τ) (state : τ) (unit : UInt8) (pdu : Bytes) :
    Except Error Unit × Bytes × τ → Prop where
  | whole {after : τ} (hbefore : endpoint.isConnected state = true)
    (hafter : endpoint.isConnected after = true) :
    Sent endpoint state unit pdu (.ok (), endpoint.frame state unit pdu, after)
  | failed {cause : TransportError} {written : Bytes} {after : τ}
    (hafter : endpoint.isConnected after = false)
    (hfront : written <+: endpoint.frame state unit pdu)
    (hrefused : endpoint.isConnected state = false → cause = .notConnected ∧ written = []) :
    Sent endpoint state unit pdu (.error (.transport cause), written, after)

/-- What a step does to a connection, and what it reports. A request goes out whole or fails, and
without a connection nothing is exchanged. -/
structure Stepped (endpoint : Endpoint τ) (state : τ) (action : Action) (report : Report)
    (after : τ) : Prop where
  connected : endpoint.isConnected after = true ↔
    LeavesOpen endpoint.patient (endpoint.isConnected state = true) report action
  sent : ∀ unit pdu, action = .send unit pdu →
    report.outcome = .ok none ∧ endpoint.isConnected state = true ∧
        report.written = endpoint.frame state unit pdu ∨
      (∃ cause, report.outcome = .error (.transport cause)) ∧
        report.written <+: endpoint.frame state unit pdu
  refused : endpoint.isConnected state = false →
    ∀ unit, action = .receive unit ∨ (∃ pdu, action = .send unit pdu) →
      report.outcome = .error (.transport .notConnected) ∧ report.written = []
  silent : (∀ unit pdu, action ≠ .send unit pdu) → report.written = []
  happened : ∀ event, action = .event event → report.outcome = .ok none

theorem Stepped.connect {opening : Opening} {outcome : Except Error Unit}
    (h : endpoint.isConnected after = true ↔ outcome = .ok ()) :
    endpoint.Stepped state (.connect opening) (.ofUnit outcome []) after := by
  refine ⟨h.trans ?_, nofun, fun _ _ => nofun, fun _ => rfl, nofun⟩
  cases outcome <;> simp [LeavesOpen, Report.ofUnit, Except.map]

theorem Sent.stepped {outcome : Except Error Unit} {written : Bytes}
    (h : endpoint.Sent state unit pdu (outcome, written, after)) :
    endpoint.Stepped state (.send unit pdu) (.ofUnit outcome written) after := by
  cases h with
  | whole hbefore hafter =>
    refine ⟨iff_of_true hafter ⟨hbefore, .ok none⟩, ?_, ?_, fun hnot => absurd rfl (hnot _ _),
      nofun⟩
    · rintro _ _ ⟨⟩
      exact .inl ⟨rfl, hbefore, rfl⟩
    · intro hstate
      exact absurd (hbefore.symm.trans hstate) nofun
  | @failed cause _ _ hafter hfront hrefused =>
    refine ⟨iff_of_false (hafter ▸ Bool.false_ne_true) ?_, ?_, ?_,
      fun hnot => absurd rfl (hnot _ _), nofun⟩
    · rintro ⟨-, hsurvived⟩
      exact not_survived cause hsurvived
    · rintro _ _ ⟨⟩
      exact .inr ⟨⟨cause, rfl⟩, hfront⟩
    · intro hstate _ _
      obtain ⟨rfl, rfl⟩ := hrefused hstate
      exact ⟨rfl, rfl⟩

theorem Stepped.receive {outcome : Except Error Bytes}
    (h : endpoint.isConnected after = true ↔
      endpoint.isConnected state = true ∧ Survived endpoint.patient (outcome.map some))
    (hclosed : endpoint.isConnected state = false → outcome = .error (.transport .notConnected)) :
    endpoint.Stepped state (.receive unit) { outcome := outcome.map some } after := by
  refine ⟨h, nofun, ?_, fun _ => rfl, nofun⟩
  intro hstate _ _
  simp only [hclosed hstate, Except.map, and_self]

theorem Stepped.close (h : endpoint.isConnected after = false) :
    endpoint.Stepped state .close (.ofUnit (.ok ()) []) after := by
  refine ⟨?_, nofun, fun _ _ => nofun, fun _ => rfl, nofun⟩
  simp [h, LeavesOpen]

theorem Stepped.event {event : Event}
    (h : endpoint.isConnected after = endpoint.isConnected state) :
    endpoint.Stepped state (.event event) (.ofUnit (.ok ()) []) after := by
  refine ⟨?_, nofun, fun _ _ => nofun, fun _ => rfl, fun _ _ => rfl⟩
  simp [h, LeavesOpen]

/-- The one failure of a connection that leaves it open is a response that does not come in time,
where that is waited out. -/
theorem Stepped.late {action : Action} {report : Report}
    (h : endpoint.Stepped state action report after) {cause : TransportError}
    (hfailed : report.outcome = .error (.transport cause))
    (hopen : endpoint.isConnected after = true) :
    endpoint.patient = true ∧ cause = .timeout ∧ ∃ unit, action = .receive unit := by
  have hleaves := h.connected.mp hopen
  cases action with
  | connect opening => exact absurd (hfailed.symm.trans hleaves) nofun
  | send unit pdu =>
    have hsurvived := hleaves.2
    rw [hfailed] at hsurvived
    exact absurd hsurvived (not_survived cause)
  | receive unit =>
    have hsurvived := hleaves.2
    rw [hfailed] at hsurvived
    cases hsurvived with
    | late hpatient => exact ⟨hpatient, rfl, unit, rfl⟩
  | close => exact hleaves.elim
  | event event => exact absurd (hfailed.symm.trans (h.happened event rfl)) nofun

/-! ## Runs -/

/-- A step that was taken, and its report. -/
structure Entry where
  action : Action
  report : Report

/-- Takes one step more. The log of a run begins with the latest step. -/
def extend (endpoint : Endpoint τ) (run : List Entry × τ) (action : Action) : List Entry × τ :=
  let (report, after) := endpoint.act run.2 action
  (⟨action, report⟩ :: run.1, after)

def run (endpoint : Endpoint τ) (state : τ) (actions : List Action) : List Entry × τ :=
  actions.foldl endpoint.extend ([], state)

/-- Whether a connection is open behind the steps of a log, as their reports and the start tell. -/
def Open (patient : Bool) (start : Prop) : List Entry → Prop
  | [] => start
  | entry :: earlier => LeavesOpen patient (Open patient start earlier) entry.report entry.action

/-- The requests since the last connect. -/
def requests : List Entry → List (UInt8 × Bytes)
  | [] => []
  | ⟨.connect _, _⟩ :: _ => []
  | ⟨.send unit pdu, _⟩ :: earlier => requests earlier ++ [(unit, pdu)]
  | _ :: earlier => requests earlier

/-- What has been written since the last connect. -/
def written : List Entry → Bytes
  | [] => []
  | ⟨.connect _, _⟩ :: _ => []
  | ⟨_, report⟩ :: earlier => written earlier ++ report.written

/-- One frame after the other, one for each request. -/
inductive Framed (endpoint : Endpoint τ) : List (UInt8 × Bytes) → Bytes → Prop where
  | nil : Framed endpoint [] []
  | concat {requests : List (UInt8 × Bytes)} {bytes : Bytes} (h : Framed endpoint requests bytes)
    (state : τ) (unit : UInt8) (pdu : Bytes) :
    Framed endpoint (requests ++ [(unit, pdu)]) (bytes ++ endpoint.frame state unit pdu)

/-- What is kept in the course of a run: the log tells whether a connection is open, and one that is
open has carried nothing but whole requests since it was opened. -/
structure Logged (endpoint : Endpoint τ) (start : Prop) (log : List Entry) (state : τ) : Prop where
  connected : endpoint.isConnected state = true ↔ Open endpoint.patient start log
  framed : endpoint.isConnected state = true → Framed endpoint (requests log) (written log)

/-- An endpoint each of whose steps does what a step may do, in whatever state it is taken. -/
def Lawful (endpoint : Endpoint τ) : Prop :=
  ∀ state action, endpoint.Stepped state action (endpoint.act state action).1
    (endpoint.act state action).2

theorem Logged.extend (h : endpoint.Lawful) {start : Prop} {log : List Entry}
    (hlogged : endpoint.Logged start log state) (action : Action) :
    endpoint.Logged start (endpoint.extend (log, state) action).1
      (endpoint.extend (log, state) action).2 := by
  have hstepped := h state action
  have hsilent : (∀ unit pdu, action ≠ .send unit pdu) →
      written log ++ (endpoint.act state action).1.written = written log := by
    intro hother
    rw [hstepped.silent hother, List.append_nil]
  constructor
  · refine hstepped.connected.trans ?_
    rw [hlogged.connected]
    rfl
  · intro hopen
    have hleaves := hstepped.connected.mp hopen
    cases action with
    | connect opening => exact .nil
    | send unit pdu =>
      obtain ⟨hbefore, hsurvived⟩ := hleaves
      obtain ⟨-, -, hwritten⟩ | ⟨⟨cause, hfailed⟩, -⟩ := hstepped.sent unit pdu rfl
      · have hframed := (hlogged.framed hbefore).concat state unit pdu
        rw [← hwritten] at hframed
        exact hframed
      · rw [hfailed] at hsurvived
        exact absurd hsurvived (not_survived cause)
    | receive unit =>
      have hframed := hlogged.framed hleaves.1
      rw [← hsilent nofun] at hframed
      exact hframed
    | close => exact hleaves.elim
    | event event =>
      have hframed := hlogged.framed hleaves
      rw [← hsilent nofun] at hframed
      exact hframed

theorem Logged.foldl (h : endpoint.Lawful) {start : Prop} {log : List Entry}
    (hlogged : endpoint.Logged start log state) (actions : List Action) :
    endpoint.Logged start (actions.foldl endpoint.extend (log, state)).1
      (actions.foldl endpoint.extend (log, state)).2 := by
  induction actions generalizing log state with
  | nil => exact hlogged
  | cons action actions ih => exact ih (hlogged.extend h action)

/-- A connection behaves if each step of it does, in whatever state, and each run of it, with what
was open at its start. -/
structure Behaves (endpoint : Endpoint τ) : Prop where
  step : ∀ state action, endpoint.Stepped state action (endpoint.act state action).1
    (endpoint.act state action).2
  late : ∀ state action cause,
    (endpoint.act state action).1.outcome = .error (.transport cause) →
    endpoint.isConnected (endpoint.act state action).2 = true →
    endpoint.patient = true ∧ cause = .timeout ∧ ∃ unit, action = .receive unit
  run : ∀ state actions, endpoint.Logged (endpoint.isConnected state = true)
    (endpoint.run state actions).1 (endpoint.run state actions).2

theorem Lawful.behaves (h : endpoint.Lawful) : endpoint.Behaves where
  step := h
  late state action _ hfailed hopen := (h state action).late hfailed hopen
  run _ actions := Logged.foldl h ⟨Iff.rfl, fun _ => .nil⟩ actions

end Endpoint

/-! ## The two kinds -/

namespace Tcp.Client

def endpoint : Endpoint Client where
  isConnected := isConnected
  act := act
  frame client unit pdu := Frame.wire ⟨client.transaction, unit, pdu⟩
  patient := false

theorem connect_iff (client : Client) (opening : Opening) :
    (client.connect opening).2.isConnected = true ↔ (client.connect opening).1 = .ok () := by
  cases opening with
  | fails fault => simp [connect, close, isConnected]
  | after delay =>
    simp only [connect]
    split <;> simp [close, isConnected]

/-- A request goes out whole on an open connection, or sending fails and closes the connection, on
which the request may have gone out in part. -/
theorem send_cases (client : Client) (unit : UInt8) (pdu : Bytes) :
    (∃ stream stream', client.connection = some stream ∧ client.send unit pdu =
      (.ok (), Frame.wire ⟨client.transaction, unit, pdu⟩,
        { client with connection := some stream' })) ∨
    ∃ cause written, client.send unit pdu = (.error (.transport cause), written, client.close) ∧
      written <+: Frame.wire ⟨client.transaction, unit, pdu⟩ ∧
      (client.connection = none → cause = .notConnected ∧ written = []) := by
  cases hstream : client.connection with
  | none =>
    have hclosed : client.close = client := by rw [close, ← hstream]
    refine .inr ⟨.notConnected, [], ?_, List.nil_prefix, fun _ => ⟨rfl, rfl⟩⟩
    simp only [send, hstream, hclosed]
  | some stream =>
    obtain ⟨left, hsent⟩ | ⟨written, cause, hfailed, hfront⟩ := stream.transmit_cases
      Acceptance.writes_writeAll (Frame.wire ⟨client.transaction, unit, pdu⟩)
    · refine .inl ⟨stream, { stream with incoming := left }, rfl, ?_⟩
      simp only [send, hstream, hsent]
    · refine .inr ⟨cause, written, ?_, hfront, fun hclosed => ?_⟩
      · simp only [send, hstream, hfailed]
      · cases hclosed

theorem sent (client : Client) (unit : UInt8) (pdu : Bytes) :
    endpoint.Sent client unit pdu (client.send unit pdu) := by
  obtain ⟨stream, stream', hstream, hsent⟩ | ⟨cause, written, hfailed, hfront, hrefused⟩ :=
    client.send_cases unit pdu
  · rw [hsent]
    exact .whole (congrArg Option.isSome hstream) rfl
  · rw [hfailed]
    exact .failed rfl hfront fun hclosed => hrefused (Option.not_isSome_iff_eq_none.mp
      (ne_true_of_eq_false hclosed))

theorem receive_closed {client : Client} (h : client.isConnected = false) (unit : UInt8) :
    (client.receive unit).1 = .error (.transport .notConnected) := by
  have hconnection : client.connection = none :=
    Option.not_isSome_iff_eq_none.mp (ne_true_of_eq_false h)
  simp only [receive, hconnection]

theorem KeepsOpen.survived {outcome : Except Error Bytes} (h : KeepsOpen outcome)
    (patient : Bool) : Survived patient (outcome.map some) := by
  cases h with
  | ok pdu => exact .ok (some pdu)
  | protocol cause => exact .protocol cause

theorem receive_iff (client : Client) (unit : UInt8) :
    (client.receive unit).2.isConnected = true ↔
      client.isConnected = true ∧ Survived false ((client.receive unit).1.map some) := by
  obtain ⟨hkeeps, hopen⟩ | ⟨⟨cause, hfailed⟩, hclosed⟩ := client.receive_cases unit
  · have hconnected : client.isConnected = true := by
      refine eq_true_of_ne_false fun hnot => ?_
      rw [receive_closed hnot] at hkeeps
      exact not_keepsOpen _ hkeeps
    exact iff_of_true hopen ⟨hconnected, hkeeps.survived _⟩
  · refine iff_of_false hclosed ?_
    rintro ⟨-, hsurvived⟩
    rw [hfailed] at hsurvived
    exact not_survived cause hsurvived

theorem lawful : endpoint.Lawful := by
  intro client action
  cases action with
  | connect opening => exact .connect (client.connect_iff opening)
  | send unit pdu => exact (client.sent unit pdu).stepped
  | receive unit => exact .receive (client.receive_iff unit) fun h => receive_closed h unit
  | close => exact .close rfl
  | event event => exact .event Option.isSome_map

end Tcp.Client

namespace Serial.Port

def endpoint : Endpoint Port where
  isConnected := isConnected
  act := act
  frame _ unit pdu := Frame.wire ⟨unit, pdu⟩
  patient := true

theorem connect_iff (port : Port) (opening : Opening) :
    (port.connect opening).2.isConnected = true ↔ (port.connect opening).1 = .ok () := by
  cases opening with
  | fails fault => simp [connect, close, isConnected]
  | after delay =>
    simp only [connect]
    split <;> simp [close, isConnected]

theorem sent (port : Port) (unit : UInt8) (pdu : Bytes) :
    endpoint.Sent port unit pdu (port.send unit pdu) := by
  cases hline : port.line with
  | none =>
    have hclosed : port.isConnected = false := congrArg Option.isSome hline
    simp only [send, hline]
    exact .failed hclosed List.nil_prefix fun _ => ⟨rfl, rfl⟩
  | some line =>
    have hopen : port.isConnected = true := congrArg Option.isSome hline
    obtain ⟨left, hsent⟩ | ⟨written, cause, hfailed, hfront⟩ :=
      line.transmit_cases Acceptance.writes_write (Frame.wire ⟨unit, pdu⟩)
    · simp only [send, hline, hsent]
      exact .whole hopen rfl
    · simp only [send, hline, hfailed]
      exact .failed rfl hfront fun hclosed => absurd (hopen.symm.trans hclosed) nofun

theorem receive_closed {port : Port} (h : port.isConnected = false) (unit : UInt8) :
    (port.receive unit).1 = .error (.transport .notConnected) := by
  have hline : port.line = none := Option.not_isSome_iff_eq_none.mp (ne_true_of_eq_false h)
  simp only [receive, hline]

/-- Of the failures of a line it only survives the one that the response is late. -/
theorem receive_iff (port : Port) (unit : UInt8) :
    (port.receive unit).2.isConnected = true ↔
      port.isConnected = true ∧ Survived true ((port.receive unit).1.map some) := by
  cases hline : port.line with
  | none =>
    simp only [isConnected, receive, hline]
    exact iff_of_false Bool.false_ne_true fun h => Bool.false_ne_true h.1
  | some line =>
    have houtcome := Stream.await_outcome (response unit) (line.now + port.timing.response)
      line.now [] line.incoming
    simp only [isConnected, receive, hline]
    generalize Stream.await (response unit) (line.now + port.timing.response) line.now []
      line.incoming = waited at houtcome
    obtain ⟨verdict, houtcome⟩ | ⟨cause, houtcome⟩ := houtcome
    · cases verdict with
      | error cause =>
        change waited.outcome = .error (.protocol cause) at houtcome
        simp only [houtcome]
        exact iff_of_true rfl ⟨rfl, .protocol cause⟩
      | ok pdu =>
        change waited.outcome = .ok pdu at houtcome
        simp only [houtcome]
        exact iff_of_true rfl ⟨rfl, .ok (some pdu)⟩
    · simp only [houtcome]
      cases cause with
      | timeout => exact iff_of_true rfl ⟨rfl, .late rfl⟩
      | notConnected | disconnected | io =>
        refine iff_of_false Bool.false_ne_true ?_
        rintro ⟨-, ⟨⟩⟩

theorem lawful : endpoint.Lawful := by
  intro port action
  cases action with
  | connect opening => exact .connect (port.connect_iff opening)
  | send unit pdu => exact (port.sent unit pdu).stepped
  | receive unit => exact .receive (port.receive_iff unit) fun h => receive_closed h unit
  | close => exact .close rfl
  | event event => exact .event Option.isSome_map

end Serial.Port

/-- Clients and ports behave as connections, whatever the far end does, and of the two only ports
wait out a late response. -/
theorem connections_behave :
    Tcp.Client.endpoint.Behaves ∧ Serial.Port.endpoint.Behaves ∧
    Tcp.Client.endpoint.patient = false ∧ Serial.Port.endpoint.patient = true :=
  ⟨Tcp.Client.lawful.behaves, Serial.Port.lawful.behaves, rfl, rfl⟩

/-- A response that is late closes the one kind of connection and not the other. -/
example :
    let actions : List Action := [.connect (.after 5), .receive 1]
    (Tcp.Client.endpoint.run {} actions).2.isConnected = false ∧
      (Serial.Port.endpoint.run {} actions).2.isConnected = true := ⟨rfl, rfl⟩

/-- A frame that is taken in part only is the last one on its connection. -/
example :
    let actions : List Action := [.connect (.after 5),
      .event (.accept { turns := [.takes 3, .stalls] }), .send 1 [3, 0, 0, 0, 1]]
    let port := Serial.Port.endpoint.run {} actions
    Endpoint.written port.1 = [1, 3, 0] ∧ port.2.isConnected = false := ⟨rfl, rfl⟩

end Modbus
