import Modbus.Proofs.SerialLink

/-! Stale bytes on a serial line. Responses carry no number, so a response that
comes too late would be taken for the answer to the next request, were it not
thrown away before that request is sent. From then on two ports are the same
whose lines held different data, and so are their runs. What a port has read
behind a response is not kept either. -/

namespace Modbus

theorem Brings.drain_append {now : Nat} {ready : List Arrival} {bytes : Bytes}
    (h : Brings now ready bytes) (rest : List Arrival) :
    Stream.drain now (ready ++ rest) = Stream.drain now rest := by
  induction h with
  | nil => rfl
  | cons hdue hqueue ih =>
    rw [List.cons_append, Stream.drain, if_neg (Nat.not_lt.mpr hdue)]
    exact ih

theorem Brings.shift {deadline : Nat} {queue : List Arrival} {bytes : Bytes}
    (h : Brings deadline queue bytes) (now : Nat) :
    Brings (now + deadline) (queue.map fun a => ⟨now + a.due, a.read⟩) bytes := by
  induction h with
  | nil => exact .nil
  | cons hdue hqueue ih => exact .cons (Nat.add_le_add_left hdue now) ih

/-- Waiting for an answer that comes uses up some reads, and takes as long as the last of them. -/
theorem Stream.await_used {α : Type} {decode : Bytes → Except ProtocolError (Option α)}
    {deadline now : Nat} {received : Bytes} {queue : List Arrival} {answer : α}
    (h : (await decode deadline now received queue).outcome = .ok answer) :
    ∃ used, queue = used ++ (await decode deadline now received queue).left ∧
      (await decode deadline now received queue).now = (used.map Arrival.due).foldl max now := by
  fun_induction await decode deadline now received queue with
  | case1 | case2 | case3 | case4 | case5 => cases h
  | case6 now received arrival rest hdue later bytes hread answer hfound =>
    exact ⟨[arrival], rfl, rfl⟩
  | case7 now received arrival rest hdue later bytes hread hnone ih =>
    obtain ⟨used, hqueue, hnow⟩ := ih h
    exact ⟨arrival :: used, congrArg (arrival :: ·) hqueue, hnow⟩

namespace Serial.Port

def run : List Action → Port → List Report × Port
  | [], port => ([], port)
  | action :: rest, port =>
    let (report, port) := port.act action
    let (reports, port) := run rest port
    (report :: reports, port)

/-- Two ports that differ in nothing but data that can be read by now. -/
inductive UpToStale : Port → Port → Prop where
  | same (port : Port) : UpToStale port port
  | stale {timing : Timing} {now : Nat} {acceptance : Acceptance}
    {ready ready' incoming : List Arrival} {bytes bytes' : Bytes}
    (hready : Brings now ready bytes) (hready' : Brings now ready' bytes') :
    UpToStale ⟨timing, some ⟨now, ready ++ incoming, acceptance⟩⟩
      ⟨timing, some ⟨now, ready' ++ incoming, acceptance⟩⟩

variable {one other : Port}

theorem UpToStale.send (h : UpToStale one other) (unit : UInt8) (pdu : Bytes) :
    one.send unit pdu = other.send unit pdu := by
  cases h with
  | same => rfl
  | stale hready hready' =>
    simp only [Port.send, Stream.transmit, hready.drain_append, hready'.drain_append]
    rfl

/-- A step that waits for no response is reported alike, and tells the two ports apart no more. -/
theorem UpToStale.act (h : UpToStale one other) {action : Action}
    (haction : ∀ unit, action ≠ .receive unit) :
    (one.act action).1 = (other.act action).1 ∧
      UpToStale (one.act action).2 (other.act action).2 := by
  cases action with
  | connect opening =>
    cases h with
    | same => exact ⟨rfl, .same _⟩
    | stale hready hready' =>
      cases opening with
      | fails fault => exact ⟨rfl, .same _⟩
      | after delay =>
        simp only [Port.act, connect]
        split
        · exact ⟨rfl, .same _⟩
        · exact ⟨rfl, .same _⟩
  | send unit pdu =>
    simp only [Port.act, h.send unit pdu, true_and]
    exact .same _
  | receive unit => exact absurd rfl (haction unit)
  | close =>
    cases h with
    | same => exact ⟨rfl, .same _⟩
    | stale hready hready' => exact ⟨rfl, .same _⟩
  | event event =>
    cases h with
    | same => exact ⟨rfl, .same _⟩
    | stale hready hready' =>
      refine ⟨rfl, ?_⟩
      cases event with
      | feed arrivals =>
        simp only [Port.act, Option.map_some, Stream.happen, Stream.feed, List.append_assoc]
        exact .stale hready hready'
      | pass time =>
        exact .stale (hready.mono (Nat.le_add_right _ _)) (hready'.mono (Nat.le_add_right _ _))
      | accept acceptance => exact .stale hready hready'

theorem UpToStale.run (h : UpToStale one other) {before : List Action}
    (hbefore : ∀ unit, .receive unit ∉ before) (unit : UInt8) (pdu : Bytes)
    (later : List Action) :
    run (before ++ .send unit pdu :: later) one =
      run (before ++ .send unit pdu :: later) other := by
  induction before generalizing one other with
  | nil =>
    have hsame : one.act (.send unit pdu) = other.act (.send unit pdu) := by
      simp only [Port.act, h.send unit pdu]
    simp only [List.nil_append, Port.run, hsame]
  | cons action before ih =>
    have haction : ∀ unit, action ≠ .receive unit := by
      rintro unit rfl
      exact hbefore unit List.mem_cons_self
    obtain ⟨hreport, hports⟩ := h.act haction
    have hrest := ih hports fun unit hmem => hbefore unit (List.mem_cons_of_mem _ hmem)
    simp only [List.cons_append, Port.run, hreport, hrest]

theorem run_append (first second : List Action) (port : Port) :
    run (first ++ second) port =
      ((run first port).1 ++ (run second (run first port).2).1,
        (run second (run first port).2).2) := by
  induction first generalizing port with
  | nil => rfl
  | cons action first ih => simp only [List.cons_append, Port.run, ih]

/-- Reads that come too late for the response that was waited for, but are there when the next
request is sent, are as good as any others. -/
theorem upToStale_late {port : Port} {line : Stream} (hline : port.line = some line)
    {late late' : List Arrival} {wait : Nat} {left bytes bytes' : Bytes}
    (hleft : Brings (line.now + wait) line.incoming left) (hlate : Brings wait late bytes)
    (hlate' : Brings wait late' bytes') :
    UpToStale (Port.run [.event (.feed late), .event (.pass wait)] port).2
      (Port.run [.event (.feed late'), .event (.pass wait)] port).2 := by
  have hready := hleft.append (hlate.shift line.now)
  have hready' := hleft.append (hlate'.shift line.now)
  have hstale : UpToStale ⟨port.timing, some ⟨line.now + wait, _ ++ [], line.acceptance⟩⟩
      ⟨port.timing, some ⟨line.now + wait, _ ++ [], line.acceptance⟩⟩ := .stale hready hready'
  simp only [List.append_nil] at hstale
  simpa only [Port.run, Port.act, hline, Option.map_some, Stream.happen, Stream.feed] using hstale

theorem run_late {port : Port} {line : Stream} (hline : port.line = some line)
    {late late' : List Arrival} {wait : Nat} {left bytes bytes' : Bytes}
    (hleft : Brings (line.now + wait) line.incoming left) (hlate : Brings wait late bytes)
    (hlate' : Brings wait late' bytes') (unit : UInt8) (pdu : Bytes) (later : List Action) :
    run (.event (.feed late) :: .event (.pass wait) :: .send unit pdu :: later) port =
      run (.event (.feed late') :: .event (.pass wait) :: .send unit pdu :: later) port := by
  have hstale := upToStale_late hline hleft hlate hlate'
  have hruns := hstale.run (fun _ => List.not_mem_nil) unit pdu later
  change run ([.event (.feed late), .event (.pass wait)] ++ .send unit pdu :: later) port =
    run ([.event (.feed late'), .event (.pass wait)] ++ .send unit pdu :: later) port
  rw [List.nil_append] at hruns
  rw [run_append, run_append, hruns]
  rfl

/-- A port that has received a response keeps nothing of the reads that brought it. -/
theorem receive_eq_ok {port after : Port} {line : Stream} (hline : port.line = some line)
    {unit : UInt8} {pdu : Bytes} (h : port.receive unit = (.ok pdu, after)) :
    ∃ used left, line.incoming = used ++ left ∧ after = { port with line := some { line with
      now := (used.map Arrival.due).foldl max line.now
      incoming := left } } := by
  simp only [Port.receive, hline] at h
  split at h
  · cases h
  · cases h
  · obtain ⟨houtcome, rfl⟩ := Prod.mk.inj h
    obtain ⟨used, hqueue, hnow⟩ := Stream.await_used houtcome
    exact ⟨used, _, hqueue, by rw [hnow]⟩

/-- Only a line that is open is waited on in vain, and it stays open. -/
theorem receive_timeout {port after : Port} {unit : UInt8}
    (h : port.receive unit = (.error (.transport .timeout), after)) :
    ∃ line, after.line = some line := by
  cases hline : port.line with
  | none =>
    simp only [Port.receive, hline] at h
    cases h
  | some line =>
    simp only [Port.receive, hline] at h
    split at h
    · obtain ⟨-, rfl⟩ := Prod.mk.inj h
      exact ⟨_, rfl⟩
    · next hother _ =>
      obtain ⟨hcause, -⟩ := Prod.mk.inj h
      exact absurd (Error.transport.inj (Except.error.inj hcause)) hother
    · obtain ⟨-, rfl⟩ := Prod.mk.inj h
      exact ⟨_, rfl⟩

/-- Stale bytes never reach a later response. Two ports that differ in nothing but the data that
can be read by now do the same from the next request on, with the same reports, and end in the same
state. So a response that was waited for in vain makes no difference if it is there when the next
request is sent, whatever it brings. Nor does it make a difference what is read behind a response
that is received: all that a port keeps is what it has not read. -/
theorem run_ignores_stale :
    (∀ one other : Port, UpToStale one other →
      ∀ before : List Action, (∀ unit, .receive unit ∉ before) →
      ∀ (unit : UInt8) (pdu : Bytes) (later : List Action),
        run (before ++ .send unit pdu :: later) one =
          run (before ++ .send unit pdu :: later) other) ∧
    (∀ (port waited : Port) (asked : UInt8),
      port.receive asked = (.error (.transport .timeout), waited) →
      ∃ line, waited.line = some line ∧
        ∀ (wait : Nat) (late late' : List Arrival) (left bytes bytes' : Bytes),
          Brings (line.now + wait) line.incoming left → Brings wait late bytes →
          Brings wait late' bytes' →
          ∀ (unit : UInt8) (pdu : Bytes) (later : List Action),
            run (.receive asked :: .event (.feed late) :: .event (.pass wait) ::
                .send unit pdu :: later) port =
              run (.receive asked :: .event (.feed late') :: .event (.pass wait) ::
                .send unit pdu :: later) port) ∧
    (∀ (timing : Timing) (now : Nat) (acceptance : Acceptance) (reads reads' rest : List Arrival)
      (after after' : Port) (unit : UInt8) (pdu pdu' : Bytes),
      reads.map Arrival.due = reads'.map Arrival.due →
      receive unit ⟨timing, some ⟨now, reads ++ rest, acceptance⟩⟩ = (.ok pdu, after) →
      receive unit ⟨timing, some ⟨now, reads' ++ rest, acceptance⟩⟩ = (.ok pdu', after') →
      after.line.map Stream.incoming = some rest → after'.line.map Stream.incoming = some rest →
      after = after') := by
  refine ⟨fun one other h before hbefore => h.run hbefore, ?_, ?_⟩
  · intro port waited asked h
    obtain ⟨line, hline⟩ := receive_timeout h
    refine ⟨line, hline, ?_⟩
    intro wait late late' left bytes bytes' hleft hlate hlate' unit pdu later
    have hwaited : (Port.run [.receive asked] port).2 = waited := by
      simp only [Port.run, Port.act, h]
    have hlater := run_late hline hleft hlate hlate' unit pdu later
    change run ([.receive asked] ++ _) port = run ([.receive asked] ++ _) port
    rw [run_append, run_append, hwaited, hlater]
  · intro timing now acceptance reads reads' rest after after' unit pdu pdu' hdue h h' hrest hrest'
    obtain ⟨used, left, hused, rfl⟩ := receive_eq_ok rfl h
    obtain ⟨used', left', hused', rfl⟩ := receive_eq_ok rfl h'
    obtain rfl : left = rest := Option.some.inj hrest
    obtain rfl : left' = left := Option.some.inj hrest'
    obtain rfl : reads = used := List.append_cancel_right hused
    obtain rfl : reads' = used' := List.append_cancel_right hused'
    simp only [hdue]

def opened (incoming : List Arrival) : Port := { line := some { incoming } }

/-- A word is asked for, and its response is on its way. -/
def wordAsked : List Action :=
  [.send 0x11 [0x03, 0x00, 0x00, 0x00, 0x01],
    .event (.feed [⟨5, .data (Frame.wire ⟨0x11, [0x03, 0x02, 0x00, 0x2A]⟩)⟩]), .receive 0x11]

def received (ran : List Report × Port) : Option Bytes :=
  ran.1.getLast?.bind fun report => report.outcome.toOption.join

/-- An exception that could be read before a word was asked for, that came too late for an earlier
request, and that is read behind the word. -/
theorem run_ignores_stale_exception :
    let exception := Frame.wire ⟨0x11, [0x83, 0x02]⟩
    let word := Frame.wire ⟨0x11, [0x03, 0x02, 0x00, 0x2A]⟩
    received (run wordAsked (opened [⟨0, .data exception⟩])) = some [0x03, 0x02, 0x00, 0x2A] ∧
      received (run (.receive 0x11 :: .event (.feed [⟨40, .data exception⟩]) ::
        .event (.pass 50) :: wordAsked) (opened [])) = some [0x03, 0x02, 0x00, 0x2A] ∧
      (receive 0x11 (opened [⟨0, .data (word ++ exception)⟩])).2 =
        (receive 0x11 (opened [⟨0, .data word⟩])).2 := by
  intro exception word
  obtain ⟨hstale, hlate, hbehind⟩ := run_ignores_stale
  refine ⟨?_, ?_, ?_⟩
  · have hready : Brings 0 [⟨0, .data exception⟩] (exception ++ []) := .cons (Nat.le_refl 0) .nil
    have hports : UpToStale (opened ([⟨0, .data exception⟩] ++ [])) (opened ([] ++ [])) :=
      .stale hready .nil
    have hruns : run wordAsked (opened [⟨0, .data exception⟩]) = run wordAsked (opened []) :=
      hstale _ _ hports [] (fun _ => List.not_mem_nil) _ _ _
    rw [hruns]
    decide +kernel
  · obtain ⟨line, hline, hsame⟩ := hlate (opened []) _ 0x11 rfl
    obtain rfl := Option.some.inj hline
    have hexception : Brings 50 [⟨40, .data exception⟩] (exception ++ []) :=
      .cons (by decide) .nil
    rw [wordAsked, hsame 50 _ [] [] _ [] .nil hexception .nil]
    decide +kernel
  · have hframe : ∀ more, response 0x11 (word ++ more) = .ok (some [0x03, 0x02, 0x00, 0x2A]) := by
      intro more
      exact response_wire_append (.counted (by decide) rfl) 0x11 more
    have hreceive : ∀ more, ∃ after : Port,
        receive 0x11 (opened [⟨0, .data (word ++ more)⟩]) =
          (.ok [0x03, 0x02, 0x00, 0x2A], after) ∧ after.line.map Stream.incoming = some [] := by
      intro more
      refine ⟨opened [], ?_, rfl⟩
      simp [receive, opened, Stream.await, hframe]
    obtain ⟨after, hafter, hleft⟩ := hreceive exception
    obtain ⟨after', hafter', hleft'⟩ := hreceive []
    rw [List.append_nil word] at hafter'
    rw [hafter, hafter']
    exact hbehind {} 0 .all [⟨0, .data (word ++ exception)⟩] [⟨0, .data word⟩] [] after after'
      0x11 _ _ rfl hafter hafter' hleft hleft'

end Serial.Port

end Modbus
