import Modbus.Proofs.SerialLink

/-! A port takes a response that tells its length for what it is, in whatever
reads it comes and whatever follows it: waiting ends with the read that brings
the last byte of the frame, and what has come behind it stays on the line. -/

namespace Modbus.Serial.Port

section Reading

variable {port : Port} {line : Stream} {unit : UInt8} {pdu tail : Bytes}
  {reads rest : List Arrival}

/-- Waiting ends with the read that completes the frame, whatever is made of it. -/
theorem receive_of_completion (hline : port.line = some line)
    (hincoming : line.incoming = reads ++ rest) (hpdu : DelimitedResponse pdu)
    (completion : Completion (line.now + port.timing.response) reads
      (Frame.wire ⟨unit, pdu⟩) tail)
    (expected : UInt8) {verdict : Except ProtocolError Bytes}
    (hverdict : ∀ more, response expected (Frame.wire ⟨unit, pdu⟩ ++ more) = verdict.map some) :
    ∃ now, line.now ≤ now ∧ port.receive expected = (verdict.mapError .protocol,
      { port with line := some { line with
          now := now
          incoming := completion.after ++ rest } }) := by
  have hdelimited : DelimitedResponse (⟨unit, pdu⟩ : Frame).pdu := hpdu
  obtain ⟨now, hle, hawait⟩ := completion.await hverdict
    (fun _ => response_take hdelimited expected) line.now rest
  rw [← hincoming] at hawait
  refine ⟨now, hle, ?_⟩
  cases verdict with
  | error cause =>
    simp only [receive, hline, hawait]
    rfl
  | ok pdu =>
    simp only [receive, hline, hawait]
    rfl

/-- A unit's response is received with the read that completes it, and if another unit was to
respond it is refused then. What has come behind that read stays on the line, which stays open. -/
theorem receive_completes (hline : port.line = some line)
    (hincoming : line.incoming = reads ++ rest) (hpdu : DelimitedResponse pdu)
    (hreads : Brings (line.now + port.timing.response) reads (Frame.wire ⟨unit, pdu⟩ ++ tail)) :
    ∃ completion : Completion (line.now + port.timing.response) reads
        (Frame.wire ⟨unit, pdu⟩) tail,
      (∃ now, line.now ≤ now ∧ port.receive unit = (.ok pdu,
        { port with line := some { line with
            now := now
            incoming := completion.after ++ rest } })) ∧
      ∀ other, other ≠ unit → ∃ now, line.now ≤ now ∧
        port.receive other = (.error (.protocol (.unitMismatch other unit)),
          { port with line := some { line with
              now := now
              incoming := completion.after ++ rest } }) := by
  have hdelimited : DelimitedResponse (⟨unit, pdu⟩ : Frame).pdu := hpdu
  obtain ⟨completion⟩ := hreads.exists_completion rfl (List.cons_ne_nil _ _)
  refine ⟨completion, ?_, fun other hother => ?_⟩
  · have hown : ∀ more, response unit (Frame.wire ⟨unit, pdu⟩ ++ more) =
        (Except.ok pdu).map some := by
      intro more
      rw [response_wire_append hdelimited, if_neg (not_not_intro rfl)]
      rfl
    exact receive_of_completion hline hincoming hpdu completion unit hown
  · have hforeign : ∀ more, response other (Frame.wire ⟨unit, pdu⟩ ++ more) =
        (Except.error (.unitMismatch other unit)).map some := by
      intro more
      rw [response_wire_append hdelimited, if_pos hother.symm]
      rfl
    exact receive_of_completion hline hincoming hpdu completion other hforeign

end Reading

/-- Reads of an exception response, the second of which completes it and brings more. -/
def exceptionReads : List Arrival :=
  [⟨2, .data [0x11, 0x83]⟩, ⟨5, .data [0x02, 0xC1, 0x34, 0xFF]⟩, ⟨8, .data [0x00]⟩]

theorem exceptionReads_brings (deadline : Nat) (h : 8 ≤ deadline) :
    Brings deadline exceptionReads (Frame.wire ⟨0x11, [0x83, 0x02]⟩ ++ [0xFF, 0x00]) := by
  have hwire : Frame.wire ⟨0x11, [0x83, 0x02]⟩ = [0x11, 0x83, 0x02, 0xC1, 0x34] := by
    decide +kernel
  rw [hwire]
  exact .cons (by omega) (.cons (by omega) (.cons h .nil))

theorem receive_completes_exceptionReads :
    let port : Port := { line := some { incoming := exceptionReads } }
    DelimitedResponse [0x83, 0x02] ∧
    Brings 1000 exceptionReads (Frame.wire ⟨0x11, [0x83, 0x02]⟩ ++ [0xFF, 0x00]) ∧
    (port.receive 0x11).1 = .ok [0x83, 0x02] ∧ (port.receive 0x11).2.isConnected ∧
    (port.receive 0x12).1 = .error (.protocol (.unitMismatch 0x12 0x11)) ∧
    (port.receive 0x12).2.isConnected := by
  intro port
  have hpdu : DelimitedResponse [0x83, 0x02] := .exception (by decide)
  have hreads := exceptionReads_brings 1000 (by decide)
  have hline : port.line = some { incoming := exceptionReads } := rfl
  obtain ⟨completion, ⟨now, -, hown⟩, hother⟩ :=
    receive_completes hline (List.append_nil _).symm hpdu hreads
  obtain ⟨later, -, hforeign⟩ := hother 0x12 (by decide)
  rw [hown, hforeign]
  exact ⟨hpdu, hreads, rfl, rfl, rfl, rfl⟩

end Modbus.Serial.Port
