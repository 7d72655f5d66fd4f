import Modbus.Proofs.Judgement
import Modbus.Proofs.Refusal
import Modbus.Proofs.WriteJudgement

/-! What a master asks of its connection. An operation whose arguments are
refused asks for nothing. Any other one sends one request, which fits a PDU and
reads back as the arguments describe it, waits for one response if the request
went out, and does nothing else. -/

namespace Modbus

variable {τ : Type}

namespace Transport

/-- What can be asked of a connection. -/
inductive Call where
  | connect
  | send (unit : UInt8) (pdu : Bytes)
  | receive (unit : UInt8)
  | close
  deriving DecidableEq, Repr

/-- Performs an action and notes the call that led to it. -/
def noting {α : Type} (call : Call) (action : StateM τ α) : StateM (τ × List Call) α :=
  fun (state, calls) =>
    let (result, state) := action state
    (result, state, calls ++ [call])

/-- The same connection, which keeps a list of all calls in its state. -/
def noted (transport : Transport τ) : Transport (τ × List Call) where
  connect := noting .connect transport.connect.run
  send unit pdu := noting (.send unit pdu) (transport.send unit pdu).run
  receive unit := noting (.receive unit) (transport.receive unit).run
  close := noting .close transport.close
  isConnected state := transport.isConnected state.1

/-- A response is only waited for if the request went out. -/
theorem exchange_run (transport : Transport τ) (unit : UInt8) (pdu : Bytes) (t : τ) :
    (transport.exchange unit pdu).run.run t =
      match (transport.send unit pdu).run.run t with
      | (.error error, t') => (.error error, t')
      | (.ok (), t') => (transport.receive unit).run.run t' := by
  rw [exchange, ExceptT.run_bind, StateT.run_bind]
  cases (transport.send unit pdu).run.run t with
  | mk outcome t' => cases outcome <;> rfl

theorem noted_exchange_run (transport : Transport τ) (unit : UInt8) (pdu : Bytes) (t : τ) :
    (transport.noted.exchange unit pdu).run.run (t, []) =
      match (transport.send unit pdu).run.run t with
      | (.error error, t') => (.error error, t', [.send unit pdu])
      | (.ok (), t') =>
        let received := (transport.receive unit).run.run t'
        (received.1, received.2, [.send unit pdu, .receive unit]) := by
  have hsend : (transport.noted.send unit pdu).run.run (t, []) =
      (((transport.send unit pdu).run.run t).1, ((transport.send unit pdu).run.run t).2,
        [.send unit pdu]) := rfl
  rw [exchange_run, hsend]
  cases (transport.send unit pdu).run.run t with
  | mk outcome t' => cases outcome <;> rfl

end Transport

namespace Master.Operation

open Exchange

/-- What the device reads in a PDU: the request that the arguments describe, or for a user defined
function the code and the data behind it. -/
def ReadsAs (pdu : Bytes) : Operation → Prop
  | .userFunction _ code data => pdu = code :: data
  | operation => Request.ofPdu pdu = .ok operation.request

theorem readsAs_request {operation : Operation} (h : operation.Admissible) :
    operation.ReadsAs operation.request.pdu := by
  cases operation with
  | writeCoils unit address coils =>
    have hvalues : (writeCoils unit address coils).OnValues := trivial
    obtain ⟨hcat, hfits, -⟩ := request_readable hvalues h
    exact Request.ofPdu_pdu hcat hfits
  | writeHoldingRegisters unit address words =>
    have hvalues : (writeHoldingRegisters unit address words).OnValues := trivial
    obtain ⟨hcat, hfits, -⟩ := request_readable hvalues h
    exact Request.ofPdu_pdu hcat hfits
  | writeFile unit fileNumber recordSize recordNumber file =>
    have hfits := fileRecord_fits fileNumber recordNumber file h.2.1
    have hcat : (Request.writeFileRecord
        (fileRecord fileNumber recordSize recordNumber file)).OutsideCatalogue := trivial
    exact Request.ofPdu_pdu hcat hfits
  | userFunction unit code data =>
    change (FunctionCode.ofByte code).toByte :: data = code :: data
    rw [FunctionCode.toByte_ofByte]
  | readCoils unit address count => exact Request.ofPdu_pdu trivial trivial
  | readDiscreteInputs unit address count => exact Request.ofPdu_pdu trivial trivial
  | readHoldingRegisters unit address count => exact Request.ofPdu_pdu trivial trivial
  | readInputRegisters unit address count => exact Request.ofPdu_pdu trivial trivial

theorem calls_of_admissible (transport : Transport τ) {operation : Operation}
    (h : operation.Admissible) (t : τ) :
    let calls := ((operation.perform transport.noted).run.run (t, [])).2.2
    let sent := Transport.Call.send operation.unit operation.request.pdu
    calls = [sent] ∨ calls = [sent, .receive operation.unit] := by
  intro calls sent
  simp only [calls, perform_run transport.noted h, Transport.noted_exchange_run]
  cases (transport.send operation.unit operation.request.pdu).run.run t with
  | mk outcome t' =>
    cases outcome with
    | error error => exact .inl rfl
    | ok _ => exact .inr rfl

theorem cause_of_accept {operation : Operation} {response : Bytes} {error : Error}
    (h : operation.accept response = .error error) :
    (∃ cause, error = .protocol cause) ∨ ∃ exception, error = .exception exception := by
  rw [accept] at h
  cases hcheck : checkFunction operation.request.function response with
  | ok passed =>
    rw [hcheck] at h
    exact .inl (onlyProtocol_interpret operation response error h)
  | error cause =>
    rw [hcheck] at h
    cases h
    unfold checkFunction at hcheck
    repeat' split at hcheck
    all_goals cases hcheck
    all_goals first | exact .inl ⟨_, rfl⟩ | exact .inr ⟨_, rfl⟩

/-- An operation whose arguments are refused fails with what is wrong with them and asks nothing of
its connection. Any other sends its request, waits for the response if that went out, and fails
only as the connection fails or as the response makes it. -/
theorem perform_calls (transport : Transport τ) (operation : Operation) (t : τ) :
    let performed := (operation.perform transport.noted).run.run (t, [])
    let pdu := operation.request.pdu
    (operation.perform transport).run.run t = (performed.1, performed.2.1) ∧
    match operation.refusal with
    | some cause => performed = (.error (.argument cause), t, [])
    | none =>
      pdu.length ≤ 253 ∧ operation.ReadsAs pdu ∧
      (∀ response error, operation.accept response = .error error →
        (∃ cause, error = .protocol cause) ∨ ∃ exception, error = .exception exception) ∧
      match (transport.send operation.unit pdu).run.run t with
      | (.error error, t') => performed = (.error error, t', [.send operation.unit pdu])
      | (.ok (), t') =>
        let received := (transport.receive operation.unit).run.run t'
        performed = (received.1 >>= operation.accept, received.2,
          [.send operation.unit pdu, .receive operation.unit]) := by
  intro performed pdu
  cases hrefusal : operation.refusal with
  | some cause =>
    have hperformed : performed = (.error (.argument cause), t, []) := by
      simp only [performed, perform_refused transport.noted hrefusal]
      rfl
    rw [hperformed, perform_refused transport hrefusal]
    exact ⟨rfl, rfl⟩
  | none =>
    have hadmissible : operation.Admissible := admissible_iff.mpr hrefusal
    have hlength : pdu.length ≤ 253 := by
      rw [Request.length_pdu]
      exact length_request_le hadmissible
    have hplain := perform_run transport hadmissible t
    have hnoted : performed = _ := perform_run transport.noted hadmissible (t, [])
    rw [Transport.exchange_run] at hplain
    rw [Transport.noted_exchange_run] at hnoted
    refine ⟨?_, hlength, readsAs_request hadmissible, fun _ _ => cause_of_accept, ?_⟩
    · rw [hplain, hnoted]
      cases (transport.send operation.unit operation.request.pdu).run.run t with
      | mk outcome t' => cases outcome <;> rfl
    · rw [hnoted]
      cases (transport.send operation.unit operation.request.pdu).run.run t with
      | mk outcome t' => cases outcome <;> rfl

theorem perform_calls_three_coils :
    let transport := (Transport.replying [0x0F, 0, 5, 0, 3]).noted
    let performed (operation : Operation) := (operation.perform transport).run.run ((), [])
    performed (writeCoils 1 5 [true, false, true]) =
        (.ok .done, (), [.send 1 [0x0F, 0, 5, 0, 3, 1, 5], .receive 1]) ∧
      performed (readCoils 1 5 2001) =
        (.error (.argument (.quantityOutOfRange 2001 2000)), (), []) := by
  intro transport performed
  obtain ⟨-, -, -, -, hwritten⟩ :=
    perform_calls (.replying [0x0F, 0, 5, 0, 3]) (writeCoils 1 5 [true, false, true]) ()
  obtain ⟨-, hrefused⟩ := perform_calls (.replying [0x0F, 0, 5, 0, 3]) (readCoils 1 5 2001) ()
  exact ⟨hwritten.trans rfl, hrefused⟩

end Master.Operation

end Modbus
