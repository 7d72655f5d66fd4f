import Modbus.Device.Answer
import Modbus.Proofs.PduCodec

/-! What a device answers. A request that was written as a PDU is read back
and carried out if its function is supported, and every response fits a
frame: it has between one and 253 bytes. -/

namespace Modbus

/-- Reads and writes of coils, inputs and registers. -/
def Request.OnValues : Request → Prop
  | .writeFileRecord .. | .custom .. => False
  | _ => True

/-- What answers reads and writes of coils, inputs and registers. -/
def Response.OnValues : Response → Prop
  | .writeFileRecord .. | .custom .. => False
  | _ => True

namespace Device

variable {σ : Type}

/-- Every value that the action ends with has the property. -/
def Work.Yields {α : Type} (work : Work σ α) (P : α → Prop) : Prop :=
  ∀ s a s', work.run.run s = (.ok a, s') → P a

namespace Work

theorem yields_bind {α β : Type} {work : Work σ α} {next : α → Work σ β} {P : β → Prop}
    (h : ∀ a, (next a).Yields P) : (work >>= next).Yields P := by
  intro s b s' hrun
  rw [ExceptT.run_bind, StateT.run_bind] at hrun
  cases hwork : work.run.run s with
  | mk outcome s₁ =>
    rw [hwork] at hrun
    cases outcome with
    | ok a => exact h a s₁ b s' hrun
    | error cause => cases hrun

theorem yields_throw {α : Type} {P : α → Prop} (cause : Exception) :
    (throw cause : Work σ α).Yields P := by
  intro s a s' hrun
  cases hrun

theorem yields_pure {α : Type} {P : α → Prop} {a : α} (h : P a) :
    (pure a : Work σ α).Yields P := by
  intro s b s' hrun
  cases hrun
  exact h

end Work

/-- The length of a PDU that a frame can carry. -/
def Carried (pdu : Bytes) : Prop := 1 ≤ pdu.length ∧ pdu.length ≤ 253

instance (pdu : Bytes) : Decidable (Carried pdu) :=
  inferInstanceAs (Decidable (1 ≤ pdu.length ∧ pdu.length ≤ 253))

theorem length_response_pos (response : Response) : 1 ≤ response.length := by
  cases response <;> simp only [Response.length] <;> omega

theorem respond_yields (response : Response) : (respond (σ := σ) response).Yields Carried := by
  unfold respond
  split
  · exact Work.yields_throw _
  · apply Work.yields_pure
    rw [Carried, Response.length_pdu]
    exact ⟨length_response_pos response, by simp_all [maxPduLength]⟩

/-- Reads and writes of values are answered by responses with values, whatever becomes of them. -/
theorem perform_yields_of (service : Service σ) (unit : UInt8) (data : Bytes) {request : Request}
    {P : Bytes → Prop}
    (h : ∀ response : Response, (request.OnValues → response.OnValues) →
      (respond response : Work σ Bytes).Yields P) :
    (perform service unit data request).Yields P := by
  cases request with
  | writeSingleCoil | writeSingleRegister =>
    exact Work.yields_bind fun _ => h _ fun _ => trivial
  | writeFileRecord | custom =>
    refine Work.yields_bind fun answer => ?_
    cases answer with
    | none => exact Work.yields_throw _
    | some data => exact h _ False.elim
  | _ => exact Work.yields_bind fun _ => Work.yields_bind fun _ => h _ fun _ => trivial

theorem perform_yields (service : Service σ) (unit : UInt8) (data : Bytes) (request : Request) :
    (perform service unit data request).Yields Carried :=
  perform_yields_of service unit data fun response _ => respond_yields response

theorem serve_yields (service : Service σ) (unit code : UInt8) (data : Bytes) :
    (serve service unit code data).Yields Carried := by
  unfold serve
  split
  · split
    · exact perform_yields _ _ _ _
    · exact Work.yields_throw _
  · exact Work.yields_throw _

/-- The PDU that tells how the work on a request ended. -/
def responsePdu (code : UInt8) : Except Exception Bytes → Bytes
  | .ok pdu => pdu
  | .error exception => ExceptionResponse.pdu ⟨.ofByte code, exception⟩

theorem answer_run (service : Service σ) (unit : UInt8) {code : UInt8} (data : Bytes)
    (h : code < 0x80) (s : σ) :
    (answer service unit (code :: data)).run s =
      (some (responsePdu code ((serve service unit code data).run.run s).1),
        ((serve service unit code data).run.run s).2) := by
  rw [answer, if_neg (UInt8.not_le.mpr h), StateT.run_bind]
  cases (serve service unit code data).run.run s with
  | mk outcome s' => cases outcome <;> rfl

/-- Every request is answered, and the response fits a frame. -/
theorem answer_carried (service : Service σ) (unit : UInt8) {code : UInt8} (data : Bytes)
    (h : code < 0x80) (s : σ) :
    ∃ response s', (answer service unit (code :: data)).run s = (some response, s') ∧
      Carried response := by
  refine ⟨_, _, answer_run service unit data h s, ?_⟩
  cases hserve : (serve service unit code data).run.run s with
  | mk outcome s' =>
    cases outcome with
    | ok pdu => exact serve_yields service unit code data s pdu s' hserve
    | error exception => exact ⟨by simp [responsePdu, ExceptionResponse.pdu],
        by simp [responsePdu, ExceptionResponse.pdu]⟩

theorem carried_of_answer {service : Service σ} {unit : UInt8} {pdu response : Bytes} {s : σ}
    (h : ((answer service unit pdu).run s).1 = some response) : Carried response := by
  cases pdu with
  | nil => cases h
  | cons code data =>
    by_cases hcode : 0x80 ≤ code
    · rw [answer, if_pos hcode] at h
      cases h
    · obtain ⟨answered, s', hrun, hcarried⟩ :=
        answer_carried service unit data (UInt8.not_le.mp hcode) s
      rw [hrun] at h
      cases h
      exact hcarried

/-- A request that was written as a PDU is read back as it was. -/
theorem serve_pdu (service : Service σ) (unit : UInt8) {request : Request}
    (hcat : request.OutsideCatalogue) (hfits : request.Fits) :
    serve service unit request.function.toByte request.fields =
      if service.supports request.function then perform service unit request.fields request
      else throw .illegalFunction := by
  rw [serve, Request.ofByte_function hcat, ← Request.pdu, Request.ofPdu_pdu hcat hfits]

end Device

end Modbus
