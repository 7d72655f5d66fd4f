import Modbus.Proofs.SerialFraming
import Modbus.Proofs.Transparency

/-! The PDUs of reads and writes tell their length. That holds for the requests
of a master and, whatever the service does, for the answers of a device to
them, so a serial line delimits both. -/

namespace Modbus

variable {σ : Type}

namespace Request

theorem OnValues.outsideCatalogue {request : Request} (h : request.OnValues) :
    request.OutsideCatalogue := by
  cases request with
  | custom => exact h.elim
  | _ => trivial

theorem OnValues.toByte_lt {request : Request} (h : request.OnValues) :
    request.function.toByte < 0x80 := by
  cases request with
  | custom => exact h.elim
  | _ => simp only [function, FunctionCode.toByte]; decide

theorem delimited {request : Request} (h : request.OnValues) (hfits : request.Fits) :
    Serial.Delimited request.pdu := by
  cases request with
  | writeMultipleCoils address coils =>
    have hmax : coils.count ≤ 2040 := hfits
    have hlen : coils.bytes.length < 256 := by
      rw [coils.length_bytes, Bits.packedLength]
      omega
    exact .counted (.inl rfl) (toNat_toUInt8 hlen).symm
  | writeMultipleRegisters address registers =>
    have hmax : registers.count ≤ 127 := hfits
    have hlen : registers.bytes.length < 256 := by
      rw [registers.length_bytes]
      omega
    exact .counted (.inr rfl) (toNat_toUInt8 hlen).symm
  | writeFileRecord | custom => exact h.elim
  | _ =>
    refine .plain ?_ rfl
    simp only [function, FunctionCode.toByte]
    decide

end Request

/-- A response that is no longer than a PDU can be tells its length. -/
theorem Response.delimited {response : Response} (h : response.OnValues)
    (hlen : response.length ≤ maxPduLength) : Serial.DelimitedResponse response.pdu := by
  cases response with
  | readCoils coils | readDiscreteInputs coils =>
    have hbytes : coils.bytes.length < 256 := by
      rw [length, maxPduLength, ← coils.length_bytes] at hlen
      omega
    refine .counted (.inl ?_) (toNat_toUInt8 hbytes).symm
    simp only [function, FunctionCode.toByte]
    decide
  | readHoldingRegisters registers | readInputRegisters registers =>
    have hbytes : registers.bytes.length < 256 := by
      rw [length, maxPduLength, ← registers.length_bytes] at hlen
      omega
    refine .counted (.inl ?_) (toNat_toUInt8 hbytes).symm
    simp only [function, FunctionCode.toByte]
    decide
  | writeFileRecord | custom => exact h.elim
  | _ =>
    refine .plain ?_ rfl
    simp only [function, FunctionCode.toByte]
    decide

namespace Device

theorem respond_delimited {response : Response} (h : response.OnValues) :
    (respond (σ := σ) response).Yields Serial.DelimitedResponse := by
  unfold respond
  split
  · exact Work.yields_throw _
  · next hlen => exact Work.yields_pure (Response.delimited h (Nat.le_of_not_lt hlen))

theorem perform_delimited (service : Service σ) (unit : UInt8) (data : Bytes) {request : Request}
    (h : request.OnValues) :
    (perform service unit data request).Yields Serial.DelimitedResponse :=
  perform_yields_of service unit data fun _ hresponse => respond_delimited (hresponse h)

theorem exception_delimited {request : Request} (h : request.OnValues) (exception : Exception) :
    Serial.DelimitedResponse (ExceptionResponse.pdu ⟨request.function, exception⟩) := by
  cases request with
  | writeFileRecord | custom => exact h.elim
  | _ =>
    apply Serial.DelimitedResponse.exception
    simp only [Request.function, FunctionCode.toByte]
    decide

/-- The answer to a read or write of values tells its length. -/
theorem answer_delimited {service : Service σ} {unit : UInt8} {request : Request}
    (h : request.OnValues) (hfits : request.Fits) {s s' : σ} {response : Bytes}
    (hanswer : (answer service unit request.pdu).run s = (some response, s')) :
    Serial.DelimitedResponse response := by
  have hcat := h.outsideCatalogue
  have hrun := answer_run service unit request.fields h.toByte_lt s
  obtain ⟨hresponse, -⟩ := Prod.mk.inj (hanswer.symm.trans hrun)
  rw [Option.some.inj hresponse, serve_pdu service unit hcat hfits]
  split
  · cases hperform : (perform service unit request.fields request).run.run s with
    | mk outcome s₁ =>
      cases outcome with
      | ok pdu => exact perform_delimited service unit request.fields h s pdu s₁ hperform
      | error exception =>
        rw [responsePdu, Request.ofByte_function hcat]
        exact exception_delimited h exception
  · change Serial.DelimitedResponse (responsePdu _ (.error .illegalFunction))
    rw [responsePdu, Request.ofByte_function hcat]
    exact exception_delimited h _

end Device

end Modbus
