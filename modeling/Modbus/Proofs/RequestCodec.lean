import Modbus.Proofs.FieldReading

/-! Requests and their PDUs correspond one to one. A PDU is read as the request
whose PDU it is, if that request fits its length fields (`of_ofPdu`). One that
does not fit is never read as another, because its function and the length of
its PDU show that it does not fit. -/

namespace Modbus

namespace Request

theorem encode_ok {request : Request} {buffer : Bytes} (h : request.length ≤ buffer.length) :
    request.encode buffer =
      (.ok request.length, request.pdu ++ buffer.drop request.length) := by
  rw [← length_pdu] at h ⊢
  exact overwrite_ok h

theorem pdu_eq {request : Request} {code : UInt8} {fields : Bytes}
    (hcode : request.function.toByte = code) (hfields : fields = request.fields) :
    request.pdu = code :: fields := by
  rw [pdu, hcode, hfields]

/-- What is read is the request whose PDU it is, and it fits its fields. -/
theorem of_ofPdu {bytes : Bytes} {request : Request} (h : ofPdu bytes = .ok request) :
    request.pdu = bytes ∧ request.OutsideCatalogue ∧ request.Fits := by
  cases bytes with
  | nil => cases h
  | cons code fields =>
    rw [ofPdu, ofFields] at h
    have hcode := FunctionCode.toByte_ofByte code
    cases hfun : FunctionCode.ofByte code with
    | readCoils | readDiscreteInputs | readHoldingRegisters | readInputRegisters
    | writeSingleRegister =>
      rw [hfun] at h hcode
      obtain ⟨⟨address, value⟩, hwords, hrequest⟩ := bind_eq_ok.mp h
      cases hrequest
      exact ⟨pdu_eq hcode (Fields.eq_of_twoWords hwords), trivial, trivial⟩
    | writeSingleCoil =>
      rw [hfun] at h hcode
      obtain ⟨⟨address, value⟩, hwords, hrest⟩ := bind_eq_ok.mp h
      obtain ⟨state, hstate, hrequest⟩ := bind_eq_ok.mp hrest
      cases hrequest
      have hfields := Fields.eq_of_twoWords hwords
      rw [← coilWord_of_coilState hstate] at hfields
      exact ⟨pdu_eq hcode hfields, trivial, trivial⟩
    | writeMultipleCoils =>
      rw [hfun] at h hcode
      obtain ⟨⟨address, block⟩, haddress, hrest⟩ := bind_eq_ok.mp h
      obtain ⟨coils, hcoils, hrequest⟩ := bind_eq_ok.mp hrest
      cases hrequest
      obtain ⟨hblock, hmax⟩ := Fields.eq_of_coilBlock hcoils
      have hfields := Fields.eq_of_address haddress
      rw [hblock] at hfields
      exact ⟨pdu_eq hcode hfields, trivial, hmax⟩
    | writeMultipleRegisters =>
      rw [hfun] at h hcode
      obtain ⟨⟨address, block⟩, haddress, hrest⟩ := bind_eq_ok.mp h
      obtain ⟨registers, hregisters, hrequest⟩ := bind_eq_ok.mp hrest
      cases hrequest
      obtain ⟨hblock, hmax⟩ := Fields.eq_of_registerBlock hregisters
      have hfields := Fields.eq_of_address haddress
      rw [hblock] at hfields
      exact ⟨pdu_eq hcode hfields, trivial, hmax⟩
    | writeFileRecord =>
      rw [hfun] at h hcode
      obtain ⟨record, hrecord, hrequest⟩ := bind_eq_ok.mp h
      cases hrequest
      obtain ⟨hfields, hfits⟩ := Fields.eq_of_fileRecord hrecord
      exact ⟨pdu_eq hcode hfields, trivial, hfits⟩
    | custom other =>
      rw [hfun] at h hcode
      obtain ⟨data, hdata, hrequest⟩ := bind_eq_ok.mp h
      cases hrequest
      obtain ⟨rfl, hlow⟩ := Fields.eq_of_custom hdata
      obtain rfl : other = code := hcode
      exact ⟨pdu_eq (FunctionCode.toByte_ofByte other) rfl, hfun, hlow⟩

/-- The lengths of PDUs that a function can have. -/
def HasLength : FunctionCode → Nat → Prop
  | .writeMultipleCoils, length | .writeMultipleRegisters, length => length ≤ 261
  | .writeFileRecord, length => length % 2 = 1 ∧ length ≤ 257
  | .custom code, _ => code < 0x80
  | _, _ => True

/-- Whether a request fits its fields shows in its function and its length. -/
theorem fits_iff {request : Request} (hcat : request.OutsideCatalogue) :
    request.Fits ↔ HasLength request.function request.length := by
  cases request with
  | writeMultipleCoils address coils =>
    simp only [Fits, HasLength, function, length, Bits.packedLength]
    omega
  | writeMultipleRegisters address registers =>
    simp only [Fits, HasLength, function, length]
    omega
  | writeFileRecord record =>
    simp only [Fits, HasLength, function, length]
    omega
  | custom code data =>
    have hfun : FunctionCode.ofByte code = .custom code := hcat
    simp only [Fits, HasLength, function, hfun]
  | _ => simp only [Fits, HasLength, function]

/-- What is read of the PDU of a request is that request, if anything is read at all. -/
theorem fits_of_ofPdu_pdu {request read : Request} (hcat : request.OutsideCatalogue)
    (h : ofPdu request.pdu = .ok read) : request.Fits := by
  obtain ⟨hpdu, hread, hfits⟩ := of_ofPdu h
  have hlength : read.length = request.length := by
    rw [← length_pdu, ← length_pdu, hpdu]
  have hfunction : read.function = request.function := by
    rw [← ofByte_function hread, ← ofByte_function hcat, (List.cons.inj hpdu).1]
  rw [fits_iff hread, hlength, hfunction] at hfits
  exact (fits_iff hcat).mpr hfits

theorem ofPdu_pdu_refused {request : Request} (hcat : request.OutsideCatalogue)
    (h : ¬ request.Fits) : ∃ cause, ofPdu request.pdu = .error cause := by
  cases hread : ofPdu request.pdu with
  | error cause => exact ⟨cause, rfl⟩
  | ok read => exact absurd (fits_of_ofPdu_pdu hcat hread) h

/-- Reading and writing are inverse. What has been read is written as the bytes that were read,
in front of what a buffer holds, and a buffer that they do not fit is left as it was. What is
written is read as it was if it fits its length fields, and refused if not, however long it is. -/
theorem ofPdu_encode_inverse :
    (∀ bytes request, ofPdu bytes = .ok request →
      request.length = bytes.length ∧
      (∀ buffer : Bytes, bytes.length ≤ buffer.length →
        request.encode buffer = (.ok bytes.length, bytes ++ buffer.drop bytes.length)) ∧
      (∀ buffer : Bytes, buffer.length < bytes.length →
        request.encode buffer = (.error .bufferSize, buffer))) ∧
    (∀ request : Request, request.OutsideCatalogue →
      ∀ buffer : Bytes, request.length ≤ buffer.length →
        ∃ written, request.encode buffer = (.ok request.length, written) ∧
          (ofPdu (written.take request.length) = .ok request ↔ request.Fits) ∧
          (¬ request.Fits → ∃ cause, ofPdu (written.take request.length) = .error cause)) := by
  constructor
  · intro bytes request h
    obtain ⟨rfl, -, -⟩ := of_ofPdu h
    exact ⟨(length_pdu request).symm, fun buffer hlen => overwrite_ok hlen,
      fun buffer hlen => overwrite_error hlen⟩
  · intro request hcat buffer hlen
    refine ⟨_, encode_ok hlen, ?_⟩
    rw [← length_pdu, List.take_left]
    exact ⟨⟨fits_of_ofPdu_pdu hcat, ofPdu_pdu hcat⟩, ofPdu_pdu_refused hcat⟩

theorem ofPdu_encode_inverse_three_coils :
    let three : Request := .writeMultipleCoils 19 (.ofList [true, false, true])
    let tooMany : Request := .writeMultipleCoils 0 (.ofList (List.replicate 2048 true))
    (three.encode [9, 9, 9, 9, 9, 9, 9, 9] = (.ok 7, [0x0F, 0, 19, 0, 3, 1, 5, 9]) ∧
      three.encode [9, 9, 9, 9, 9, 9] = (.error .bufferSize, [9, 9, 9, 9, 9, 9])) ∧
    ∃ written cause, tooMany.encode (List.replicate 300 9) = (.ok 262, written) ∧
      ofPdu (written.take 262) = .error cause := by
  intro three tooMany
  obtain ⟨hread, hwritten⟩ := ofPdu_encode_inverse
  obtain ⟨-, hlong, hshort⟩ := hread [0x0F, 0, 19, 0, 3, 1, 5] three (by cbv)
  have hlength : ∀ coils : List Bool,
      (writeMultipleCoils 0 (.ofList coils)).length = 6 + (coils.length + 7) / 8 := fun _ => rfl
  have htooMany : tooMany.length = 262 := by
    rw [hlength, List.length_replicate]
  have hcat : tooMany.OutsideCatalogue := trivial
  have hfits : ¬ tooMany.Fits := by
    rw [fits_iff hcat, htooMany]
    exact Nat.not_succ_le_self 261
  have hbuffer : tooMany.length ≤ (List.replicate 300 (9 : UInt8)).length := by
    rw [htooMany, List.length_replicate]
    decide
  obtain ⟨written, hencode, -, hrefused⟩ := hwritten tooMany hcat _ hbuffer
  obtain ⟨cause, hcause⟩ := hrefused hfits
  rw [htooMany] at hencode hcause
  exact ⟨⟨hlong [9, 9, 9, 9, 9, 9, 9, 9] (by decide), hshort [9, 9, 9, 9, 9, 9] (by decide)⟩,
    written, cause, hencode, hcause⟩

end Request

end Modbus
