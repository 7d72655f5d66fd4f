import Modbus.Proofs.FieldReading

/-! Responses and their PDUs correspond up to the number of coils, which a read
response does not tell: reading takes all bits of the bytes, so that coils that
are off are added up to the end of the last byte (`padded`). A response that
does not fit its length fields is never read as another one. -/

namespace Modbus.Response

theorem encode_ok {response : Response} {buffer : Bytes} (h : response.length ≤ buffer.length) :
    response.encode buffer =
      (.ok response.length, response.pdu ++ buffer.drop response.length) := by
  rw [← length_pdu] at h ⊢
  exact overwrite_ok h

theorem pdu_eq {response : Response} {code : UInt8} {fields : Bytes}
    (hcode : response.function.toByte = code) (hfields : fields = response.fields) :
    response.pdu = code :: fields := by
  rw [pdu, hcode, hfields]

theorem count_ofBytes_le {values : Bytes} (h : values.length ≤ 255) :
    (Coils.ofBytes values).count ≤ 2040 := by
  change 8 * values.length ≤ 2040
  omega

/-- What is read is a response with this PDU, and it fits its fields. -/
theorem of_ofPdu {bytes : Bytes} {response : Response} (h : ofPdu bytes = .ok response) :
    response.pdu = bytes ∧ response.OutsideCatalogue ∧ response.Fits := by
  cases bytes with
  | nil => cases h
  | cons code fields =>
    rw [ofPdu, ofFields] at h
    have hcode := FunctionCode.toByte_ofByte code
    cases hfun : FunctionCode.ofByte code with
    | readCoils | readDiscreteInputs =>
      rw [hfun] at h hcode
      obtain ⟨values, hvalues, hresponse⟩ := bind_eq_ok.mp h
      cases hresponse
      obtain ⟨hfields, hmax⟩ := Fields.eq_of_counted hvalues
      exact ⟨pdu_eq hcode hfields, trivial, count_ofBytes_le hmax⟩
    | readHoldingRegisters | readInputRegisters =>
      rw [hfun] at h hcode
      obtain ⟨registers, hregisters, hresponse⟩ := bind_eq_ok.mp h
      cases hresponse
      obtain ⟨hfields, hmax⟩ := Fields.eq_of_countedWords hregisters
      exact ⟨pdu_eq hcode hfields, trivial, hmax⟩
    | writeSingleRegister | writeMultipleCoils | writeMultipleRegisters =>
      rw [hfun] at h hcode
      obtain ⟨⟨address, value⟩, hwords, hresponse⟩ := bind_eq_ok.mp h
      cases hresponse
      exact ⟨pdu_eq hcode (Fields.eq_of_twoWords hwords), trivial, trivial⟩
    | writeSingleCoil =>
      rw [hfun] at h hcode
      obtain ⟨⟨address, value⟩, hwords, hrest⟩ := bind_eq_ok.mp h
      obtain ⟨state, hstate, hresponse⟩ := bind_eq_ok.mp hrest
      cases hresponse
      have hfields := Fields.eq_of_twoWords hwords
      rw [← coilWord_of_coilState hstate] at hfields
      exact ⟨pdu_eq hcode hfields, trivial, trivial⟩
    | writeFileRecord =>
      rw [hfun] at h hcode
      obtain ⟨record, hrecord, hresponse⟩ := bind_eq_ok.mp h
      cases hresponse
      obtain ⟨hfields, hfits⟩ := Fields.eq_of_fileRecord hrecord
      exact ⟨pdu_eq hcode hfields, trivial, hfits⟩
    | custom other =>
      rw [hfun] at h hcode
      obtain ⟨data, hdata, hresponse⟩ := bind_eq_ok.mp h
      cases hresponse
      obtain ⟨rfl, hlow⟩ := Fields.eq_of_custom hdata
      obtain rfl : other = code := hcode
      exact ⟨pdu_eq (FunctionCode.toByte_ofByte other) rfl, hfun, hlow⟩

/-- The lengths of PDUs that a function can have. -/
def HasLength : FunctionCode → Nat → Prop
  | .readCoils, length | .readDiscreteInputs, length | .readHoldingRegisters, length
  | .readInputRegisters, length => length ≤ 257
  | .writeFileRecord, length => length % 2 = 1 ∧ length ≤ 257
  | .custom code, _ => code < 0x80
  | _, _ => True

/-- Whether a response fits its fields shows in its function and its length. -/
theorem fits_iff {response : Response} (hcat : response.OutsideCatalogue) :
    response.Fits ↔ HasLength response.function response.length := by
  cases response with
  | readCoils coils | readDiscreteInputs coils =>
    simp only [Fits, HasLength, function, length, Bits.packedLength]
    omega
  | readHoldingRegisters registers | readInputRegisters registers =>
    simp only [Fits, HasLength, function, length]
    omega
  | writeFileRecord record =>
    simp only [Fits, HasLength, function, length]
    omega
  | custom code data =>
    have hfun : FunctionCode.ofByte code = .custom code := hcat
    simp only [Fits, HasLength, function, hfun]
  | _ => simp only [Fits, HasLength, function]

theorem fits_of_ofPdu_pdu {response read : Response} (hcat : response.OutsideCatalogue)
    (h : ofPdu response.pdu = .ok read) : response.Fits := by
  obtain ⟨hpdu, hread, hfits⟩ := of_ofPdu h
  have hlength : read.length = response.length := by
    rw [← length_pdu, ← length_pdu, hpdu]
  have hfunction : read.function = response.function := by
    rw [← ofByte_function hread, ← ofByte_function hcat, (List.cons.inj hpdu).1]
  rw [fits_iff hread, hlength, hfunction] at hfits
  exact (fits_iff hcat).mpr hfits

theorem ofPdu_pdu_refused {response : Response} (hcat : response.OutsideCatalogue)
    (h : ¬ response.Fits) : ∃ cause, ofPdu response.pdu = .error cause := by
  cases hread : ofPdu response.pdu with
  | error cause => exact ⟨cause, rfl⟩
  | ok read => exact absurd (fits_of_ofPdu_pdu hcat hread) h

/-- Coils that were packed from a list, so that the bits behind the last one are zero. -/
def Packed : Response → Prop
  | .readCoils coils | .readDiscreteInputs coils => ∃ values, coils = .ofList values
  | _ => True

/-- The coils, and behind them such that are off up to the end of the last byte. -/
def filled (coils : Coils) : Coils :=
  .ofList (coils.toList ++ List.replicate (8 * Bits.packedLength coils.count - coils.count) false)

/-- The response with its coils filled up to whole bytes. -/
def padded : Response → Response
  | .readCoils coils => .readCoils (filled coils)
  | .readDiscreteInputs inputs => .readDiscreteInputs (filled inputs)
  | other => other

theorem ofBytes_eq_filled (values : List Bool) :
    Coils.ofBytes (Coils.ofList values).bytes = filled (.ofList values) := by
  rw [filled, Coils.toList_ofList]
  exact Coils.ofBytes_pack values

theorem widened_eq_padded {response : Response} (h : response.Packed) :
    response.widened = response.padded := by
  cases response with
  | readCoils coils =>
    obtain ⟨values, rfl⟩ := h
    exact congrArg readCoils (ofBytes_eq_filled values)
  | readDiscreteInputs inputs =>
    obtain ⟨values, rfl⟩ := h
    exact congrArg readDiscreteInputs (ofBytes_eq_filled values)
  | _ => rfl

/-- Reading and writing are inverse up to the number of coils. What has been read is written as
the bytes that were read, in front of what a buffer holds. What is written is read with its coils
filled up to whole bytes if it fits its length fields, and refused if not, however long it is. -/
theorem ofPdu_encode_padded :
    (∀ bytes response, ofPdu bytes = .ok response →
      response.length = bytes.length ∧
      ∀ buffer : Bytes, bytes.length ≤ buffer.length →
        response.encode buffer = (.ok bytes.length, bytes ++ buffer.drop bytes.length)) ∧
    (∀ response : Response, response.Packed → response.OutsideCatalogue →
      ∀ buffer : Bytes, response.length ≤ buffer.length →
        ∃ written, response.encode buffer = (.ok response.length, written) ∧
          ((∃ read, ofPdu (written.take response.length) = .ok read) ↔ response.Fits) ∧
          (response.Fits → ofPdu (written.take response.length) = .ok response.padded) ∧
          (¬ response.Fits → ∃ cause, ofPdu (written.take response.length) = .error cause)) := by
  constructor
  · intro bytes response h
    obtain ⟨rfl, -, -⟩ := of_ofPdu h
    exact ⟨(length_pdu response).symm, fun buffer hlen => overwrite_ok hlen⟩
  · intro response hpacked hcat buffer hlen
    have hread : response.Fits → ofPdu response.pdu = .ok response.padded := by
      intro hfits
      rw [ofPdu_pdu hcat hfits, widened_eq_padded hpacked]
    refine ⟨_, encode_ok hlen, ?_⟩
    rw [← length_pdu, List.take_left]
    refine ⟨⟨?_, fun hfits => ⟨_, hread hfits⟩⟩, hread, ofPdu_pdu_refused hcat⟩
    rintro ⟨read, hok⟩
    exact fits_of_ofPdu_pdu hcat hok

theorem ofPdu_encode_padded_nine_coils :
    let coils := [true, false, true, true, false, false, false, true, true]
    let filledUp := readCoils (.ofList (coils ++ List.replicate 7 false))
    let tooMany := readInputRegisters (.ofList (List.replicate 128 7))
    (∃ written, (readCoils (.ofList coils)).encode [9, 9, 9, 9, 9] = (.ok 4, written) ∧
      ofPdu (written.take 4) = .ok filledUp) ∧
    filledUp.encode [9, 9, 9, 9, 9] = (.ok 4, [1, 2, 0x8D, 1, 9]) ∧
    ∃ written cause, tooMany.encode (List.replicate 300 9) = (.ok 258, written) ∧
      ofPdu (written.take 258) = .error cause := by
  intro coils filledUp tooMany
  obtain ⟨hread, hwritten⟩ := ofPdu_encode_padded
  have hfour : (readCoils (.ofList coils)).length = 4 := by decide
  have hfilledUp : (readCoils (.ofList coils)).padded = filledUp := by decide
  have hnine : (readCoils (.ofList coils)).Fits := by
    change coils.length ≤ 2040
    decide
  obtain ⟨nine, hencodeNine, -, hpadded, -⟩ :=
    hwritten (readCoils (.ofList coils)) ⟨coils, rfl⟩ trivial [9, 9, 9, 9, 9] (by decide)
  have hreadNine := hpadded hnine
  rw [hfour] at hencodeNine
  rw [hfour, hfilledUp] at hreadNine
  have hbytes : ofPdu [1, 2, 0x8D, 1] = .ok filledUp := by
    change _ = Except.ok (readCoils (.ofList (coils ++ List.replicate 7 false)))
    cbv
  obtain ⟨-, hfilled⟩ := hread _ _ hbytes
  have hlength : ∀ words : List UInt16,
      (readInputRegisters (.ofList words)).length = 2 + 2 * words.length := fun _ => rfl
  have htooMany : tooMany.length = 258 := by
    rw [hlength, List.length_replicate]
  have hcat : tooMany.OutsideCatalogue := trivial
  have hfits : ¬ tooMany.Fits := by
    rw [fits_iff hcat, htooMany]
    exact Nat.not_succ_le_self 257
  have hbuffer : tooMany.length ≤ (List.replicate 300 (9 : UInt8)).length := by
    rw [htooMany, List.length_replicate]
    decide
  obtain ⟨written, hencode, -, -, hrefused⟩ := hwritten tooMany trivial hcat _ hbuffer
  obtain ⟨cause, hcause⟩ := hrefused hfits
  rw [htooMany] at hencode hcause
  exact ⟨⟨nine, hencodeNine, hreadNine⟩, hfilled [9, 9, 9, 9, 9] (by decide), written, cause,
    hencode, hcause⟩

end Modbus.Response
