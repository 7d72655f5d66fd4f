import Modbus.Pdu.Request
import Modbus.Pdu.Response
import Modbus.Proofs.Packing

/-! Reading a PDU that was written gives the message back, as long as its
counts fit the fields that hold them. A response with coils comes back with
all bits of its bytes as coils. -/

namespace Modbus

theorem toNat_toUInt8 {n : Nat} (h : n < 256) : n.toUInt8.toNat = n := by
  simp only [Nat.toUInt8, UInt8.toNat_ofNat']
  omega

theorem toNat_toUInt16 {n : Nat} (h : n < 65536) : n.toUInt16.toNat = n := by
  simp only [Nat.toUInt16, UInt16.toNat_ofNat']
  omega

theorem overwrite_ok {bytes target : Bytes} (h : bytes.length ≤ target.length) :
    overwrite bytes target = (.ok bytes.length, bytes ++ target.drop bytes.length) :=
  if_neg (Nat.not_lt.mpr h)

theorem overwrite_error {bytes target : Bytes} (h : target.length < bytes.length) :
    overwrite bytes target = (.error .bufferSize, target) :=
  if_pos h

theorem Coils.packInto_ok {coils : List Bool} {target : Bytes}
    (h : Bits.packedLength coils.length ≤ target.length) :
    packInto coils target = .ok (ofList coils) := by
  rw [← Bits.length_pack] at h
  rw [packInto, Bits.packInto, overwrite_ok h]
  rfl

theorem Registers.packInto_ok {words : List UInt16} {target : Bytes}
    (h : 2 * words.length ≤ target.length) : packInto words target = .ok (ofList words) := by
  rw [← Words.length_bytes] at h
  rw [packInto, overwrite_ok h]
  rfl

namespace Fields

@[simp] theorem twoWords_wordBytes (a b : UInt16) :
    twoWords (wordBytes a ++ wordBytes b) = .ok (a, b) := by
  simp [wordBytes, twoWords]

@[simp] theorem address_wordBytes (a : UInt16) (rest : Bytes) :
    address (wordBytes a ++ rest) = .ok (a, rest) := by
  simp [wordBytes, address]

theorem counted_cons {values : Bytes} (h : values.length < 256) :
    counted (values.length.toUInt8 :: values) = .ok values := by
  rw [counted, toNat_toUInt8 h, if_pos rfl]

theorem countedWords_cons (registers : Registers) (h : registers.count ≤ 127) :
    countedWords (registers.bytes.length.toUInt8 :: registers.bytes) = .ok registers := by
  have hl := registers.length_bytes
  rw [countedWords, counted_cons (by omega)]
  obtain ⟨bytes, count, hbytes⟩ := registers
  have hcount : bytes.length / 2 = count := by
    rw [hbytes]
    omega
  simp only [bind, Except.bind, pure, Except.pure]
  rw [dif_pos (by omega)]
  simp only [hcount]

theorem coilBlock_ofCoils (coils : Coils) (h : coils.count ≤ 2040) :
    coilBlock (ofCoils coils) = .ok coils := by
  obtain ⟨bytes, count, hbytes⟩ := coils
  simp only at h
  have hlen : bytes.length < 256 := by
    rw [hbytes, Bits.packedLength]
    omega
  have hq : (word (count.toUInt16 >>> 8).toUInt8 count.toUInt16.toUInt8).toNat = count := by
    rw [word_wordBytes, toNat_toUInt16 (by omega)]
  simp only [ofCoils, wordBytes, List.cons_append, List.nil_append, coilBlock, hq,
    toNat_toUInt8 hlen]
  rw [dif_pos ⟨trivial, hbytes⟩]

theorem registerBlock_ofRegisters (registers : Registers) (h : registers.count ≤ 127) :
    registerBlock (ofRegisters registers) = .ok registers := by
  obtain ⟨bytes, count, hbytes⟩ := registers
  simp only at h
  have hlen : bytes.length < 256 := by omega
  have hq : (word (count.toUInt16 >>> 8).toUInt8 count.toUInt16.toUInt8).toNat = count := by
    rw [word_wordBytes, toNat_toUInt16 (by omega)]
  simp only [ofRegisters, wordBytes, List.cons_append, List.nil_append, registerBlock, hq,
    toNat_toUInt8 hlen]
  rw [dif_pos ⟨trivial, hbytes⟩]

theorem fileRecord_ofFileRecord (record : FileRecord) (heven : record.data.length % 2 = 0)
    (h : record.data.length ≤ 248) : fileRecord (ofFileRecord record) = .ok record := by
  have hword : record.length.toNat = record.data.length / 2 := toNat_toUInt16 (by omega)
  simp only [ofFileRecord, wordBytes, List.cons_append, List.nil_append, fileRecord]
  rw [toNat_toUInt8 (by omega), if_neg (by simp), if_neg (by simp), word_wordBytes, hword,
    if_neg (by omega)]
  simp

end Fields

namespace Request

/-- A user defined function has no code of the catalogue. -/
def OutsideCatalogue : Request → Prop
  | .custom code _ => FunctionCode.ofByte code = .custom code
  | _ => True

/-- The counts fit the fields that hold them. -/
def Fits : Request → Prop
  | .writeMultipleCoils _ coils => coils.count ≤ 2040
  | .writeMultipleRegisters _ registers => registers.count ≤ 127
  | .writeFileRecord record => record.data.length % 2 = 0 ∧ record.data.length ≤ 248
  | .custom code _ => code < 0x80
  | _ => True

theorem ofByte_function {request : Request} (h : request.OutsideCatalogue) :
    FunctionCode.ofByte request.function.toByte = request.function := by
  cases request with
  | custom code data =>
    have hcode : FunctionCode.ofByte code = .custom code := h
    simp only [function, hcode, FunctionCode.toByte]
  | _ => rfl

theorem ofPdu_pdu {request : Request} (hcat : request.OutsideCatalogue) (hfits : request.Fits) :
    ofPdu request.pdu = .ok request := by
  rw [pdu, ofPdu, ofFields, ofByte_function hcat]
  cases request with
  | writeSingleCoil address state =>
    simp [function, fields, bind, Except.bind, pure, Except.pure]
  | writeMultipleCoils address coils =>
    simp [function, fields, bind, Except.bind, pure, Except.pure, Fields.coilBlock_ofCoils _ hfits]
  | writeMultipleRegisters address registers =>
    simp [function, fields, bind, Except.bind, pure, Except.pure,
      Fields.registerBlock_ofRegisters _ hfits]
  | writeFileRecord record =>
    simp [function, fields, bind, Except.bind, pure, Except.pure,
      Fields.fileRecord_ofFileRecord _ hfits.1 hfits.2]
  | custom code data =>
    have hcode : FunctionCode.ofByte code = .custom code := hcat
    have hlow : code < 0x80 := hfits
    simp [function, fields, hcode, Fields.custom, hlow, bind, Except.bind, pure, Except.pure]
  | _ => simp [function, fields, bind, Except.bind, pure, Except.pure]

end Request

namespace Response

/-- A user defined function has no code of the catalogue. -/
def OutsideCatalogue : Response → Prop
  | .custom code _ => FunctionCode.ofByte code = .custom code
  | _ => True

/-- The counts fit the fields that hold them. -/
def Fits : Response → Prop
  | .readCoils coils | .readDiscreteInputs coils => coils.count ≤ 2040
  | .readHoldingRegisters registers | .readInputRegisters registers => registers.count ≤ 127
  | .writeFileRecord record => record.data.length % 2 = 0 ∧ record.data.length ≤ 248
  | .custom code _ => code < 0x80
  | _ => True

/-- The response with all bits of its bytes as coils. -/
def widened : Response → Response
  | .readCoils coils => .readCoils (.ofBytes coils.bytes)
  | .readDiscreteInputs inputs => .readDiscreteInputs (.ofBytes inputs.bytes)
  | other => other

theorem ofByte_function {response : Response} (h : response.OutsideCatalogue) :
    FunctionCode.ofByte response.function.toByte = response.function := by
  cases response with
  | custom code data =>
    have hcode : FunctionCode.ofByte code = .custom code := h
    simp only [function, hcode, FunctionCode.toByte]
  | _ => rfl

theorem counted_coils {coils : Coils} (h : coils.count ≤ 2040) :
    Fields.counted (coils.bytes.length.toUInt8 :: coils.bytes) = .ok coils.bytes := by
  apply Fields.counted_cons
  rw [coils.length_bytes, Bits.packedLength]
  omega

theorem ofPdu_pdu {response : Response} (hcat : response.OutsideCatalogue)
    (hfits : response.Fits) : ofPdu response.pdu = .ok response.widened := by
  rw [pdu, ofPdu, ofFields, ofByte_function hcat]
  cases response with
  | readCoils coils | readDiscreteInputs coils =>
    simp [function, fields, widened, bind, Except.bind, pure, Except.pure, counted_coils hfits]
  | readHoldingRegisters registers | readInputRegisters registers =>
    simp [function, fields, widened, bind, Except.bind, pure, Except.pure,
      Fields.countedWords_cons _ hfits]
  | writeFileRecord record =>
    simp [function, fields, widened, bind, Except.bind, pure, Except.pure,
      Fields.fileRecord_ofFileRecord _ hfits.1 hfits.2]
  | custom code data =>
    have hcode : FunctionCode.ofByte code = .custom code := hcat
    have hlow : code < 0x80 := hfits
    simp [function, fields, widened, hcode, Fields.custom, hlow, bind, Except.bind, pure,
      Except.pure]
  | _ => simp [function, fields, widened, bind, Except.bind, pure, Except.pure]

end Response

end Modbus
