import Modbus.Proofs.PackedValues
import Modbus.Proofs.RequestDiscipline

/-! The bits that hold no coil. They fill up the last byte of a block, and no
one learns anything from them: a device does the same for requests that differ
in them only, and a master gives back the same for such responses. In what a
device or a master sends itself these bits are zero. -/

namespace Modbus

namespace Bits

/-- As many bytes on both sides, with the same coils up to a count. Nothing is said of the bits
behind these. -/
structure AgreeUpTo (count : Nat) (one other : Bytes) : Prop where
  length : one.length = other.length
  coil : ∀ index < count, bit? one index = bit? other index

/-- No bit is set from a count on. -/
def ClearFrom (count : Nat) (bytes : Bytes) : Prop :=
  ∀ index, count ≤ index → index < 8 * bytes.length → bit? bytes index = some false

/-- A block of coils behind its byte count, with no bit set behind the last coil. -/
structure CleanBlock (count : Nat) (byteCount : UInt8) (values : Bytes) : Prop where
  byteCount : byteCount.toNat = values.length
  length : values.length = packedLength count
  clear : ClearFrom count values

theorem AgreeUpTo.take_unpackAll {count : Nat} {one other : Bytes}
    (h : AgreeUpTo count one other) :
    (unpackAll one).take count = (unpackAll other).take count := by
  apply List.ext_getElem?
  intro index
  rw [getElem?_take_unpackAll, getElem?_take_unpackAll]
  split
  · next hindex => exact h.coil index hindex
  · rfl

theorem clearFrom_pack (coils : List Bool) : ClearFrom coils.length (pack coils) := by
  intro index hfrom hindex
  rw [length_pack] at hindex
  rw [bit?_pack hindex, List.getD_eq_default _ _ hfrom]

theorem cleanBlock_pack {coils : List Bool} (h : coils.length ≤ 2040) :
    CleanBlock coils.length (pack coils).length.toUInt8 (pack coils) where
  byteCount := by
    rw [toNat_toUInt8]
    rw [length_pack, packedLength]
    omega
  length := length_pack coils
  clear := clearFrom_pack coils

end Bits

open Bits

namespace Device

variable {σ : Type}

/-- A block of coils is read if its bytes are as many as it tells twice, whatever is in them. -/
theorem coilBlock_agree {quantity : UInt16} {one other : Bytes} (byteCount : UInt8)
    (h : AgreeUpTo quantity.toNat one other) :
    (∃ cause, Fields.coilBlock (wordBytes quantity ++ byteCount :: one) = .error cause ∧
      Fields.coilBlock (wordBytes quantity ++ byteCount :: other) = .error cause) ∨
    ∃ coils coils' : Coils,
      Fields.coilBlock (wordBytes quantity ++ byteCount :: one) = .ok coils ∧
      Fields.coilBlock (wordBytes quantity ++ byteCount :: other) = .ok coils' ∧
      coils.count = coils'.count ∧ coils.toList = coils'.toList := by
  have hcoils : ∀ values : Bytes, Fields.coilBlock (wordBytes quantity ++ byteCount :: values) =
      if h : values.length = byteCount.toNat ∧ values.length = packedLength quantity.toNat then
        .ok ⟨values, quantity.toNat, h.2⟩
      else .error (.byteCount byteCount) := by
    intro values
    simp only [wordBytes, List.cons_append, List.nil_append, Fields.coilBlock, word_wordBytes]
  rw [hcoils, hcoils]
  by_cases hone : one.length = byteCount.toNat ∧ one.length = packedLength quantity.toNat
  · have hother := hone
    rw [h.length] at hother
    rw [dif_pos hone, dif_pos hother]
    exact .inr ⟨_, _, rfl, rfl, rfl, h.take_unpackAll⟩
  · have hother := hone
    rw [h.length] at hother
    rw [dif_neg hone, dif_neg hother]
    exact .inl ⟨_, rfl, rfl⟩

theorem ofPdu_writeMultipleCoils (address : UInt16) (block : Bytes) :
    Request.ofPdu (0x0F :: (wordBytes address ++ block)) =
      Request.writeMultipleCoils address <$> Fields.coilBlock block := by
  have hfunction : FunctionCode.ofByte 0x0F = .writeMultipleCoils := rfl
  simp only [Request.ofPdu, Request.ofFields, hfunction, Fields.address_wordBytes]
  rfl

/-- The work on a write of coils is told by their number and the list of them. -/
theorem perform_writeCoils_congr (service : Service σ) (unit : UInt8) (data data' : Bytes)
    (address : UInt16) {coils coils' : Coils} (hcount : coils.count = coils'.count)
    (hlist : coils.toList = coils'.toList) :
    perform service unit data (.writeMultipleCoils address coils) =
      perform service unit data' (.writeMultipleCoils address coils') := by
  let work (count : Nat) (list : List Bool) : Work σ Bytes := do
    checkBlock address count maxWriteCoils
    (call service (.writeCoils unit address list) : Work σ Unit)
    respond (.writeMultipleCoils address count.toUInt16)
  change work coils.count coils.toList = work coils'.count coils'.toList
  rw [hcount, hlist]

theorem serve_writeCoils_agree (service : Service σ) (unit : UInt8) (address : UInt16)
    {quantity : UInt16} {one other : Bytes} (byteCount : UInt8)
    (h : AgreeUpTo quantity.toNat one other) :
    let data (values : Bytes) := wordBytes address ++ (wordBytes quantity ++ byteCount :: values)
    serve service unit 0x0F (data one) = serve service unit 0x0F (data other) := by
  intro data
  simp only [data]
  rw [serve, serve, ofPdu_writeMultipleCoils, ofPdu_writeMultipleCoils]
  obtain ⟨cause, hone, hother⟩ | ⟨coils, coils', hone, hother, hcount, hlist⟩ :=
    coilBlock_agree byteCount h
  · rw [hone, hother]
    rfl
  · have hperform := perform_writeCoils_congr service unit (data one) (data other) address hcount
      hlist
    rw [hone, hother]
    change (if _ then perform _ _ _ _ else _) = (if _ then perform _ _ _ _ else _)
    rw [hperform]

theorem answer_writeCoils_agree (service : Service σ) (unit : UInt8) (address : UInt16)
    {quantity : UInt16} {one other : Bytes} (byteCount : UInt8)
    (h : AgreeUpTo quantity.toNat one other) :
    let data (values : Bytes) := wordBytes address ++ (wordBytes quantity ++ byteCount :: values)
    answer service unit (0x0F :: data one) = answer service unit (0x0F :: data other) := by
  intro data
  rw [answer, answer, serve_writeCoils_agree service unit address byteCount h]

/-- The coils that a device answers with stand alone in their bytes. -/
theorem clearFrom_answer (service : Service σ) (unit : UInt8) {code : UInt8} {data : Bytes}
    (hcode : code = 1 ∨ code = 2) {s : σ} {response : Bytes}
    (h : ((answer service unit (code :: data)).run s).1 = some response) :
    (∃ exception : Exception, response = [code ||| 0x80, exception.code]) ∨
    ∃ address quantity byteCount values, data = wordBytes address ++ wordBytes quantity ∧
      response = code :: byteCount :: values ∧ CleanBlock quantity.toNat byteCount values := by
  have hlow : code < 0x80 := by rcases hcode with rfl | rfl <;> decide
  obtain ⟨hexception | ⟨-, hfulfils⟩, -⟩ := answer_cons_wellFormed service unit data hlow h
  · exact .inl hexception
  cases hfulfils with
  | @bits _ address quantity byteCount packed values hcall hlen hcount hpacked =>
    obtain ⟨hlength, hbits⟩ := hpacked
    rw [hlen] at hlength
    refine .inr ⟨address, quantity, byteCount, packed, rfl, rfl, hcount.trans hlength.symm,
      hlength, ?_⟩
    intro index hfrom hindex
    rw [bit?_of_lt hindex, hbits index hindex, List.getD_eq_default _ _ (hlen ▸ hfrom)]
  -- no other response is for one of these codes
  | words hcall => rcases hcode with rfl | rfl <;> simp [GivesWords] at hcall
  | echo hother => rcases hcode with rfl | rfl <;> simp at hother
  | function hother => rcases hcode with rfl | rfl <;> simp [valueCodes] at hother

end Device

namespace Master

/-- What is read behind a code that stands for coils. The bytes have to be as many as their count
tells and as many as expected. -/
theorem readResponse_coils {code : UInt8} (wrap : Coils → Response)
    (hofPdu : ∀ fields, Response.ofPdu (code :: fields) =
      (fun values => wrap (.ofBytes values)) <$> Fields.counted fields)
    (expected : Nat) (byteCount : UInt8) (values : Bytes) :
    readResponse expected (code :: byteCount :: values) =
      if values.length = byteCount.toNat ∧ values.length = expected then
        .ok (wrap (.ofBytes values))
      else .error (.byteCountMismatch byteCount expected values.length) := by
  by_cases hdeclared : values.length = byteCount.toNat
  · have hread : Response.ofPdu (code :: byteCount :: values) = .ok (wrap (.ofBytes values)) := by
      rw [hofPdu, Fields.counted, if_pos hdeclared]
      rfl
    simp only [readResponse, hread, hdeclared, true_and]
  · have hread : Response.ofPdu (code :: byteCount :: values) = .error (.byteCount byteCount) := by
      rw [hofPdu, Fields.counted, if_neg hdeclared]
      rfl
    simp only [readResponse, hread, hdeclared, false_and, if_false]
    rfl

/-- Of the bytes of a response, a read of bits tells no more than their number and its coils. -/
theorem acceptBits_cons (count : UInt16) {code : UInt8} (hcode : code = 1 ∨ code = 2)
    (byteCount : UInt8) (values : Bytes) :
    acceptBits count (code :: byteCount :: values) =
      if values.length = byteCount.toNat ∧ values.length = packedLength count.toNat then
        .ok ((unpackAll values).take count.toNat)
      else .error (.protocol (.byteCountMismatch byteCount (packedLength count.toNat)
        values.length)) := by
  rcases hcode with rfl | rfl
  · rw [acceptBits, readResponse_coils .readCoils fun _ => rfl]
    split
    · exact congrArg (Except.ok ·) (congrArg _ (Coils.toList_ofBytes values))
    · rfl
  · rw [acceptBits, readResponse_coils .readDiscreteInputs fun _ => rfl]
    split
    · exact congrArg (Except.ok ·) (congrArg _ (Coils.toList_ofBytes values))
    · rfl

theorem acceptBits_agree {count : UInt16} {code : UInt8} (hcode : code = 1 ∨ code = 2)
    (byteCount : UInt8) {one other : Bytes} (h : AgreeUpTo count.toNat one other) :
    acceptBits count (code :: byteCount :: one) =
      acceptBits count (code :: byteCount :: other) := by
  rw [acceptBits_cons count hcode, acceptBits_cons count hcode, h.length, h.take_unpackAll]

namespace Operation

variable {unit : UInt8} {address count : UInt16} {operation : Operation}

theorem accept_agree (hread : operation = .readCoils unit address count ∨
      operation = .readDiscreteInputs unit address count)
    (code byteCount : UInt8) {one other : Bytes} (h : AgreeUpTo count.toNat one other) :
    operation.accept (code :: byteCount :: one) =
      operation.accept (code :: byteCount :: other) := by
  have hcheck : checkFunction operation.request.function (code :: byteCount :: one) =
      checkFunction operation.request.function (code :: byteCount :: other) := rfl
  rw [accept, accept, hcheck]
  cases hpassed : checkFunction operation.request.function (code :: byteCount :: other) with
  | error cause => rfl
  | ok passed =>
    rcases hread with rfl | rfl
    · have hlow : FunctionCode.readCoils.toByte < 0x80 := by decide
      obtain ⟨fields, hfields⟩ := (checkFunction_eq_ok_iff hlow).mp hpassed
      obtain ⟨rfl, -⟩ := List.cons.inj hfields
      exact congrArg (Answer.bits <$> ·) (acceptBits_agree (.inl rfl) byteCount h)
    · have hlow : FunctionCode.readDiscreteInputs.toByte < 0x80 := by decide
      obtain ⟨fields, hfields⟩ := (checkFunction_eq_ok_iff hlow).mp hpassed
      obtain ⟨rfl, -⟩ := List.cons.inj hfields
      exact congrArg (Answer.bits <$> ·) (acceptBits_agree (.inr rfl) byteCount h)

/-- A master that writes coils sends one coil as a word, and more of them alone in their bytes. -/
theorem clearFrom_sent {τ : Type} (transport : Transport τ) (unit : UInt8) (address : UInt16)
    (coils : List Bool) (t : τ) {unit' : UInt8} {pdu : Bytes}
    (h : .send unit' pdu ∈
      (((writeCoils unit address coils).perform transport.noted).run.run (t, [])).2.2) :
    (∃ state, coils = [state] ∧
      pdu = 0x05 :: (wordBytes address ++ wordBytes (coilWord state))) ∨
    ∃ byteCount values,
      pdu = 0x0F :: (wordBytes address ++ wordBytes coils.length.toUInt16 ++ byteCount :: values) ∧
      CleanBlock coils.length byteCount values := by
  cases hrefusal : (writeCoils unit address coils).refusal with
  | some cause =>
    rw [perform_refused transport.noted hrefusal] at h
    cases h
  | none =>
    have hadmissible := admissible_iff.mpr hrefusal
    have hsent : Transport.Call.send unit' pdu =
        .send unit (writeCoils unit address coils).request.pdu := by
      obtain hcalls | hcalls := calls_of_admissible transport hadmissible t
      · rw [hcalls] at h
        exact List.mem_singleton.mp h
      · rw [hcalls] at h
        exact (List.mem_cons.mp h).resolve_right nofun
    cases hsent
    rcases coils with _ | ⟨state, _ | ⟨next, rest⟩⟩
    · cases hrefusal
    · exact .inl ⟨state, rfl, rfl⟩
    · obtain ⟨-, hmax⟩ := hadmissible
      exact .inr ⟨_, _, rfl, cleanBlock_pack (Nat.le_trans hmax (by decide))⟩

end Operation

end Master

/-- Bits behind the last coil mean nothing. A device that is to write coils does the same for all
requests that differ in them only: it makes the same calls and gives the same answer. A master that
reads bits gives back the same for all responses that differ in them only. What a device answers to
a read of bits, and what a master sends to write coils, has no such bit set. -/
theorem padding_bits_ignored {σ τ τ' : Type} (service : Device.Service σ)
    (transport : Transport τ) (transport' : Transport τ') (unit : UInt8) (address : UInt16) :
    (∀ (quantity : UInt16) (byteCount : UInt8) (one other : Bytes),
      AgreeUpTo quantity.toNat one other →
      let pdu (values : Bytes) : Bytes :=
        0x0F :: (wordBytes address ++ wordBytes quantity ++ byteCount :: values)
      Device.answer service unit (pdu one) = Device.answer service unit (pdu other) ∧
      ∀ s, (Device.answer service.noted unit (pdu one)).run (s, []) =
        (Device.answer service.noted unit (pdu other)).run (s, [])) ∧
    (∀ (count : UInt16) (operation : Master.Operation),
      operation = .readCoils unit address count ∨
        operation = .readDiscreteInputs unit address count →
      operation.Admissible →
      ∀ (code byteCount : UInt8) (one other : Bytes), AgreeUpTo count.toNat one other →
      ∀ t t',
        ((transport.exchange unit operation.request.pdu).run.run t).1 =
          .ok (code :: byteCount :: one) →
        ((transport'.exchange unit operation.request.pdu).run.run t').1 =
          .ok (code :: byteCount :: other) →
        ((operation.perform transport).run.run t).1 =
          ((operation.perform transport').run.run t').1) ∧
    (∀ (code : UInt8) (data : Bytes) (s : σ) (response : Bytes), code = 1 ∨ code = 2 →
      ((Device.answer service unit (code :: data)).run s).1 = some response →
      (∃ exception : Exception, response = [code ||| 0x80, exception.code]) ∨
      ∃ address quantity byteCount values, data = wordBytes address ++ wordBytes quantity ∧
        response = code :: byteCount :: values ∧ CleanBlock quantity.toNat byteCount values) ∧
    ∀ (coils : List Bool) (t : τ) (unit' : UInt8) (pdu : Bytes),
      .send unit' pdu ∈ (((Master.Operation.writeCoils unit address coils).perform
        transport.noted).run.run (t, [])).2.2 →
      (∃ state, coils = [state] ∧
        pdu = 0x05 :: (wordBytes address ++ wordBytes (coilWord state))) ∨
      ∃ byteCount values,
        pdu =
          0x0F :: (wordBytes address ++ wordBytes coils.length.toUInt16 ++ byteCount :: values) ∧
        CleanBlock coils.length byteCount values := by
  refine ⟨?_, ?_, ?_, ?_⟩
  · intro quantity byteCount one other h pdu
    have hanswer : ∀ {σ : Type} (service : Device.Service σ),
        Device.answer service unit (pdu one) = Device.answer service unit (pdu other) :=
      fun service => Device.answer_writeCoils_agree service unit address byteCount h
    exact ⟨hanswer service, fun s => by rw [hanswer service.noted]⟩
  · intro count operation hread hadmissible code byteCount one other h t t' hone hother
    have hunit : operation.unit = unit := by rcases hread with rfl | rfl <;> rfl
    rw [Master.Operation.perform_run transport hadmissible,
      Master.Operation.perform_run transport' hadmissible, hunit, hone, hother]
    exact Master.Operation.accept_agree hread code byteCount h
  · intro code data s response hcode
    exact Device.clearFrom_answer service unit hcode
  · intro coils t unit' pdu
    exact Master.Operation.clearFrom_sent transport unit address coils t

theorem padding_bits_ignored_three_coils :
    let service := Device.Handlers.service
      { readCoils := some Device.Memory.readCoils, writeCoils := some Device.Memory.writeCoils }
    let read (response : Bytes) :=
      (((Master.Operation.readCoils 1 0 3).perform (.replying response)).run.run ()).1
    AgreeUpTo 3 [0x05] [0xFD] ∧
    (∀ memory, (Device.answer service.noted 1 [0x0F, 0, 0, 0, 3, 1, 0x05]).run (memory, []) =
      (Device.answer service.noted 1 [0x0F, 0, 0, 0, 3, 1, 0xFD]).run (memory, [])) ∧
    read [0x01, 1, 0x05] = read [0x01, 1, 0xFD] ∧
    ((Device.answer service 1 [0x01, 0, 0, 0, 3]).run
      { coils := List.replicate 8 true }).1 = some [0x01, 1, 0x07] ∧ CleanBlock 3 1 [0x07] ∧
    ∃ values, (((Master.Operation.writeCoils 1 0 [true, false, true]).perform
        (Transport.replying []).noted).run.run ((), [])).2.2 =
      [.send 1 (0x0F :: 0 :: 0 :: 0 :: 3 :: 1 :: values), .receive 1] ∧ CleanBlock 3 1 values := by
  intro service read
  have hagree : AgreeUpTo 3 [0x05] [0xFD] := ⟨rfl, by decide⟩
  obtain ⟨hwrite, hread, hanswer, hsent⟩ := padding_bits_ignored service
    (Transport.replying [0x01, 1, 0x05]) (Transport.replying [0x01, 1, 0xFD]) 1 0
  obtain ⟨-, -, -, hempty⟩ :=
    padding_bits_ignored service (Transport.replying []) (.replying []) 1 0
  have hresponse : ((Device.answer service 1 [0x01, 0, 0, 0, 3]).run
      { coils := List.replicate 8 true }).1 = some [0x01, 1, 0x07] := by decide +kernel
  have hcalls : (((Master.Operation.writeCoils 1 0 [true, false, true]).perform
      (Transport.replying []).noted).run.run ((), [])).2.2 =
        [.send 1 [0x0F, 0, 0, 0, 3, 1, 0x05], .receive 1] := by decide +kernel
  refine ⟨hagree, (hwrite 3 1 [0x05] [0xFD] hagree).2, ?_, hresponse, ?_, [0x05], hcalls, ?_⟩
  · exact hread 3 (.readCoils 1 0 3) (.inl rfl) ⟨by decide, by decide⟩ 0x01 1 [0x05] [0xFD] hagree
      () () rfl rfl
  · obtain ⟨exception, hcode⟩ | ⟨address, quantity, byteCount, values, hdata, hvalues, hclean⟩ :=
      hanswer 0x01 [0, 0, 0, 3] _ _ (.inl rfl) hresponse
    · cases congrArg List.length hcode
    · cases hvalues
      obtain rfl : quantity = 3 := by
        have hwords := congrArg Fields.twoWords hdata
        rw [Fields.twoWords_wordBytes] at hwords
        cases hwords
        rfl
      exact hclean
  · obtain ⟨state, hone, -⟩ | ⟨byteCount, values, hpdu, hclean⟩ := hempty [true, false, true] ()
      1 [0x0F, 0, 0, 0, 3, 1, 0x05] (by rw [hcalls]; exact List.mem_cons_self)
    · cases congrArg List.length hone
    · obtain ⟨rfl, rfl⟩ : 1 = byteCount ∧ [0x05] = values := by
        have hbehind : [1, 0x05] = byteCount :: values := congrArg (List.drop 5) hpdu
        exact List.cons.inj hbehind
      exact hclean

end Modbus
