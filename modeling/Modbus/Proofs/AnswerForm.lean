import Modbus.Proofs.DeviceCalls

/-! The form of what a device answers. Whatever its service does, the answer to
a request is an exception for the function of the request, or a response that
holds what the service gave back, byte for byte, and fits a frame. -/

namespace Modbus

namespace Bits

theorem getElem?_packBytes {count index : Nat} (h : index < count) (coils : List Bool) :
    (packBytes count coils)[index]? = some (packByte ((coils.drop (8 * index)).take 8)) := by
  induction count generalizing coils index with
  | zero => omega
  | succ count ih =>
    cases index with
    | zero => rfl
    | succ index =>
      rw [packBytes, List.getElem?_cons_succ, ih (by omega), List.drop_drop, Nat.mul_succ,
        Nat.add_comm]

theorem testBit_pack {coils : List Bool} {i : Nat} (h : i < 8 * (pack coils).length) :
    ((pack coils).getD (i / 8) 0).toNat.testBit (i % 8) = coils.getD i false := by
  rw [length_pack] at h
  have hbyte : i / 8 < packedLength coils.length := by omega
  have hbit : i % 8 < 8 := Nat.mod_lt i (by decide)
  rw [List.getD_eq_getElem?_getD, pack, getElem?_packBytes hbyte, Option.getD_some,
    testBit_packByte _ _ hbit, List.getD_eq_getElem?_getD, List.getElem?_take_of_lt hbit,
    List.getElem?_drop, Nat.div_add_mod, List.getD_eq_getElem?_getD]

end Bits

namespace Device

variable {σ : Type}

/-- The values stand in the bytes, eight to a byte and the first one in the lowest bit. The bits
behind the last value are zero. -/
def Packed (values : List Bool) (bytes : Bytes) : Prop :=
  bytes.length = (values.length + 7) / 8 ∧
  ∀ i < 8 * bytes.length, (bytes.getD (i / 8) 0).toNat.testBit (i % 8) = values.getD i false

theorem packed_pack (values : List Bool) : Packed values (Bits.pack values) :=
  ⟨Bits.length_pack values, fun _ h => Bits.testBit_pack h⟩

/-- The codes of the reads and writes that have calls of their own. -/
def valueCodes : List UInt8 := [1, 2, 3, 4, 5, 6, 15, 16]

/-- What the service gives back to the one or the other read of bits, told by its code. -/
def GivesBits (service : Service σ) (unit : UInt8) (s : σ) (code : UInt8)
    (address quantity : UInt16) (values : List Bool) : Prop :=
  code = 1 ∧ ((service.handle (.readCoils unit address quantity)).run s).1 = .value values ∨
  code = 2 ∧ ((service.handle (.readDiscreteInputs unit address quantity)).run s).1 = .value values

/-- What the service gives back to the one or the other read of registers. -/
def GivesWords (service : Service σ) (unit : UInt8) (s : σ) (code : UInt8)
    (address quantity : UInt16) (values : List UInt16) : Prop :=
  code = 3 ∧
    ((service.handle (.readHoldingRegisters unit address quantity)).run s).1 = .value values ∨
  code = 4 ∧
    ((service.handle (.readInputRegisters unit address quantity)).run s).1 = .value values

/-- The responses that a request can have when it was carried out in a state, with what the
service gave back. -/
inductive Fulfils (service : Service σ) (unit : UInt8) (s : σ) : Bytes → Bytes → Prop where
  | bits {code address quantity count packed} {values : List Bool}
    (hcall : GivesBits service unit s code address quantity values)
    (hlen : values.length = quantity.toNat) (hcount : count.toNat = (quantity.toNat + 7) / 8)
    (hpacked : Packed values packed) :
    Fulfils service unit s (code :: (wordBytes address ++ wordBytes quantity))
      (code :: count :: packed)
  | words {code address quantity count} {values : List UInt16}
    (hcall : GivesWords service unit s code address quantity values)
    (hlen : values.length = quantity.toNat) (hcount : count.toNat = 2 * quantity.toNat) :
    Fulfils service unit s (code :: (wordBytes address ++ wordBytes quantity))
      (code :: count :: values.flatMap wordBytes)
  | echo {code data} (hcode : code = 5 ∨ code = 6 ∨ code = 15 ∨ code = 16)
    (hlen : 4 ≤ data.length) :
    Fulfils service unit s (code :: data) ((code :: data).take 5)
  | function {code data answer} (hcode : code ∉ valueCodes)
    (hcall : ((service.handle (.function unit code data)).run s).1 = .value (some answer))
    (hlen : answer.length ≤ 252) :
    Fulfils service unit s (code :: data) (code :: answer)

section Forms

variable {service : Service σ} {unit : UInt8} {s : σ} {code : UInt8} {address quantity : UInt16}

/-- Coils in the number that was asked for are packed into the response. -/
theorem fulfils_bits (form : List Bool → Response) {values : List Bool} {response : Response}
    (hcall : GivesBits service unit s code address quantity values)
    (hmax : quantity.toNat ≤ 2000)
    (hform : (form values).pdu = code :: (Bits.pack values).length.toUInt8 :: Bits.pack values)
    (h : Request.readConclusion quantity form values = .ok response) :
    Fulfils service unit s (code :: (wordBytes address ++ wordBytes quantity)) response.pdu := by
  unfold Request.readConclusion at h
  split at h
  · next hlen =>
    cases h
    rw [hform]
    refine .bits hcall hlen ?_ (packed_pack values)
    rw [Bits.length_pack, Bits.packedLength, toNat_toUInt8 (by omega), hlen]
  · cases h

theorem fulfils_words (form : List UInt16 → Response) {values : List UInt16} {response : Response}
    (hcall : GivesWords service unit s code address quantity values)
    (hmax : quantity.toNat ≤ 125)
    (hform : (form values).pdu = code :: (Words.bytes values).length.toUInt8 :: Words.bytes values)
    (h : Request.readConclusion quantity form values = .ok response) :
    Fulfils service unit s (code :: (wordBytes address ++ wordBytes quantity)) response.pdu := by
  unfold Request.readConclusion at h
  split at h
  · next hlen =>
    cases h
    rw [hform]
    refine .words hcall hlen ?_
    rw [Words.length_bytes, toNat_toUInt8 (by omega), hlen]
  · cases h

theorem fulfils_function {data : Bytes} (hcode : code ∉ valueCodes) {answer : Option Bytes}
    (hcall : ((service.handle (.function unit code data)).run s).1 = .value answer)
    (hform : ∀ back, (Response.custom code back).pdu = code :: back) {response : Response}
    (h : Request.functionConclusion code answer = .ok response) :
    Fulfils service unit s (code :: data) response.pdu := by
  cases answer with
  | none => cases h
  | some back =>
    rw [Request.functionConclusion] at h
    split at h
    · cases h
    · cases h
      rw [hform]
      exact .function hcode hcall (by omega)

end Forms

theorem custom_notMem_valueCodes {code : UInt8} (h : FunctionCode.ofByte code = .custom code) :
    code ∉ valueCodes := by
  rintro hmem
  simp only [valueCodes, List.mem_cons, List.not_mem_nil, or_false] at hmem
  rcases hmem with rfl | rfl | rfl | rfl | rfl | rfl | rfl | rfl <;> cases h

/-- A request whose call gave back a value is answered with that value. -/
theorem fulfils_of_conclude (service : Service σ) (unit : UInt8) (s : σ) {request : Request}
    {code : UInt8} {data : Bytes} (hpdu : request.pdu = code :: data)
    (hcat : request.OutsideCatalogue) (hblock : ∀ block ∈ request.block?, block.Allowed)
    {value : (request.call unit data).Answer}
    (hcall : ((service.handle (request.call unit data)).run s).1 = .value value)
    {response : Response} (hconclude : request.conclude unit data value = .ok response) :
    Fulfils service unit s (code :: data) response.pdu := by
  cases request with
  | readCoils address quantity =>
    cases hpdu
    have hmax := (hblock _ rfl).2
    exact fulfils_bits (.readCoils <| .ofList ·) (.inl ⟨rfl, hcall⟩) hmax rfl hconclude
  | readDiscreteInputs address quantity =>
    cases hpdu
    have hmax := (hblock _ rfl).2
    exact fulfils_bits (.readDiscreteInputs <| .ofList ·) (.inr ⟨rfl, hcall⟩) hmax rfl hconclude
  | readHoldingRegisters address quantity =>
    cases hpdu
    have hmax := (hblock _ rfl).2
    exact fulfils_words (.readHoldingRegisters <| .ofList ·) (.inl ⟨rfl, hcall⟩) hmax rfl hconclude
  | readInputRegisters address quantity =>
    cases hpdu
    have hmax := (hblock _ rfl).2
    exact fulfils_words (.readInputRegisters <| .ofList ·) (.inr ⟨rfl, hcall⟩) hmax rfl hconclude
  | writeSingleCoil =>
    cases hpdu
    cases hconclude
    exact .echo (.inl rfl) (Nat.le_refl 4)
  | writeSingleRegister =>
    cases hpdu
    cases hconclude
    exact .echo (.inr (.inl rfl)) (Nat.le_refl 4)
  | writeMultipleCoils =>
    cases hpdu
    cases hconclude
    exact .echo (.inr (.inr (.inl rfl))) (Nat.le_add_left 4 _)
  | writeMultipleRegisters =>
    cases hpdu
    cases hconclude
    exact .echo (.inr (.inr (.inr rfl))) (Nat.le_add_left 4 _)
  | writeFileRecord record =>
    cases hpdu
    exact fulfils_function (by decide) hcall (fun _ => rfl) hconclude
  | custom other back =>
    have hother : FunctionCode.ofByte other = .custom other := hcat
    obtain ⟨hcode, hdata⟩ := List.cons.inj hpdu
    rw [Request.function, FunctionCode.toByte_ofByte] at hcode
    subst hcode
    refine fulfils_function (custom_notMem_valueCodes hother) hcall (fun back => ?_) hconclude
    rw [Response.pdu, Response.function, FunctionCode.toByte_ofByte]
    rfl

namespace Fulfils

variable {service : Service σ} {unit : UInt8} {s : σ} {code : UInt8} {data response : Bytes}

theorem head?_eq (h : Fulfils service unit s (code :: data) response) :
    response.head? = some code := by
  cases h <;> rfl

/-- Only what the service gave back for other functions can be empty. -/
theorem two_le_length (h : Fulfils service unit s (code :: data) response) :
    2 ≤ response.length ∨ response = [code] ∧ code ∉ valueCodes ∧
      ((service.handle (.function unit code data)).run s).1 = .value (some []) := by
  cases h with
  | bits | words => exact .inl (Nat.le_add_left 2 _)
  | echo _ hlen =>
    rw [List.length_take, List.length_cons]
    omega
  | @function _ _ back hcode hcall _ =>
    cases back with
    | nil => exact .inr ⟨rfl, hcode, hcall⟩
    | cons => exact .inl (Nat.le_add_left 2 _)

end Fulfils

/-- A request is refused, or it leads to its call and is answered with the outcome. -/
theorem perform_fulfils (service : Service σ) (unit : UInt8) {s : σ} {request : Request}
    {code : UInt8} {data response : Bytes} (hpdu : request.pdu = code :: data)
    (hcat : request.OutsideCatalogue)
    (h : ((perform service unit data request).run.run s).1 = .ok response) :
    Fulfils service unit s (code :: data) response := by
  have hallowed : ∀ block ∈ request.block?, block.Allowed := by
    intro block hblock
    refine Decidable.byContradiction fun hnot => ?_
    rw [perform_refused service unit data hblock (Block.check_not_allowed hnot)] at h
    cases h
  have hin : ∀ block ∈ request.block?, block.InRange := by
    intro block hblock
    refine Decidable.byContradiction fun hnot => ?_
    rw [perform_refused service unit data hblock
      (Block.check_not_inRange (hallowed block hblock) hnot)] at h
    cases h
  rw [perform_judged service unit data fun block hblock =>
    ⟨hallowed block hblock, hin block hblock⟩] at h
  change Outcome.judged _ ((service.handle (request.call unit data)).run s).1 = _ at h
  cases hcall : ((service.handle (request.call unit data)).run s).1 with
  | exception cause =>
    rw [hcall] at h
    cases h
  | panic =>
    rw [hcall] at h
    cases h
  | value value =>
    rw [hcall, Outcome.judged] at h
    cases hconclude : request.conclude unit data value with
    | error cause =>
      rw [hconclude] at h
      cases h
    | ok answer =>
      rw [hconclude] at h
      cases h
      exact fulfils_of_conclude service unit s hpdu hcat hallowed hcall hconclude

theorem serve_fulfils (service : Service σ) (unit : UInt8) {s : σ} {code : UInt8}
    {data response : Bytes} (h : ((serve service unit code data).run.run s).1 = .ok response) :
    Fulfils service unit s (code :: data) response := by
  cases hsupports : service.supports (.ofByte code) with
  | false =>
    rw [serve_unsupported service unit data hsupports] at h
    cases h
  | true =>
    cases hread : Request.ofPdu (code :: data) with
    | error cause =>
      rw [serve_unreadable service unit hsupports hread] at h
      cases h
    | ok request =>
      obtain ⟨hpdu, hcat, -⟩ := Request.of_ofPdu hread
      rw [serve_readable service unit hsupports hread] at h
      exact perform_fulfils service unit hpdu hcat h

theorem answer_eq_none_iff (service : Service σ) (unit : UInt8) (pdu : Bytes) (s : σ) :
    ((answer service unit pdu).run s).1 = none ↔
      pdu = [] ∨ ∃ code data, pdu = code :: data ∧ 0x80 ≤ code := by
  cases pdu with
  | nil => exact ⟨fun _ => .inl rfl, fun _ => rfl⟩
  | cons code data =>
    by_cases hcode : 0x80 ≤ code
    · rw [answer, if_pos hcode]
      exact ⟨fun _ => .inr ⟨code, data, rfl, hcode⟩, fun _ => rfl⟩
    · rw [answer_run service unit data (UInt8.not_le.mp hcode)]
      constructor
      · intro h
        cases h
      · rintro (h | ⟨code, data, h, hhigh⟩)
        · cases h
        · cases h
          exact absurd hhigh hcode

/-- An answer is an exception for the function of the request or fulfils the request. -/
theorem answer_cons_wellFormed (service : Service σ) (unit : UInt8) {code : UInt8} (data : Bytes)
    (hcode : code < 0x80) {s : σ} {response : Bytes}
    (h : ((answer service unit (code :: data)).run s).1 = some response) :
    ((∃ exception : Exception, response = [code ||| 0x80, exception.code]) ∨
      response.head? = some code ∧ Fulfils service unit s (code :: data) response) ∧
    (2 ≤ response.length ∨ response = [code] ∧ code ∉ valueCodes ∧
      ((service.handle (.function unit code data)).run s).1 = .value (some [])) := by
  rw [answer_run service unit data hcode] at h
  cases hserve : ((serve service unit code data).run.run s).1 with
  | error exception =>
    rw [hserve, responsePdu, ExceptionResponse.pdu, FunctionCode.toByte_ofByte] at h
    cases h
    exact ⟨.inl ⟨exception, rfl⟩, .inl (Nat.le_refl 2)⟩
  | ok pdu =>
    rw [hserve] at h
    cases h
    have hfulfils := serve_fulfils service unit hserve
    exact ⟨.inr ⟨hfulfils.head?_eq, hfulfils⟩, hfulfils.two_le_length⟩

/-- Every PDU that is a request is answered, and every answer is a well-formed response to its
request: an exception for its function, or what the service gave back. -/
theorem answer_wellFormed (service : Service σ) (unit : UInt8) (pdu : Bytes) (s : σ) :
    let answered := ((answer service unit pdu).run s).1
    (answered = none ↔ pdu = [] ∨ ∃ code data, pdu = code :: data ∧ 0x80 ≤ code) ∧
    ∀ response, answered = some response → ∃ code data, pdu = code :: data ∧
      ((∃ exception : Exception, response = [code ||| 0x80, exception.code]) ∨
        response.head? = some code ∧ Fulfils service unit s pdu response) ∧
      (2 ≤ response.length ∧ response.length ≤ 253 ∨
        response = [code] ∧ code ∉ valueCodes ∧
          ((service.handle (.function unit code data)).run s).1 = .value (some [])) := by
  intro answered
  refine ⟨answer_eq_none_iff service unit pdu s, ?_⟩
  intro response (hanswered : ((answer service unit pdu).run s).1 = some response)
  cases pdu with
  | nil => cases hanswered
  | cons code data =>
    have hcode : code < 0x80 := by
      refine UInt8.not_le.mp fun hhigh => ?_
      have hnone := (answer_eq_none_iff service unit _ s).mpr (.inr ⟨code, data, rfl, hhigh⟩)
      cases hanswered.symm.trans hnone
    obtain ⟨hform, hlen⟩ := answer_cons_wellFormed service unit data hcode hanswered
    obtain ⟨carried, s', hrun, -, hmax⟩ := answer_carried service unit data hcode s
    rw [hrun] at hanswered
    cases hanswered
    exact ⟨code, data, rfl, hform, hlen.imp_left (⟨·, hmax⟩)⟩

theorem answer_wellFormed_ten_coils :
    let service := Handlers.service { readCoils := some Memory.readCoils }
    let coils := [true, false, true, true, false, false, false, false, true, true]
    let answered := ((answer service 1 [1, 0, 0, 0, 10]).run { coils }).1
    answered = some [1, 2, 0x0D, 3] ∧
      Fulfils service 1 { coils } [1, 0, 0, 0, 10] [1, 2, 0x0D, 3] := by
  intro service coils answered
  have hanswered : ((answer service 1 [1, 0, 0, 0, 10]).run { coils }).1 =
    some [1, 2, 0x0D, 3] := by decide +kernel
  obtain ⟨-, hform⟩ := answer_wellFormed service 1 [1, 0, 0, 0, 10] { coils }
  obtain ⟨code, data, -, hform, -⟩ := hform _ hanswered
  rcases hform with ⟨exception, hform⟩ | ⟨-, hfulfils⟩
  · cases congrArg List.length hform
  · exact ⟨hanswered, hfulfils⟩

end Device

end Modbus
