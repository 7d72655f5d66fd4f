import Modbus.Proofs.Exchange

/-! What a master makes of the PDUs that a device writes. The function code
tells responses to its request and exceptions from all other bytes. A response
is accepted with the values that were put in, and an exception comes out as
that exception. -/

namespace Modbus.Master

/-- A byte is its low seven bits, with the high bit added or not. -/
private theorem byte_bits : ∀ byte : BitVec 8,
    byte = byte &&& 0x7F#8 ∨ byte = (byte &&& 0x7F#8) + 0x80#8 := by
  decide +kernel

/-- The high bit of a function code marks an exception, and the other bits are the code. -/
private theorem function_bits : ∀ code : BitVec 8, code < 0x80#8 →
    code &&& 0x7F#8 = code ∧ code &&& 0x80#8 = 0#8 ∧ (code + 0x80#8) &&& 0x7F#8 = code ∧
      (code + 0x80#8) &&& 0x80#8 ≠ 0#8 ∧ ¬ code + 0x80#8 < 0x80#8 ∧
      code ||| 0x80#8 = code + 0x80#8 := by
  decide +kernel

section CheckFunction

variable {function : FunctionCode} (hlow : function.toByte < 0x80)

include hlow

theorem checkFunction_own (fields : Bytes) :
    checkFunction function (function.toByte :: fields) = .ok () := by
  obtain ⟨hcode, hhigh, -⟩ := function_bits function.toByte.toBitVec hlow
  have hcode' : function.toByte &&& 0x7F = function.toByte := UInt8.toBitVec_inj.mp hcode
  have hhigh' : function.toByte &&& 0x80 = 0 := UInt8.toBitVec_inj.mp hhigh
  rw [checkFunction, hcode', hhigh', if_neg (by simp), if_pos rfl]

/-- The byte behind a marked function code decides. -/
theorem checkFunction_marked (rest : Bytes) :
    checkFunction function ((function.toByte + 0x80) :: rest) =
      match rest.head? with
      | none => .error (.protocol .bufferSize)
      | some code =>
        match Exception.ofCode? code with
        | some exception => .error (.exception exception)
        | none => .error (.protocol (.exceptionCode code)) := by
  obtain ⟨-, -, hcode, hhigh, hmark, -⟩ := function_bits function.toByte.toBitVec hlow
  have hcode' : (function.toByte + 0x80) &&& 0x7F = function.toByte := UInt8.toBitVec_inj.mp hcode
  have hhigh' : ¬ (function.toByte + 0x80) &&& 0x80 = 0 := fun h =>
    hhigh (congrArg UInt8.toBitVec h)
  have hmark' : ¬ function.toByte + 0x80 < 0x80 := hmark
  rw [checkFunction, hcode', if_neg (by simp), if_neg hhigh']
  cases rest with
  | nil => rfl
  | cons code rest =>
    simp only [ExceptionResponse.ofPdu, hmark', if_false, List.head?_cons]
    cases Exception.ofCode? code <;> rfl

omit hlow in
theorem checkFunction_other {code : UInt8} (hown : code ≠ function.toByte)
    (hmarked : code ≠ function.toByte + 0x80) (rest : Bytes) :
    checkFunction function (code :: rest) =
      .error (.protocol (.functionMismatch function code)) := by
  have hother : code &&& 0x7F ≠ function.toByte := by
    intro heq
    rcases byte_bits code.toBitVec with hbyte | hbyte
    · exact hown (heq ▸ UInt8.toBitVec_inj.mp hbyte)
    · exact hmarked (heq ▸ UInt8.toBitVec_inj.mp hbyte)
  rw [checkFunction, if_pos hother]

/-- The bytes that pass, those that tell of an exception, and all others. -/
theorem checkFunction_cases (response : Bytes) :
    (∃ fields, response = function.toByte :: fields ∧ checkFunction function response = .ok ()) ∨
    (∃ exception rest, response = (function.toByte + 0x80) :: Exception.code exception :: rest ∧
      checkFunction function response = .error (.exception exception)) ∨
    ∃ cause, checkFunction function response = .error (.protocol cause) := by
  rcases response with _ | ⟨code, rest⟩
  · exact .inr (.inr ⟨_, rfl⟩)
  by_cases hown : code = function.toByte
  · exact .inl ⟨rest, by rw [hown], by rw [hown, checkFunction_own hlow]⟩
  by_cases hmarked : code = function.toByte + 0x80
  · rw [hmarked, checkFunction_marked hlow]
    rcases rest with _ | ⟨second, rest⟩
    · exact .inr (.inr ⟨_, rfl⟩)
    · cases hexception : Exception.ofCode? second with
      | none => exact .inr (.inr ⟨.exceptionCode second, by simp [hexception]⟩)
      | some exception =>
        refine .inr (.inl ⟨exception, rest, ?_, by simp [hexception]⟩)
        rw [Exception.code_of_ofCode? hexception]
  · exact .inr (.inr ⟨_, checkFunction_other hown hmarked rest⟩)

theorem checkFunction_eq_ok_iff {response : Bytes} :
    checkFunction function response = .ok () ↔ ∃ fields, response = function.toByte :: fields := by
  constructor
  · intro h
    obtain ⟨fields, hown, -⟩ | ⟨_, _, -, herror⟩ | ⟨_, herror⟩ := checkFunction_cases hlow response
    · exact ⟨fields, hown⟩
    all_goals simp [h] at herror
  · rintro ⟨fields, rfl⟩
    exact checkFunction_own hlow fields

theorem checkFunction_eq_exception_iff {response : Bytes} {exception : Exception} :
    checkFunction function response = .error (.exception exception) ↔
      ∃ rest, response = (function.toByte + 0x80) :: exception.code :: rest := by
  constructor
  · intro h
    obtain ⟨_, -, hok⟩ | ⟨_, rest, hmarked, herror⟩ | ⟨_, herror⟩ :=
      checkFunction_cases hlow response
    · simp [h] at hok
    · rw [h] at herror
      cases herror
      exact ⟨rest, hmarked⟩
    · simp [h] at herror
  · rintro ⟨rest, rfl⟩
    simp [checkFunction_marked hlow, Exception.ofCode?_code]

theorem checkFunction_pdu {response : Response} (hfun : response.function = function) :
    checkFunction function response.pdu = .ok () := by
  rw [Response.pdu, hfun, checkFunction_own hlow]

theorem checkFunction_exception (exception : Exception) :
    checkFunction function (ExceptionResponse.pdu ⟨function, exception⟩) =
      .error (.exception exception) := by
  obtain ⟨-, -, -, -, -, hor⟩ := function_bits function.toByte.toBitVec hlow
  have hor' : function.toByte ||| 0x80 = function.toByte + 0x80 := UInt8.toBitVec_inj.mp hor
  exact (checkFunction_eq_exception_iff hlow).mpr ⟨[], by rw [ExceptionResponse.pdu, hor']⟩

end CheckFunction

theorem readResponse_pdu (response : Response) (hcat : response.OutsideCatalogue)
    (hfits : response.Fits) {declared : UInt8} {values : Bytes}
    (hfields : response.fields = declared :: values) :
    readResponse values.length response.pdu = .ok response.widened := by
  have hread := Response.ofPdu_pdu hcat hfits
  rw [Response.pdu, hfields] at hread ⊢
  simp only [readResponse, hread, if_true]

theorem take_toList_ofBytes (coils : List Bool) :
    (Coils.ofBytes (Bits.pack coils)).toList.take coils.length = coils := by
  rw [Coils.toList_ofBytes, Bits.take_unpackAll_pack]

/-- The bits behind the last coil are cut off again. -/
theorem acceptBits_pdu {count : UInt16} {values : List Bool} {response : Response}
    (hresponse : response = .readCoils (.ofList values) ∨
      response = .readDiscreteInputs (.ofList values))
    (hlen : values.length = count.toNat) (hmax : count.toNat ≤ 2000) :
    acceptBits count response.pdu = .ok values := by
  have hfits : values.length ≤ 2040 := by omega
  have hbytes : Bits.packedLength count.toNat = (Bits.pack values).length := by
    rw [Bits.length_pack, hlen]
  have htake := take_toList_ofBytes values
  rw [hlen] at htake
  rcases hresponse with rfl | rfl
  · have hread : readResponse (Bits.pack values).length
        (Response.readCoils (.ofList values)).pdu = _ :=
      readResponse_pdu (.readCoils (.ofList values)) trivial hfits rfl
    rw [acceptBits, hbytes, hread]
    exact congrArg Except.ok htake
  · have hread : readResponse (Bits.pack values).length
        (Response.readDiscreteInputs (.ofList values)).pdu = _ :=
      readResponse_pdu (.readDiscreteInputs (.ofList values)) trivial hfits rfl
    rw [acceptBits, hbytes, hread]
    exact congrArg Except.ok htake

theorem acceptWords_pdu {count : UInt16} {values : List UInt16} {response : Response}
    (hresponse : response = .readHoldingRegisters (.ofList values) ∨
      response = .readInputRegisters (.ofList values))
    (hlen : values.length = count.toNat) (hmax : count.toNat ≤ 123) :
    acceptWords count response.pdu = .ok values := by
  have hfits : values.length ≤ 127 := by omega
  have hbytes : 2 * count.toNat = (Words.bytes values).length := by
    rw [Words.length_bytes, hlen]
  have hlist : (Registers.ofList values).toList = values := Registers.toList_ofList values
  rcases hresponse with rfl | rfl
  · have hread : readResponse (Words.bytes values).length
        (Response.readHoldingRegisters (.ofList values)).pdu = _ :=
      readResponse_pdu (.readHoldingRegisters (.ofList values)) trivial hfits rfl
    rw [acceptWords, hbytes, hread]
    exact congrArg Except.ok hlist
  · have hread : readResponse (Words.bytes values).length
        (Response.readInputRegisters (.ofList values)).pdu = _ :=
      readResponse_pdu (.readInputRegisters (.ofList values)) trivial hfits rfl
    rw [acceptWords, hbytes, hread]
    exact congrArg Except.ok hlist

theorem checkEcho_pdu (response : Response) {address value : UInt16}
    (hcat : response.OutsideCatalogue) (hfits : response.Fits)
    (hecho : echoed response.widened = .ok (address, value)) :
    checkEcho address value response.pdu = .ok () := by
  rw [checkEcho, Response.ofPdu_pdu hcat hfits]
  simp [hecho, bind, Except.bind, pure, Except.pure]

end Modbus.Master
