import Modbus.Proofs.Judgement
import Modbus.Proofs.ResponseCodec

/-! A read succeeds exactly on a response that carries its function, a byte
count, and as many bytes as its values need; what it gives back are the bits or
words of these bytes. Its checks never look for a byte behind the end. -/

namespace Modbus

namespace Bits

/-- A coil stands in the place of its index, over all bytes. -/
theorem getElem_unpackAll (bytes : Bytes) (i : Nat) (hi : i < (unpackAll bytes).length) :
    (unpackAll bytes)[i] = (bytes.getD (i / 8) 0).toNat.testBit (i % 8) := by
  induction bytes generalizing i with
  | nil => simp [unpackAll] at hi
  | cons byte bytes ih =>
    simp only [unpackAll, List.flatMap_cons]
    by_cases hfirst : i < 8
    · rw [List.getElem_append_left (by rwa [length_unpackByte])]
      simp [unpackByte, Nat.div_eq_of_lt hfirst, Nat.mod_eq_of_lt hfirst]
    · rw [List.getElem_append_right (by rw [length_unpackByte]; omega)]
      have hrest : i - 8 < (unpackAll bytes).length := by
        rw [length_unpackAll, List.length_cons] at hi
        rw [length_unpackAll]
        omega
      have hplace := ih (i - 8) hrest
      have hbyte : i / 8 = (i - 8) / 8 + 1 := by omega
      have hbit : (i - 8) % 8 = i % 8 := by omega
      simp only [length_unpackByte, hbyte, List.getD_cons_succ, ← hbit]
      exact hplace

end Bits

namespace Master

/-- Coil `i` is bit `i % 8` of byte `i / 8`. -/
def bitsOf (count : Nat) (payload : Bytes) : List Bool :=
  (List.range count).map fun i => (payload.getD (i / 8) 0).toNat.testBit (i % 8)

/-- Register `i` is in the bytes `2 * i` and `2 * i + 1`, the high one first. -/
def wordsOf (count : Nat) (payload : Bytes) : List UInt16 :=
  (List.range count).map fun i =>
    (256 * (payload.getD (2 * i) 0).toNat + (payload.getD (2 * i + 1) 0).toNat).toUInt16

theorem take_unpackAll_eq_bitsOf {count : Nat} {payload : Bytes}
    (h : count ≤ 8 * payload.length) :
    (Bits.unpackAll payload).take count = bitsOf count payload := by
  apply List.ext_getElem
  · simp only [bitsOf, List.length_take, Bits.length_unpackAll, List.length_map, List.length_range]
    omega
  · intro i _ _
    simp [bitsOf, Bits.getElem_unpackAll]

theorem word_eq_toUInt16 (high low : UInt8) :
    word high low = (256 * high.toNat + low.toNat).toUInt16 := by
  have hhigh := high.toNat_lt
  have hlow := low.toNat_lt
  apply UInt16.toNat_inj.mp
  rw [word_toNat, toNat_toUInt16 (by omega)]

/-- The words of byte pairs, the first pair and those behind it. -/
theorem ofPairs_eq_wordsOf : {count : Nat} → {payload : Bytes} → payload.length = 2 * count →
    Words.ofPairs payload = wordsOf count payload
  | 0, [], _ => rfl
  | count + 1, high :: low :: rest, h => by
    have hrest : rest.length = 2 * count := by
      simp only [List.length_cons] at h
      omega
    rw [Words.ofPairs, ofPairs_eq_wordsOf hrest, wordsOf, wordsOf, List.range_succ_eq_map,
      List.map_cons, List.map_map, word_eq_toUInt16]
    rfl

/-- A response with the given code and `size` bytes of values behind their length. -/
def Counted (code : UInt8) (size : Nat) (payload response : Bytes) : Prop :=
  ∃ length : UInt8, response = code :: length :: payload ∧ length.toNat = payload.length ∧
    payload.length = size

theorem Counted.length_payload {code : UInt8} {size : Nat} {payload response : Bytes}
    (h : Counted code size payload response) : payload.length = size := by
  obtain ⟨-, -, -, hsize⟩ := h
  exact hsize

theorem counted_eq_ok_iff {fields payload : Bytes} :
    Fields.counted fields = .ok payload ↔
      ∃ length : UInt8, fields = length :: payload ∧ length.toNat = payload.length := by
  constructor
  · intro h
    obtain ⟨hfields, hmax⟩ := Fields.eq_of_counted h
    exact ⟨_, hfields, toNat_toUInt8 (by omega)⟩
  · rintro ⟨length, rfl, hlength⟩
    rw [Fields.counted, if_pos hlength.symm]

theorem countedWords_eq_ok_iff {fields : Bytes} {registers : Registers} :
    Fields.countedWords fields = .ok registers ↔
      ∃ length : UInt8, fields = length :: registers.bytes ∧
        length.toNat = registers.bytes.length := by
  constructor
  · intro h
    obtain ⟨hfields, hmax⟩ := Fields.eq_of_countedWords h
    have hbytes := registers.length_bytes
    exact ⟨_, hfields, toNat_toUInt8 (by omega)⟩
  · rintro ⟨length, rfl, hlength⟩
    obtain ⟨hcount, hmax⟩ := length_toUInt8 hlength.symm
    have hbytes := registers.length_bytes
    rw [← hcount]
    exact Fields.countedWords_cons registers (by omega)

theorem readResponse_eq_ok_iff {expected : Nat} {pdu : Bytes} {response : Response} :
    readResponse expected pdu = .ok response ↔ Response.ofPdu pdu = .ok response ∧
      ∃ code declared values, pdu = code :: declared :: values ∧ values.length = expected := by
  constructor
  · intro h
    unfold readResponse at h
    split at h
    · next code declared values hread =>
      split at h <;> cases h
      next hlength => exact ⟨hread, code, declared, values, rfl, hlength⟩
    all_goals cases h
  · rintro ⟨hread, code, declared, values, rfl, hlength⟩
    simp only [readResponse, hread, if_pos hlength]

/-- An outcome that is known up to its form. -/
theorem map_eq_ok_iff {ε α β γ : Type} {outcome : Except ε α} {holds : γ → Prop} {value : γ → α}
    (h : ∀ a, outcome = .ok a ↔ ∃ c, holds c ∧ a = value c) (f : α → β) {b : β} :
    f <$> outcome = .ok b ↔ ∃ c, holds c ∧ b = f (value c) := by
  rw [map_eq_ok]
  constructor
  · rintro ⟨a, ha, rfl⟩
    obtain ⟨c, hc, rfl⟩ := (h a).mp ha
    exact ⟨c, hc, rfl⟩
  · rintro ⟨c, hc, rfl⟩
    exact ⟨value c, (h _).mpr ⟨c, hc, rfl⟩, rfl⟩

/-- A read response is accepted with the values that it has as many bytes of as expected. -/
theorem readResponse_counted_iff {α : Type} {code : UInt8} {fields : Bytes}
    {read : Except ProtocolError α} {wrap : α → Response} {payload : α → Bytes}
    (hofPdu : Response.ofPdu (code :: fields) = wrap <$> read)
    (hread : ∀ a, read = .ok a ↔
      ∃ length : UInt8, fields = length :: payload a ∧ length.toNat = (payload a).length)
    {expected : Nat} {response : Response} :
    readResponse expected (code :: fields) = .ok response ↔
      ∃ a, Counted code expected (payload a) (code :: fields) ∧ wrap a = response := by
  -- reading ties the byte count to the payload, and `expected` ties the payload to the request
  rw [readResponse_eq_ok_iff, hofPdu, map_eq_ok]
  constructor
  · rintro ⟨⟨a, ha, hwrap⟩, _, _, _, hbytes, hexpected⟩
    obtain ⟨length, rfl, hlength⟩ := (hread a).mp ha
    cases hbytes
    exact ⟨a, ⟨_, rfl, hlength, hexpected⟩, hwrap⟩
  · rintro ⟨a, ⟨length, hfields, hlength, hexpected⟩, hwrap⟩
    obtain ⟨-, rfl⟩ := List.cons.inj hfields
    exact ⟨⟨a, (hread a).mpr ⟨length, rfl, hlength⟩, hwrap⟩, _, _, _, rfl, hexpected⟩

theorem take_toList_eq_bitsOf {count : Nat} {payload : Bytes}
    (h : payload.length = (count + 7) / 8) :
    (Coils.ofBytes payload).toList.take count = bitsOf count payload := by
  rw [Coils.toList_ofBytes, take_unpackAll_eq_bitsOf (by omega)]

/-- The functions that read coils or inputs accept the same bytes behind their code. -/
theorem acceptBits_eq_ok_iff {code : UInt8} {fields : Bytes} {wrap : Coils → Response}
    (hwrap : wrap = .readCoils ∨ wrap = .readDiscreteInputs)
    (hofPdu : Response.ofPdu (code :: fields) =
      (fun payload => wrap (.ofBytes payload)) <$> Fields.counted fields)
    {count : UInt16} {values : List Bool} :
    acceptBits count (code :: fields) = .ok values ↔
      ∃ payload, Counted code ((count.toNat + 7) / 8) payload (code :: fields) ∧
        values = bitsOf count.toNat payload := by
  have hvalues : ∀ response, readResponse ((count.toNat + 7) / 8) (code :: fields) = .ok response ↔
      ∃ payload, Counted code ((count.toNat + 7) / 8) payload (code :: fields) ∧
        wrap (.ofBytes payload) = response :=
    fun response => readResponse_counted_iff hofPdu fun payload => counted_eq_ok_iff
  rw [acceptBits, bind_eq_ok]
  simp only [protocol_eq_ok_iff, Bits.packedLength, hvalues]
  constructor
  · rintro ⟨_, ⟨payload, hcounted, rfl⟩, hmatch⟩
    refine ⟨payload, hcounted, ?_⟩
    rw [← take_toList_eq_bitsOf hcounted.length_payload]
    rcases hwrap with rfl | rfl <;> exact (Except.ok.inj hmatch).symm
  · rintro ⟨payload, hcounted, rfl⟩
    refine ⟨_, ⟨payload, hcounted, rfl⟩, ?_⟩
    rw [← take_toList_eq_bitsOf hcounted.length_payload]
    rcases hwrap with rfl | rfl <;> rfl

/-- The functions that read registers accept the same bytes behind their code. -/
theorem acceptWords_eq_ok_iff {code : UInt8} {fields : Bytes} {wrap : Registers → Response}
    (hwrap : wrap = .readHoldingRegisters ∨ wrap = .readInputRegisters)
    (hofPdu : Response.ofPdu (code :: fields) = wrap <$> Fields.countedWords fields)
    {count : UInt16} {values : List UInt16} :
    acceptWords count (code :: fields) = .ok values ↔
      ∃ payload, Counted code (2 * count.toNat) payload (code :: fields) ∧
        values = wordsOf count.toNat payload := by
  have hvalues : ∀ response, readResponse (2 * count.toNat) (code :: fields) = .ok response ↔
      ∃ registers : Registers,
        Counted code (2 * count.toNat) registers.bytes (code :: fields) ∧
          wrap registers = response :=
    fun response => readResponse_counted_iff hofPdu fun registers => countedWords_eq_ok_iff
  rw [acceptWords, bind_eq_ok]
  simp only [protocol_eq_ok_iff, hvalues]
  constructor
  · rintro ⟨_, ⟨registers, hcounted, rfl⟩, hmatch⟩
    refine ⟨registers.bytes, hcounted, ?_⟩
    rw [← ofPairs_eq_wordsOf hcounted.length_payload]
    rcases hwrap with rfl | rfl <;> exact (Except.ok.inj hmatch).symm
  · rintro ⟨payload, hcounted, rfl⟩
    refine ⟨_, ⟨⟨payload, count.toNat, hcounted.length_payload⟩, hcounted, rfl⟩, ?_⟩
    rw [← ofPairs_eq_wordsOf hcounted.length_payload]
    rcases hwrap with rfl | rfl <;> rfl

namespace Operation

def IsRead : Operation → Prop
  | .readCoils .. | .readDiscreteInputs .. | .readHoldingRegisters .. | .readInputRegisters .. =>
    True
  | _ => False

/-- The response carries the values that a read asks for, and the answer is these values. -/
def Carries (response : Bytes) (answer : Answer) : Operation → Prop
  | .readCoils _ _ count =>
    ∃ payload, Counted 0x01 ((count.toNat + 7) / 8) payload response ∧
      answer = .bits (bitsOf count.toNat payload)
  | .readDiscreteInputs _ _ count =>
    ∃ payload, Counted 0x02 ((count.toNat + 7) / 8) payload response ∧
      answer = .bits (bitsOf count.toNat payload)
  | .readHoldingRegisters _ _ count =>
    ∃ payload, Counted 0x03 (2 * count.toNat) payload response ∧
      answer = .words (wordsOf count.toNat payload)
  | .readInputRegisters _ _ count =>
    ∃ payload, Counted 0x04 (2 * count.toNat) payload response ∧
      answer = .words (wordsOf count.toNat payload)
  | _ => False

/-- A response with the function of a read is accepted if it carries the values of the answer. -/
theorem interpret_eq_ok_iff_carries {operation : Operation} (hread : operation.IsRead)
    (fields : Bytes) (answer : Answer) :
    operation.interpret (operation.request.function.toByte :: fields) = .ok answer ↔
      operation.Carries (operation.request.function.toByte :: fields) answer := by
  cases operation with
  | readCoils => exact map_eq_ok_iff (fun _ => acceptBits_eq_ok_iff (.inl rfl) rfl) _
  | readDiscreteInputs => exact map_eq_ok_iff (fun _ => acceptBits_eq_ok_iff (.inr rfl) rfl) _
  | readHoldingRegisters => exact map_eq_ok_iff (fun _ => acceptWords_eq_ok_iff (.inl rfl) rfl) _
  | readInputRegisters => exact map_eq_ok_iff (fun _ => acceptWords_eq_ok_iff (.inr rfl) rfl) _
  | _ => exact hread.elim

theorem function_of_carries {operation : Operation} {response : Bytes} {answer : Answer}
    (h : operation.Carries response answer) :
    ∃ fields, response = operation.request.function.toByte :: fields := by
  cases operation with
  | readCoils | readDiscreteInputs | readHoldingRegisters | readInputRegisters =>
    obtain ⟨payload, ⟨length, hresponse, -⟩, -⟩ := h
    exact ⟨_, hresponse⟩
  | _ => exact h.elim

end Operation

/-- `readResponse` as it finds the byte count by its place, where there may be none. -/
def readResponseAt (expected : Nat) (pdu : Bytes) : Option (Except ProtocolError Response) :=
  let payload := pdu.length - 2
  match Response.ofPdu pdu with
  | .ok response =>
    if payload = expected then some (.ok response)
    else pdu[1]?.map fun declared => .error (.byteCountMismatch declared expected payload)
  | .error (.byteCount declared) => some (.error (.byteCountMismatch declared expected payload))
  | .error cause => some (.error cause)

/-- The place of the byte count is there if shorter responses are refused before it is looked at. -/
theorem readResponseAt_eq {pdu : Bytes}
    (hshort : pdu.length < 2 → Response.ofPdu pdu = .error .bufferSize) (expected : Nat) :
    readResponseAt expected pdu = some (readResponse expected pdu) := by
  rcases pdu with _ | ⟨code, _ | ⟨declared, values⟩⟩
  · rfl
  · have hrefused := hshort Nat.one_lt_two
    simp only [readResponseAt, readResponse, hrefused]
  · have hlength : (code :: declared :: values).length - 2 = values.length := rfl
    simp only [readResponseAt, readResponse, hlength]
    cases Response.ofPdu (code :: declared :: values) with
    | ok response =>
      simp only [List.getElem?_cons_succ, List.getElem?_cons_zero, Option.map_some]
      split <;> rfl
    | error cause => cases cause <;> rfl

namespace Operation

/-- The function code alone is no response to a read. -/
theorem ofPdu_short {operation : Operation} (hread : operation.IsRead)
    (h : operation.Admissible) {response : Bytes}
    (hcheck : checkFunction operation.request.function response = .ok ())
    (hshort : response.length < 2) : Response.ofPdu response = .error .bufferSize := by
  obtain ⟨fields, rfl⟩ := (checkFunction_eq_ok_iff (function_lt h)).mp hcheck
  have hnone : fields.length = 0 := Nat.lt_one_iff.mp (Nat.lt_of_succ_lt_succ hshort)
  obtain rfl : fields = [] := List.length_eq_zero_iff.mp hnone
  cases operation with
  | readCoils | readDiscreteInputs | readHoldingRegisters | readInputRegisters => rfl
  | _ => exact hread.elim

/-- A read judges every response right, whatever bytes come back: it succeeds on those that carry
the values it asks for, and with these values, gives back the exception that the response tells
of, and else fails with an error of the protocol. No byte is looked up behind the end. -/
theorem perform_read_judged {τ : Type} {transport : Transport τ} {operation : Operation}
    (hread : operation.IsRead) (h : operation.Admissible) {t t' : τ} {response : Bytes}
    (hexchange : (transport.exchange operation.unit operation.request.pdu).run.run t =
      (.ok response, t')) :
    let performed := (operation.perform transport).run.run t
    Judged operation.request.function response (operation.Carries response) performed.1 ∧
      performed.2 = t' ∧
      (checkFunction operation.request.function response = .ok () →
        (response.length < 2 → Response.ofPdu response = .error .bufferSize) ∧
        ∀ expected, readResponseAt expected response = some (readResponse expected response)) := by
  simp only [perform_run_exchanged h hexchange, true_and]
  constructor
  · refine judged_accept h (fun answer => function_of_carries) fun fields hfields answer => ?_
    rw [hfields]
    exact interpret_eq_ok_iff_carries hread fields answer
  · intro hcheck
    have hshort := ofPdu_short hread h hcheck
    exact ⟨hshort, readResponseAt_eq hshort⟩

theorem perform_read_judged_nine_coils :
    let performed (response : Bytes) :=
      (((readCoils 1 3 9).perform (.replying response)).run.run ()).1
    performed [0x01, 0x02, 0x8D, 0xFF] =
        .ok (.bits [true, false, true, true, false, false, false, true, true]) ∧
      performed [0x81, 0x02] = .error (.exception .illegalDataAddress) ∧
      ∃ cause, performed [0x01] = .error (.protocol cause) := by
  intro performed
  have hread : (readCoils 1 3 9).IsRead := trivial
  have hadmissible : (readCoils 1 3 9).Admissible := ⟨by decide, by decide⟩
  have hexchange : ∀ response, ((Transport.replying response).exchange 1
      (readCoils 1 3 9).request.pdu).run.run () = (.ok response, ()) := fun _ => rfl
  have hjudged : ∀ response, Judged .readCoils response ((readCoils 1 3 9).Carries response)
      (performed response) := fun response =>
    (perform_read_judged hread hadmissible (hexchange response)).1
  refine ⟨?_, ?_, ?_⟩
  · exact ((hjudged _).accepted _).mpr ⟨[0x8D, 0xFF], ⟨0x02, rfl, rfl, rfl⟩, rfl⟩
  · exact ((hjudged _).excepted _).mpr ⟨[], rfl⟩
  · refine (hjudged [0x01]).rejected ?_ ?_
    · rintro answer ⟨payload, ⟨length, hresponse, -⟩, -⟩
      cases hresponse
    · simp

end Operation

end Master

end Modbus
