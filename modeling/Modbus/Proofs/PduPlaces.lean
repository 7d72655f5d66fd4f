import Modbus.Pdu.Request
import Modbus.Pdu.Response
import Modbus.Proofs.Places

/-! PDUs that are read, and written, by the places of their bytes. Requests and
responses shorter than their fields are refused first, so that all fields are
there when they are looked up, and every block of values is made of bytes that
hold it. -/

namespace Modbus

open Checked Places

/-- A block is made of bytes that hold it, which is the business of who makes it. -/
def Coils.ofPacked (bytes : Bytes) (count : Nat) : Checked Coils :=
  if h : bytes.length = Bits.packedLength count then pure ⟨bytes, count, h⟩ else outside

def Registers.ofPacked (bytes : Bytes) (count : Nat) : Checked Registers :=
  if h : bytes.length = 2 * count then pure ⟨bytes, count, h⟩ else outside

namespace Places

/-- The two words of a PDU that has nothing else behind its function code. -/
def twoWords (pdu : Bytes) : Checked (UInt16 × UInt16) :=
  if pdu.length ≠ 5 then throw .bufferSize
  else do
    let first ← readWord (← slice pdu 1 3)
    let second ← readWord (← slice pdu 3 5)
    return (first, second)

/-- An address, a quantity, and as many values as the quantity and a byte count tell. -/
def block (valuesLength : Nat → Nat) (pdu : Bytes) : Checked (UInt16 × Nat × Bytes) := do
  let address ← readWord (← slice pdu 1 3)
  let quantity ← readWord (← slice pdu 3 5)
  let count ← byteAt pdu 5
  let values ← sliceFrom pdu 6
  if values.length ≠ count.toNat ∨ values.length ≠ valuesLength quantity.toNat then
    throw (.byteCount count)
  else return (address, quantity.toNat, values)

def counted (pdu : Bytes) : Checked Bytes := do
  let count ← byteAt pdu 1
  let values ← sliceFrom pdu 2
  if values.length ≠ count.toNat then throw (.byteCount count) else return values

def countedWords (pdu : Bytes) : Checked Registers := do
  let values ← counted pdu
  if values.length % 2 ≠ 0 then throw (.byteCount (← byteAt pdu 1))
  else Registers.ofPacked values (values.length / 2)

def fileRecord (pdu : Bytes) : Checked FileRecord := do
  let length ← byteAt pdu 1
  if pdu.length ≠ 2 + length.toNat then throw (.byteCount length)
  else
    let type ← byteAt pdu 2
    if type ≠ Fields.fileReferenceType then throw .bufferSize
    else
      let words ← readWord (← slice pdu 7 9)
      let data ← sliceFrom pdu 9
      if data.length ≠ 2 * words.toNat then throw (.byteCount length)
      else
        let fileNumber ← readWord (← slice pdu 3 5)
        let recordNumber ← readWord (← slice pdu 5 7)
        return ⟨fileNumber, recordNumber, data⟩

/-- The data of a user defined function. -/
def custom (code : UInt8) (pdu : Bytes) : Checked Bytes :=
  if code < 0x80 then sliceFrom pdu 1 else throw (.functionCode code)

variable {code : UInt8} {fields : Bytes}

theorem twoWords_eq : twoWords (code :: fields) = within (Fields.twoWords fields) := by
  match fields with
  | [] | [_] | [_, _] | [_, _, _] => rfl
  | [a, b, c, d] => rfl
  | a :: b :: c :: d :: e :: rest => simp [twoWords, Fields.twoWords]

theorem counted_eq (h : 1 ≤ fields.length) :
    counted (code :: fields) = within (Fields.counted fields) := by
  match fields, h with
  | count :: values, _ =>
    by_cases hcount : values.length = count.toNat
    · simp [counted, Fields.counted, hcount]
    · simp [counted, Fields.counted, hcount]

-- a function code alone has no byte count, and must not get so far
example : (counted [0x01]).run = none := rfl

theorem countedWords_eq (h : 1 ≤ fields.length) :
    countedWords (code :: fields) = within (Fields.countedWords fields) := by
  match fields, h with
  | count :: values, h =>
    rw [countedWords, counted_eq h, Fields.countedWords, Fields.counted]
    by_cases hcount : values.length = count.toNat
    · rw [if_pos hcount, within_ok, pure_bind]
      by_cases heven : values.length % 2 = 0
      · have hhalf : values.length = 2 * (values.length / 2) := by omega
        rw [if_neg (not_not_intro heven), Registers.ofPacked, dif_pos hhalf]
        change pure _ = within (if _ : _ then _ else _)
        rw [dif_pos heven]
        rfl
      · have hlength : values.length.toUInt8 = count := by
          rw [hcount]
          exact UInt8.ofNat_toNat
        rw [if_pos heven]
        change throw _ = within (if _ : _ then _ else _)
        rw [dif_neg heven, hlength]
        rfl
    · rw [if_neg hcount]
      rfl

theorem fileRecord_eq (h : 8 ≤ fields.length) :
    fileRecord (code :: fields) = within (Fields.fileRecord fields) := by
  match fields, h with
  | length :: type :: f1 :: f0 :: r1 :: r0 :: l1 :: l0 :: data, _ =>
    have hwhole : (code :: length :: type :: f1 :: f0 :: r1 :: r0 :: l1 :: l0 :: data).length =
        2 + length.toNat ↔ data.length + 7 = length.toNat := by
      simp only [List.length_cons]
      omega
    simp only [fileRecord, Fields.fileRecord, byteAt_succ, byteAt_zero, slice_succ,
      slice_zero_succ, slice_zero, sliceFrom_succ, sliceFrom_zero, readWord_cons, pure_bind,
      map_pure, ne_eq, hwhole, within_ite, within_ok, within_error]

theorem custom_eq (function : UInt8) :
    custom function (code :: fields) = within (Fields.custom function fields) := by
  rw [custom, Fields.custom, sliceFrom_succ, sliceFrom_zero]
  split <;> rfl

theorem twoWords_short (h : fields.length < 4) : Fields.twoWords fields = .error .bufferSize := by
  match fields, h with
  | [], _ | [_], _ | [_, _], _ | [_, _, _], _ => rfl

theorem counted_short (h : fields.length < 1) : Fields.counted fields = .error .bufferSize := by
  rw [List.length_eq_zero_iff.mp (Nat.lt_one_iff.mp h)]
  rfl

theorem fileRecord_short (h : fields.length < 8) :
    Fields.fileRecord fields = .error .bufferSize := by
  match fields, h with
  | [], _ | [_], _ | [_, _], _ | [_, _, _], _ | [_, _, _, _], _ | [_, _, _, _, _], _
  | [_, _, _, _, _, _], _ | [_, _, _, _, _, _, _], _ => rfl

/-- The block of coils behind an address. -/
def coilBlock (pdu : Bytes) : Checked (UInt16 × Coils) := do
  let (address, quantity, values) ← block Bits.packedLength pdu
  let coils ← Coils.ofPacked values quantity
  return (address, coils)

/-- The block of registers behind an address. -/
def registerBlock (pdu : Bytes) : Checked (UInt16 × Registers) := do
  let (address, quantity, values) ← block (2 * ·) pdu
  let registers ← Registers.ofPacked values quantity
  return (address, registers)

theorem block_cons (valuesLength : Nat → Nat) (a1 a0 q1 q0 count : UInt8) (values : Bytes) :
    block valuesLength (code :: a1 :: a0 :: q1 :: q0 :: count :: values) =
      if values.length = count.toNat ∧ values.length = valuesLength (word q1 q0).toNat then
        pure (word a1 a0, (word q1 q0).toNat, values)
      else throw (.byteCount count) := by
  simp only [block, byteAt_succ, byteAt_zero, slice_succ, slice_zero_succ, slice_zero,
    sliceFrom_succ, sliceFrom_zero, readWord_cons, pure_bind, map_pure, ne_eq,
    ← Decidable.not_and_iff_not_or_not, ite_not]

/-- A block that is made of its values as soon as these have been measured. -/
theorem block_eq {α : Type} {valuesLength : Nat → Nat} {ofPacked : Bytes → Nat → Checked α}
    {ofFields : Bytes → Except ProtocolError α}
    (hmeasured : ∀ q1 q0 count values,
      values.length = count.toNat ∧ values.length = valuesLength (word q1 q0).toNat →
      ofPacked values (word q1 q0).toNat = within (ofFields (q1 :: q0 :: count :: values)))
    (hrefused : ∀ q1 q0 count values,
      ¬ (values.length = count.toNat ∧ values.length = valuesLength (word q1 q0).toNat) →
      ofFields (q1 :: q0 :: count :: values) = .error (.byteCount count))
    (h : 5 ≤ fields.length) :
    (do
      let (address, quantity, values) ← block valuesLength (code :: fields)
      let values ← ofPacked values quantity
      return (address, values)) =
    within (do
      let (address, rest) ← Fields.address fields
      return (address, ← ofFields rest)) := by
  match fields, h with
  | a1 :: a0 :: q1 :: q0 :: count :: values, _ =>
    change _ = within (ofFields (q1 :: q0 :: count :: values) >>= fun found =>
      return (word a1 a0, found))
    rw [block_cons]
    by_cases hvalues : values.length = count.toNat ∧
        values.length = valuesLength (word q1 q0).toNat
    · rw [if_pos hvalues, pure_bind]
      simp only [hmeasured q1 q0 count values hvalues, within_map]
    · rw [if_neg hvalues, hrefused q1 q0 count values hvalues]
      rfl

theorem coilBlock_eq (h : 5 ≤ fields.length) :
    coilBlock (code :: fields) = within (do
      let (address, rest) ← Fields.address fields
      return (address, ← Fields.coilBlock rest)) := by
  refine block_eq (fun q1 q0 count values hvalues => ?_) (fun _ _ _ _ hvalues => ?_) h
  · have hblock : Fields.coilBlock (q1 :: q0 :: count :: values) =
        .ok ⟨values, (word q1 q0).toNat, hvalues.2⟩ := dif_pos hvalues
    rw [hblock]
    exact dif_pos hvalues.2
  · exact dif_neg hvalues

theorem registerBlock_eq (h : 5 ≤ fields.length) :
    registerBlock (code :: fields) = within (do
      let (address, rest) ← Fields.address fields
      return (address, ← Fields.registerBlock rest)) := by
  refine block_eq (fun q1 q0 count values hvalues => ?_) (fun _ _ _ _ hvalues => ?_) h
  · have hblock : Fields.registerBlock (q1 :: q0 :: count :: values) =
        .ok ⟨values, (word q1 q0).toNat, hvalues.2⟩ := dif_pos hvalues
    rw [hblock]
    exact dif_pos hvalues.2
  · exact dif_neg hvalues

/-- The least length of a request, by its function. -/
def minRequestLength : FunctionCode → Nat
  | .writeMultipleCoils | .writeMultipleRegisters => 6
  | .writeFileRecord => 9
  | .custom _ => 1
  | _ => 5

def request (pdu : Bytes) : Checked Request :=
  match pdu.head? with
  | none => throw .bufferSize
  | some code =>
    if pdu.length < minRequestLength (.ofByte code) then throw .bufferSize
    else match FunctionCode.ofByte code with
      | .readCoils => do
        let (address, quantity) ← twoWords pdu
        return .readCoils address quantity
      | .readDiscreteInputs => do
        let (address, quantity) ← twoWords pdu
        return .readDiscreteInputs address quantity
      | .readHoldingRegisters => do
        let (address, quantity) ← twoWords pdu
        return .readHoldingRegisters address quantity
      | .readInputRegisters => do
        let (address, quantity) ← twoWords pdu
        return .readInputRegisters address quantity
      | .writeSingleCoil => do
        let (address, value) ← twoWords pdu
        return .writeSingleCoil address (← within (coilState? value))
      | .writeSingleRegister => do
        let (address, value) ← twoWords pdu
        return .writeSingleRegister address value
      | .writeMultipleCoils => do
        let (address, coils) ← coilBlock pdu
        return .writeMultipleCoils address coils
      | .writeMultipleRegisters => do
        let (address, registers) ← registerBlock pdu
        return .writeMultipleRegisters address registers
      | .writeFileRecord => return .writeFileRecord (← fileRecord pdu)
      | .custom code => return .custom code (← custom code pdu)

theorem request_short (h : fields.length + 1 < minRequestLength (.ofByte code)) :
    Request.ofFields code fields = .error .bufferSize := by
  rw [Request.ofFields]
  cases hfunction : FunctionCode.ofByte code with
  | readCoils | readDiscreteInputs | readHoldingRegisters | readInputRegisters | writeSingleCoil
  | writeSingleRegister =>
    rw [hfunction] at h
    simp only [twoWords_short (Nat.lt_of_succ_lt_succ h)]
    rfl
  | writeMultipleCoils | writeMultipleRegisters =>
    rw [hfunction] at h
    match fields, Nat.lt_of_succ_lt_succ h with
    | [], _ | [_], _ | [_, _], _ | [_, _, _], _ | [_, _, _, _], _ => rfl
  | writeFileRecord =>
    rw [hfunction] at h
    simp only [fileRecord_short (Nat.lt_of_succ_lt_succ h)]
    rfl
  | custom code =>
    rw [hfunction] at h
    exact absurd h (Nat.not_lt.mpr (Nat.le_add_left 1 _))

theorem request_eq (pdu : Bytes) : request pdu = within (Request.ofPdu pdu) := by
  cases pdu with
  | nil => rfl
  | cons code fields =>
    rw [request, List.head?_cons]
    simp only [List.length_cons]
    by_cases hshort : fields.length + 1 < minRequestLength (.ofByte code)
    · rw [if_pos hshort, Request.ofPdu, request_short hshort]
      rfl
    · rw [if_neg hshort, Request.ofPdu, Request.ofFields]
      have hlong := Nat.le_of_not_lt hshort
      cases hfunction : FunctionCode.ofByte code with
      | readCoils | readDiscreteInputs | readHoldingRegisters | readInputRegisters
      | writeSingleRegister =>
        simp only [twoWords_eq, within_map]
      | writeSingleCoil =>
        simp only [twoWords_eq]
        exact within_bind _ fun _ => within_bind _ fun _ => rfl
      | writeMultipleCoils =>
        rw [hfunction] at hlong
        simp only [coilBlock_eq (Nat.le_of_succ_le_succ hlong), within_map, bind_assoc, pure_bind]
      | writeMultipleRegisters =>
        rw [hfunction] at hlong
        simp only [registerBlock_eq (Nat.le_of_succ_le_succ hlong), within_map, bind_assoc,
          pure_bind]
      | writeFileRecord =>
        rw [hfunction] at hlong
        simp only [fileRecord_eq (Nat.le_of_succ_le_succ hlong), within_map]
      | custom => simp only [custom_eq, within_map]

/-- The least length of a response, by its function. -/
def minResponseLength : FunctionCode → Nat
  | .readCoils | .readDiscreteInputs | .readHoldingRegisters | .readInputRegisters => 2
  | .writeFileRecord => 9
  | .custom _ => 1
  | _ => 5

/-- All the bits of counted values. -/
def countedCoils (pdu : Bytes) : Checked Coils := do
  let values ← counted pdu
  Coils.ofPacked values (8 * values.length)

def response (pdu : Bytes) : Checked Response :=
  match pdu.head? with
  | none => throw .bufferSize
  | some code =>
    if pdu.length < minResponseLength (.ofByte code) then throw .bufferSize
    else match FunctionCode.ofByte code with
      | .readCoils => return .readCoils (← countedCoils pdu)
      | .readDiscreteInputs => return .readDiscreteInputs (← countedCoils pdu)
      | .readHoldingRegisters => return .readHoldingRegisters (← countedWords pdu)
      | .readInputRegisters => return .readInputRegisters (← countedWords pdu)
      | .writeSingleCoil => do
        let (address, value) ← twoWords pdu
        return .writeSingleCoil address (← within (coilState? value))
      | .writeSingleRegister => do
        let (address, value) ← twoWords pdu
        return .writeSingleRegister address value
      | .writeMultipleCoils => do
        let (address, quantity) ← twoWords pdu
        return .writeMultipleCoils address quantity
      | .writeMultipleRegisters => do
        let (address, quantity) ← twoWords pdu
        return .writeMultipleRegisters address quantity
      | .writeFileRecord => return .writeFileRecord (← fileRecord pdu)
      | .custom code => return .custom code (← custom code pdu)

theorem countedCoils_eq (h : 1 ≤ fields.length) :
    countedCoils (code :: fields) =
      within (do return Coils.ofBytes (← Fields.counted fields)) := by
  rw [countedCoils, counted_eq h]
  refine within_bind _ fun values => ?_
  exact dif_pos (Coils.ofBytes values).length_bytes

theorem response_short (h : fields.length + 1 < minResponseLength (.ofByte code)) :
    Response.ofFields code fields = .error .bufferSize := by
  rw [Response.ofFields]
  cases hfunction : FunctionCode.ofByte code with
  | readCoils | readDiscreteInputs | readHoldingRegisters | readInputRegisters =>
    rw [hfunction] at h
    simp only [Fields.countedWords, counted_short (Nat.lt_of_succ_lt_succ h)]
    rfl
  | writeSingleCoil | writeSingleRegister | writeMultipleCoils | writeMultipleRegisters =>
    rw [hfunction] at h
    simp only [twoWords_short (Nat.lt_of_succ_lt_succ h)]
    rfl
  | writeFileRecord =>
    rw [hfunction] at h
    simp only [fileRecord_short (Nat.lt_of_succ_lt_succ h)]
    rfl
  | custom code =>
    rw [hfunction] at h
    exact absurd h (Nat.not_lt.mpr (Nat.le_add_left 1 _))

theorem response_eq (pdu : Bytes) : response pdu = within (Response.ofPdu pdu) := by
  cases pdu with
  | nil => rfl
  | cons code fields =>
    rw [response, List.head?_cons]
    simp only [List.length_cons]
    by_cases hshort : fields.length + 1 < minResponseLength (.ofByte code)
    · rw [if_pos hshort, Response.ofPdu, response_short hshort]
      rfl
    · rw [if_neg hshort, Response.ofPdu, Response.ofFields]
      have hlong := Nat.le_of_not_lt hshort
      cases hfunction : FunctionCode.ofByte code with
      | readCoils | readDiscreteInputs =>
        rw [hfunction] at hlong
        simp only [countedCoils_eq (Nat.le_of_succ_le_succ hlong), within_map, bind_assoc,
          pure_bind]
      | readHoldingRegisters | readInputRegisters =>
        rw [hfunction] at hlong
        simp only [countedWords_eq (Nat.le_of_succ_le_succ hlong), within_map]
      | writeSingleCoil =>
        simp only [twoWords_eq]
        exact within_bind _ fun _ => within_bind _ fun _ => rfl
      | writeSingleRegister | writeMultipleCoils | writeMultipleRegisters =>
        simp only [twoWords_eq, within_map]
      | writeFileRecord =>
        rw [hfunction] at hlong
        simp only [fileRecord_eq (Nat.le_of_succ_le_succ hlong), within_map]
      | custom => simp only [custom_eq, within_map]

def exceptionResponse (bytes : Bytes) : Checked ExceptionResponse :=
  if bytes.length < 2 then throw .bufferSize
  else do
    let function ← byteAt bytes 0
    if function < 0x80 then throw (.exceptionFunctionCode function)
    else
      let code ← byteAt bytes 1
      match Exception.ofCode? code with
      | some exception => return ⟨.ofByte (function - 0x80), exception⟩
      | none => throw (.exceptionCode code)

theorem exceptionResponse_eq (bytes : Bytes) :
    exceptionResponse bytes = within (ExceptionResponse.ofPdu bytes) := by
  match bytes with
  | [] | [_] => rfl
  | function :: code :: rest =>
    have hlong : ¬ (function :: code :: rest).length < 2 := by simp
    rw [exceptionResponse, if_neg hlong, ExceptionResponse.ofPdu]
    simp only [byteAt_zero, byteAt_succ, pure_bind, within_ite, within_error]
    cases Exception.ofCode? code <;> rfl

end Places

end Modbus
