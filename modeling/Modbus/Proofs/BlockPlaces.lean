import Modbus.Proofs.PduCodec
import Modbus.Proofs.PduPlaces
import Modbus.Proofs.ReadJudgement

/-! Blocks whose values are found by their places, and PDUs that are written to
a buffer place by place. A block holds all its values, and a buffer that is too
small for a PDU is refused before anything is written to it. -/

namespace Modbus

open Checked Places Writing

namespace Places

/-- Code that stays within its bytes, or within its arguments, at every turn. -/
theorem mapM_eq {m : Type → Type} [Monad m] [LawfulMonad m] {α β : Type} {f : α → m β} {g : α → β}
    {as : List α} (h : ∀ a ∈ as, f a = pure (g a)) : as.mapM f = pure (as.map g) := by
  induction as with
  | nil => rfl
  | cons a as ih =>
    obtain ⟨hfirst, hrest⟩ := List.forall_mem_cons.mp h
    rw [List.mapM_cons, hfirst, ih hrest, pure_bind, pure_bind]
    rfl

end Places

namespace Coils

/-- The byte that holds a coil, whether there is such a coil or not. -/
def bitAt (coils : Coils) (index : Nat) : Checked Bool := do
  let byte ← byteAt coils.bytes (index / 8)
  return byte.toNat.testBit (index % 8)

def getAt (coils : Coils) (index : Nat) : Checked (Option Bool) :=
  if coils.count ≤ index then return none else return some (← coils.bitAt index)

def listAt (coils : Coils) : Checked (List Bool) := (List.range coils.count).mapM coils.bitAt

/-- Copies the bytes of a block to a place of a buffer. -/
def writeTo (coils : Coils) (place : Nat) : Writing Unit := do
  let length := Bits.packedLength coils.count
  let bytes ← lookUp (slice coils.bytes 0 length)
  put (copyTo · place (place + length) bytes)

def packIntoAt (coils : List Bool) (target : Bytes) : Checked Coils := do
  let (packed, target) := Bits.packInto coils target
  let length ← within packed
  let bytes ← slice target 0 length
  Coils.ofPacked bytes coils.length

variable {coils : Coils} {index : Nat}

theorem place_lt (h : index < coils.count) : index / 8 < coils.bytes.length := by
  rw [coils.length_bytes, Bits.packedLength]
  omega

theorem bitAt_eq (h : index < coils.count) :
    coils.bitAt index =
      pure ((coils.bytes.get ⟨index / 8, place_lt h⟩).toNat.testBit (index % 8)) := by
  rw [bitAt, byteAt_of_lt (place_lt h), pure_bind]
  rfl

theorem getAt_eq (coils : Coils) (index : Nat) : coils.getAt index = pure (coils.get? index) := by
  by_cases h : index < coils.count
  · rw [getAt, if_neg (Nat.not_le.mpr h), bitAt_eq h, get?, dif_pos h]
    rfl
  · rw [getAt, if_pos (Nat.le_of_not_lt h), get?, dif_neg h]

theorem listAt_eq (coils : Coils) : coils.listAt = pure coils.toList := by
  have hbits : ∀ index ∈ List.range coils.count, coils.bitAt index =
      pure ((coils.bytes.getD (index / 8) 0).toNat.testBit (index % 8)) := by
    intro index hmem
    have hplace := place_lt (List.mem_range.mp hmem)
    rw [bitAt_eq (List.mem_range.mp hmem)]
    simp [hplace]
  have henough : coils.count ≤ 8 * coils.bytes.length := by
    rw [coils.length_bytes, Bits.packedLength]
    omega
  rw [listAt, mapM_eq hbits, toList, Master.take_unpackAll_eq_bitsOf henough]
  rfl

theorem writeTo_eq (coils : Coils) (place : Nat) :
    coils.writeTo place = put (copyTo · place (place + coils.bytes.length) coils.bytes) := by
  rw [writeTo, ← coils.length_bytes]
  simp only [slice_length, lookUp_pure, pure_bind]

theorem packIntoAt_eq (coils : List Bool) (target : Bytes) :
    packIntoAt coils target = within (packInto coils target) := by
  rw [packIntoAt, packInto, Bits.packInto]
  by_cases hlen : (Bits.pack coils).length ≤ target.length
  · have hpacked : Coils.ofPacked (Bits.pack coils) coils.length = pure (ofList coils) :=
      dif_pos (ofList coils).length_bytes
    rw [overwrite_ok hlen]
    simp only [within_ok, slice_append, pure_bind, hpacked]
    rfl
  · rw [overwrite_error (Nat.lt_of_not_le hlen)]
    rfl

end Coils

namespace Registers

def getAt (registers : Registers) (index : Nat) : Checked (Option UInt16) :=
  if index < registers.count then
    return some (← readWord (← sliceFrom registers.bytes (2 * index)))
  else return none

/-- The bytes of all registers. -/
def bytesAt (registers : Registers) : Checked Bytes :=
  slice registers.bytes 0 (2 * registers.count)

/-- Bytes two by two. -/
def pairs : Bytes → List Bytes
  | high :: low :: rest => [high, low] :: pairs rest
  | _ => []

def listAt (registers : Registers) : Checked (List UInt16) := do
  (pairs (← registers.bytesAt)).mapM readWord

/-- Copies the bytes of a block to a place of a buffer. -/
def writeTo (registers : Registers) (place : Nat) : Writing Unit := do
  let length := 2 * registers.count
  let bytes ← lookUp (slice registers.bytes 0 length)
  put (copyTo · place (place + length) bytes)

def packIntoAt (words : List UInt16) (target : Bytes) : Checked Registers :=
  let length := 2 * words.length
  if target.length < length then throw .bufferSize
  else do
    let target ← copyTo target 0 length (Words.bytes words)
    let bytes ← slice target 0 length
    Registers.ofPacked bytes words.length

theorem getAt_eq (registers : Registers) (index : Nat) :
    registers.getAt index = pure (registers.get? index) := by
  by_cases h : index < registers.count
  · have hlow : 2 * index + 1 < registers.bytes.length := by
      rw [registers.length_bytes]
      omega
    have hhigh : 2 * index < registers.bytes.length := Nat.lt_of_succ_lt hlow
    have hpair : registers.bytes.drop (2 * index) = registers.bytes[2 * index] ::
        registers.bytes[2 * index + 1] :: registers.bytes.drop (2 * index + 2) := by
      rw [List.drop_eq_getElem_cons hhigh, List.drop_eq_getElem_cons hlow]
    rw [getAt, if_pos h, sliceFrom_of_le (Nat.le_of_lt hhigh), hpair, get?, dif_pos h]
    rfl
  · rw [getAt, if_neg h, get?, dif_neg h]

theorem bytesAt_eq (registers : Registers) : registers.bytesAt = pure registers.bytes := by
  rw [bytesAt, ← registers.length_bytes, slice_length]

theorem mapM_pairs : (bytes : Bytes) → (pairs bytes).mapM readWord = pure (Words.ofPairs bytes)
  | [] | [_] => rfl
  | high :: low :: rest => by
    rw [pairs, List.mapM_cons, readWord_cons, mapM_pairs rest]
    rfl

theorem listAt_eq (registers : Registers) : registers.listAt = pure registers.toList := by
  rw [listAt, bytesAt_eq, pure_bind, mapM_pairs]
  rfl

theorem writeTo_eq (registers : Registers) (place : Nat) :
    registers.writeTo place =
      put (copyTo · place (place + registers.bytes.length) registers.bytes) := by
  rw [writeTo, ← registers.length_bytes]
  simp only [slice_length, lookUp_pure, pure_bind]

theorem packIntoAt_eq (words : List UInt16) (target : Bytes) :
    packIntoAt words target = within (packInto words target) := by
  rw [packIntoAt, packInto, ← Words.length_bytes]
  by_cases hlen : (Words.bytes words).length ≤ target.length
  · have hpacked : Registers.ofPacked (Words.bytes words) words.length = pure (ofList words) :=
      dif_pos (ofList words).length_bytes
    have hcopy : copyTo (front [] target) 0 (Words.bytes words).length (Words.bytes words) =
        pure (front (Words.bytes words) target) :=
      copyTo_front (by rwa [List.length_nil, Nat.zero_add]) rfl (Nat.zero_add _).symm
    rw [front_nil] at hcopy
    rw [overwrite_ok hlen, if_neg (Nat.not_lt.mpr hlen), hcopy, pure_bind, front, slice_append,
      pure_bind, hpacked]
    rfl
  · rw [overwrite_error (Nat.lt_of_not_le hlen), if_pos (Nat.lt_of_not_le hlen)]
    rfl

end Registers

namespace Places

/-- The two words behind the function code. -/
def putWords (first second : UInt16) : Writing Unit := do
  put (copyTo · 1 3 (wordBytes first))
  put (copyTo · 3 5 (wordBytes second))

/-- A record behind the function code of a PDU that is so long. -/
def putFileRecord (record : FileRecord) (length : Nat) : Writing Unit := do
  let count ← lookUp (minus length 2)
  put (setByte · 1 count.toUInt8)
  put (setByte · 2 Fields.fileReferenceType)
  put (copyTo · 3 5 (wordBytes record.fileNumber))
  put (copyTo · 5 7 (wordBytes record.recordNumber))
  put (copyTo · 7 9 (wordBytes record.length))
  put (copyTo · 9 length record.data)

def putRequest (request : Request) : Writing Unit :=
  match request with
  | .readCoils address quantity
  | .readDiscreteInputs address quantity
  | .readHoldingRegisters address quantity
  | .readInputRegisters address quantity => putWords address quantity
  | .writeSingleCoil address state => putWords address (coilWord state)
  | .writeSingleRegister address value => putWords address value
  | .writeMultipleCoils address coils => do
    putWords address coils.count.toUInt16
    put (setByte · 5 (Bits.packedLength coils.count).toUInt8)
    coils.writeTo 6
  | .writeMultipleRegisters address registers => do
    putWords address registers.count.toUInt16
    put (setByte · 5 (2 * registers.count).toUInt8)
    registers.writeTo 6
  | .writeFileRecord record => putFileRecord record request.length
  | .custom _ data => put (copyTo · 1 request.length data)

def putResponse (response : Response) : Writing Unit :=
  match response with
  | .readCoils coils | .readDiscreteInputs coils => do
    put (setByte · 1 (Bits.packedLength coils.count).toUInt8)
    coils.writeTo 2
  | .readHoldingRegisters registers | .readInputRegisters registers => do
    put (setByte · 1 (2 * registers.count).toUInt8)
    registers.writeTo 2
  | .writeSingleCoil address state => putWords address (coilWord state)
  | .writeSingleRegister address value => putWords address value
  | .writeMultipleCoils address quantity
  | .writeMultipleRegisters address quantity => putWords address quantity
  | .writeFileRecord record => putFileRecord record response.length
  | .custom _ data => put (copyTo · 1 response.length data)

/-- Writes a PDU whose length and function are known, if there is room for it. -/
def encode (length : Nat) (function : FunctionCode) (putFields : Writing Unit) : Writing Nat := do
  let buffer ← get
  if buffer.length < length then throw .bufferSize
  else do
    put (setByte · 0 function.toByte)
    putFields
    return length

def encodeRequest (request : Request) : Writing Nat :=
  encode request.length request.function (putRequest request)

def encodeResponse (response : Response) : Writing Nat :=
  encode response.length response.function (putResponse response)

variable {code : UInt8} {buffer : Bytes}

theorem putWords_onto (h : 5 ≤ buffer.length) (first second : UInt16) :
    (putWords first second).onto (front [code] buffer) =
      some (.ok (), front (code :: (wordBytes first ++ wordBytes second)) buffer) := by
  rw [putWords]
  refine (copyTo_bind_onto ?_ (by rfl) (by rfl)).trans ?_
  · exact Nat.le_trans (by decide : 3 ≤ 5) h
  exact copyTo_onto h rfl rfl

theorem putFileRecord_onto (record : FileRecord) (h : 9 + record.data.length ≤ buffer.length) :
    (putFileRecord record (9 + record.data.length)).onto (front [code] buffer) =
      some (.ok (), front (code :: Fields.ofFileRecord record) buffer) := by
  have hroom : ∀ {length}, length ≤ 9 → length ≤ buffer.length := by
    intro length hlength
    omega
  have hminus : minus (9 + record.data.length) 2 = pure (record.data.length + 7) := by
    rw [minus, if_pos (by omega)]
    congr 1
    omega
  rw [putFileRecord, hminus, lookUp_pure, pure_bind]
  refine (setByte_bind_onto ?_ (by rfl)).trans ?_
  · exact hroom (by decide : 2 ≤ 9)
  refine (setByte_bind_onto ?_ (by rfl)).trans ?_
  · exact hroom (by decide : 3 ≤ 9)
  refine (copyTo_bind_onto ?_ (by rfl) (by rfl)).trans ?_
  · exact hroom (by decide : 5 ≤ 9)
  refine (copyTo_bind_onto ?_ (by rfl) (by rfl)).trans ?_
  · exact hroom (by decide : 7 ≤ 9)
  refine (copyTo_bind_onto ?_ (by rfl) (by rfl)).trans ?_
  · exact hroom (by decide : 9 ≤ 9)
  exact copyTo_onto h rfl rfl

/-- The fields are put behind the function code. -/
theorem encode_onto {function : FunctionCode} {fields : Bytes} {putFields : Writing Unit}
    {buffer : Bytes}
    (h : fields.length + 1 ≤ buffer.length → putFields.onto (front [function.toByte] buffer) =
      some (.ok (), front (function.toByte :: fields) buffer)) :
    (encode (fields.length + 1) function putFields).onto buffer =
      some (overwrite (function.toByte :: fields) buffer) := by
  change (if buffer.length < fields.length + 1 then throw .bufferSize else _ : Writing Nat).onto
    buffer = _
  by_cases hroom : fields.length + 1 ≤ buffer.length
  · have hcode : ([] : Bytes).length < buffer.length :=
      Nat.lt_of_succ_le (Nat.le_trans (Nat.le_add_left 1 _) hroom)
    have hfits : (function.toByte :: fields).length ≤ buffer.length := hroom
    rw [if_neg (Nat.not_lt.mpr hroom), overwrite_ok hfits]
    refine (setByte_bind_onto hcode rfl).trans ?_
    exact onto_bind (h hroom)
  · have hsmall : buffer.length < (function.toByte :: fields).length := Nat.lt_of_not_le hroom
    rw [if_pos (Nat.lt_of_not_le hroom), overwrite_error hsmall]
    rfl

/-- A count and as many bytes, at the place of the count. -/
theorem putCounted_onto {done bytes : Bytes} {place : Nat} (hplace : place = done.length)
    (h : done.length + 1 + bytes.length ≤ buffer.length) :
    (do
      put (setByte · place bytes.length.toUInt8)
      put (copyTo · (place + 1) (place + 1 + bytes.length) bytes)).onto (front done buffer) =
        some (.ok (), front (done ++ bytes.length.toUInt8 :: bytes) buffer) := by
  refine (setByte_bind_onto (by omega) hplace).trans ?_
  rw [copyTo_onto, List.append_assoc, List.singleton_append]
  · simpa using h
  · simp [hplace]
  · simp [hplace]

theorem putCoils_onto {done : Bytes} {place : Nat} (coils : Coils) (hplace : place = done.length)
    (h : done.length + 1 + Bits.packedLength coils.count ≤ buffer.length) :
    (do
      put (setByte · place (Bits.packedLength coils.count).toUInt8)
      coils.writeTo (place + 1)).onto (front done buffer) =
        some (.ok (), front (done ++ coils.bytes.length.toUInt8 :: coils.bytes) buffer) := by
  rw [← coils.length_bytes] at h ⊢
  rw [coils.writeTo_eq]
  exact putCounted_onto hplace h

theorem putRegisters_onto {done : Bytes} {place : Nat} (registers : Registers)
    (hplace : place = done.length)
    (h : done.length + 1 + 2 * registers.count ≤ buffer.length) :
    (do
      put (setByte · place (2 * registers.count).toUInt8)
      registers.writeTo (place + 1)).onto (front done buffer) =
        some (.ok (), front (done ++ registers.bytes.length.toUInt8 :: registers.bytes) buffer) := by
  rw [← registers.length_bytes] at h ⊢
  rw [registers.writeTo_eq]
  exact putCounted_onto hplace h

theorem putRequest_onto (request : Request) (h : request.length ≤ buffer.length) :
    (putRequest request).onto (front [code] buffer) =
      some (.ok (), front (code :: request.fields) buffer) := by
  cases request with
  | readCoils | readDiscreteInputs | readHoldingRegisters | readInputRegisters | writeSingleCoil
  | writeSingleRegister => exact putWords_onto h _ _
  | writeMultipleCoils address coils =>
    have hwords : 5 ≤ buffer.length := Nat.le_trans (by rw [Request.length]; omega) h
    exact (onto_bind (putWords_onto hwords _ _)).trans (putCoils_onto coils rfl h)
  | writeMultipleRegisters address registers =>
    have hwords : 5 ≤ buffer.length := Nat.le_trans (by rw [Request.length]; omega) h
    exact (onto_bind (putWords_onto hwords _ _)).trans (putRegisters_onto registers rfl h)
  | writeFileRecord record => exact putFileRecord_onto record h
  | custom function data => exact copyTo_onto h (by rfl) (by rfl)

theorem putResponse_onto (response : Response) (h : response.length ≤ buffer.length) :
    (putResponse response).onto (front [code] buffer) =
      some (.ok (), front (code :: response.fields) buffer) := by
  cases response with
  | readCoils coils | readDiscreteInputs coils =>
    exact putCoils_onto coils rfl h
  | readHoldingRegisters registers | readInputRegisters registers =>
    exact putRegisters_onto registers rfl h
  | writeSingleCoil | writeSingleRegister | writeMultipleCoils | writeMultipleRegisters =>
    exact putWords_onto h _ _
  | writeFileRecord record => exact putFileRecord_onto record h
  | custom function data => exact copyTo_onto h (by rfl) (by rfl)

theorem encodeRequest_onto (request : Request) (buffer : Bytes) :
    (encodeRequest request).onto buffer = some (request.encode buffer) := by
  have hlength : request.length = request.fields.length + 1 := request.length_pdu.symm
  rw [encodeRequest, hlength]
  exact encode_onto fun h => putRequest_onto request (hlength ▸ h)

theorem encodeResponse_onto (response : Response) (buffer : Bytes) :
    (encodeResponse response).onto buffer = some (response.encode buffer) := by
  have hlength : response.length = response.fields.length + 1 := response.length_pdu.symm
  rw [encodeResponse, hlength]
  exact encode_onto fun h => putResponse_onto response (hlength ▸ h)

end Places

end Modbus
