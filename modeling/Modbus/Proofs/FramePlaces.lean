import Modbus.Proofs.BlockPlaces
import Modbus.Proofs.FrameReading
import Modbus.Proofs.TcpFraming

/-! Frames that are read by the places of their bytes, on a serial line and on a
TCP connection. No byte is looked up before enough of them are there. With the
PDUs and their values, all that is read from bytes of unknown origin, and all
that is written from it, stays within its bytes. -/

namespace Modbus

open Checked Places

namespace Serial

/-- Only a function code that is not known leaves the length of a PDU open. -/
theorem Direction.unknown_of_error (direction : Direction) {bytes : Bytes} {cause : ProtocolError}
    (h : direction.pduLength bytes = .error cause) : ∃ code, cause = .functionCode code := by
  rcases bytes with _ | ⟨unit, _ | ⟨code, fields⟩⟩
  · cases direction <;> cases h
  · cases direction <;> cases h
  · rw [direction.pduLength_cons] at h
    cases hrule : direction.rule code with
    | fixed | counted =>
      rw [hrule] at h
      cases h
    | unknown code =>
      rw [hrule] at h
      exact ⟨code, (Except.error.inj h).symm⟩

/-- What is wrong with a frame of known length. -/
theorem Frame.cause_of_ofFront {buffer : Bytes} {length : Nat} {cause : ProtocolError}
    (h : ofFront buffer length = .error cause) :
    cause = .bufferSize ∨ ∃ expected actual, cause = .checksum expected actual := by
  rw [ofFront] at h
  split at h
  · exact .inl (Except.error.inj h).symm
  · split at h
    · cases h
    · cases hwire : ofWire (buffer.take (length + overhead)) with
      | ok frame =>
        rw [hwire] at h
        cases h
      | error found =>
        rw [hwire] at h
        obtain rfl : found = cause := Except.error.inj h
        rcases Nat.lt_or_ge (buffer.take (length + overhead)).length 4 with hshort | hlong
        · rw [ofWire_short hshort] at hwire
          exact .inl (Except.error.inj hwire).symm
        · obtain ⟨unit, code, data, low, high, hbytes⟩ := exists_eq_append_pair hlong
          rw [hbytes, ofWire_append_pair] at hwire
          split at hwire
          · cases hwire
          · exact .inr ⟨_, _, (Except.error.inj hwire).symm⟩

namespace Places

/-- What a length byte tells, once it is there. -/
def lengthBehind (adu : Bytes) (place base : Nat) : Checked (Option Nat) :=
  if place < adu.length then return some (base + (← byteAt adu place).toNat) else return none

def requestLength (adu : Bytes) : Checked (Option Nat) :=
  if adu.length < 2 then return none
  else do
    let code ← byteAt adu 1
    if 0x01 ≤ code ∧ code ≤ 0x06 then return some 5
    else if code = 0x0F ∨ code = 0x10 then lengthBehind adu 6 6
    else if code = 0x15 then lengthBehind adu 2 2
    else throw (.functionCode code)

def responseLength (adu : Bytes) : Checked (Option Nat) :=
  if adu.length < 2 then return none
  else do
    let code ← byteAt adu 1
    if 0x01 ≤ code ∧ code ≤ 0x04 ∨ code = 0x15 then lengthBehind adu 2 2
    else if code = 0x05 ∨ code = 0x06 ∨ code = 0x0F ∨ code = 0x10 then return some 5
    else if 0x81 ≤ code then return some 2
    else throw (.functionCode code)

def pduLength : Direction → Bytes → Checked (Option Nat)
  | .request => requestLength
  | .response => responseLength

/-- The frame that takes up all the bytes. -/
def unwrap (adu : Bytes) : Checked Frame :=
  if adu.length < 4 then throw .bufferSize
  else do
    let (body, tail) ← splitAt adu (← minus adu.length 2)
    let received ← readWordReversed tail
    let computed := checksum body
    if received ≠ computed then throw (.checksum received computed)
    else
      let unit ← byteAt body 0
      let pdu ← sliceFrom body 1
      return ⟨unit, pdu⟩

/-- The frame at the front of a buffer, for a PDU of known length. -/
def extract (buffer : Bytes) (length : Nat) : Checked (Option Frame) :=
  if buffer.isEmpty then throw .bufferSize
  else if buffer.length < 1 + length + 2 then return none
  else do
    let frame ← unwrap (← slice buffer 0 (1 + length + 2))
    return some frame

/-- The frame whose length is known, at the front of what is left of a buffer. -/
def framed (direction : Direction) (start : Nat) (rest : Bytes) : Checked (Option Located) := do
  match ← pduLength direction rest with
  | none => return none
  | some length =>
    let frame? ← extract rest length
    return frame?.map (⟨·, start, length + Frame.overhead⟩)

/-- Tries the next frame. A user defined function has to take up all the rest. -/
def located (direction : Direction) (start : Nat) (rest : Bytes) : Checked (Option Located) := do
  match ← attempt (framed direction start rest) with
  | .ok found => return found
  | .error (.functionCode code) =>
    match ← attempt (unwrap rest) with
    | .ok frame => return some ⟨frame, start, rest.length⟩
    | .error _ => throw (.functionCode code)
  | .error cause => throw cause

/-- Drops one byte after the other. Those that have been dropped are shown when it gives up. -/
def scan (direction : Direction) (buffer : Bytes) (start : Nat) : Checked (Option Located) :=
  if _h : buffer.length ≤ start + 1 then return none
  else do
    let rest ← sliceFrom buffer start
    match ← attempt (located direction start rest) with
    | .ok found => return found
    | .error cause =>
      if maxFrameLength ≤ start + 1 then
        let _dropped ← slice buffer 0 start
        throw cause
      else scan direction buffer (start + 1)
termination_by buffer.length - start

def find (direction : Direction) (buffer : Bytes) : Checked (Option Located) :=
  if buffer.isEmpty then throw .bufferSize else scan direction buffer 0

def decode (direction : Direction) (buffer : Bytes) : Checked (Option Located) :=
  if buffer.length < 2 then return none else find direction buffer

theorem lengthBehind_eq (adu : Bytes) (place base : Nat) :
    lengthBehind adu place base = pure (adu[place]?.map (base + ·.toNat)) := by
  by_cases h : place < adu.length
  · rw [lengthBehind, if_pos h, byteAt_of_lt h, List.getElem?_eq_getElem h]
    rfl
  · rw [lengthBehind, if_neg h, List.getElem?_eq_none (Nat.le_of_not_lt h)]
    rfl

theorem pduLength_eq (direction : Direction) (adu : Bytes) :
    pduLength direction adu = within (direction.pduLength adu) := by
  match adu with
  | [] | [_] => cases direction <;> rfl
  | unit :: code :: fields =>
    have hlong : ¬ (unit :: code :: fields).length < 2 := by simp
    cases direction with
    | request =>
      simp only [pduLength, requestLength, if_neg hlong, byteAt_succ, byteAt_zero, pure_bind,
        lengthBehind_eq, Direction.pduLength, Serial.requestLength, within_ite, within_ok,
        within_error, List.getElem?_cons_succ]
    | response =>
      simp only [pduLength, responseLength, if_neg hlong, byteAt_succ, byteAt_zero, pure_bind,
        lengthBehind_eq, Direction.pduLength, Serial.responseLength, within_ite, within_ok,
        within_error, List.getElem?_cons_succ]

theorem unwrap_eq (adu : Bytes) : unwrap adu = within (Frame.ofWire adu) := by
  rcases Nat.lt_or_ge adu.length 4 with hshort | hlong
  · rw [unwrap, if_pos hshort, Frame.ofWire_short hshort]
    rfl
  · obtain ⟨unit, code, data, low, high, rfl⟩ := Frame.exists_eq_append_pair hlong
    have hminus : minus (unit :: code :: data ++ [low, high]).length 2 =
        pure (unit :: code :: data).length := by
      simp [minus]
    have hsplit : splitAt (unit :: code :: data ++ [low, high]) (unit :: code :: data).length =
        pure (unit :: code :: data, [low, high]) := by
      simp [splitAt]
    rw [unwrap, if_neg (Nat.not_lt.mpr hlong), Frame.ofWire_append_pair, hminus, pure_bind, hsplit,
      pure_bind]
    simp only [readWordReversed_cons, pure_bind, byteAt_zero, sliceFrom_succ, sliceFrom_zero,
      ne_eq, ite_not, within_ite, within_ok, within_error]

theorem extract_eq (buffer : Bytes) (length : Nat) :
    extract buffer length = within (Frame.ofFront buffer length) := by
  have hoverhead : 1 + length + 2 = length + Frame.overhead := by
    rw [Frame.overhead]
    omega
  rw [extract, Frame.ofFront, hoverhead, within_ite, within_ite, within_error, within_ok]
  split
  · rfl
  · split
    · rfl
    · next hlong =>
      rw [slice_of_le (Nat.zero_le _) (Nat.le_of_not_lt hlong), pure_bind, List.drop_zero,
        unwrap_eq, within_map]
      cases Frame.ofWire (buffer.take (length + Frame.overhead)) <;> rfl

theorem located_eq (direction : Direction) (start : Nat) (rest : Bytes) :
    located direction start rest = within (frameAt direction start rest) := by
  rw [located, framed, pduLength_eq, frameAt]
  cases hlength : direction.pduLength rest with
  | error cause =>
    obtain ⟨code, rfl⟩ := direction.unknown_of_error hlength
    simp only [within_error, throw_bind, attempt_throw, pure_bind, unwrap_eq, attempt_within]
    cases Frame.ofWire rest <;> rfl
  | ok length? =>
    cases length? with
    | none => rfl
    | some length =>
      simp only [within_ok, pure_bind, extract_eq]
      cases hfront : Frame.ofFront rest length with
      | error cause =>
        rcases Frame.cause_of_ofFront hfront with rfl | ⟨expected, actual, rfl⟩ <;> rfl
      | ok frame? => rfl

theorem scan_eq (direction : Direction) (buffer : Bytes) (start : Nat) :
    scan direction buffer start =
      within (Serial.scan direction start (buffer.drop start)) := by
  fun_induction scan direction buffer start with
  | case1 start hend =>
    have hshort : (buffer.drop start).length ≤ 1 := by
      rw [List.length_drop]
      omega
    match buffer.drop start, hshort with
    | [], _ | [_], _ => rfl
  | case2 start hmore ih =>
    have hstart : start < buffer.length := by omega
    have hnext : start + 1 < buffer.length := by omega
    have hdrop : buffer.drop (start + 1) = buffer[start + 1] :: buffer.drop (start + 2) :=
      List.drop_eq_getElem_cons hnext
    have hrest : buffer.drop start = buffer[start] :: buffer[start + 1] ::
        buffer.drop (start + 2) := by
      rw [← hdrop]
      exact List.drop_eq_getElem_cons hstart
    rw [hdrop] at ih
    rw [sliceFrom_of_le (Nat.le_of_lt hstart), pure_bind, located_eq, attempt_within, pure_bind,
      hrest, Serial.scan]
    cases frameAt direction start _ with
    | ok found => rfl
    | error cause =>
      simp only [slice_of_le (Nat.zero_le start) (Nat.le_of_lt hstart), pure_bind, ih, within_ite,
        within_error]

theorem find_eq (direction : Direction) (buffer : Bytes) :
    find direction buffer = within (Serial.find direction buffer) := by
  rw [find, Serial.find, within_ite, within_error, scan_eq, List.drop_zero]

theorem decode_eq (direction : Direction) (buffer : Bytes) :
    decode direction buffer = within (Serial.decode direction buffer) := by
  rw [decode, Serial.decode, within_ite, within_ok, find_eq]

end Places

end Serial

namespace Tcp

namespace Places

def announcedLength (buffer : Bytes) : Checked (Option Nat) :=
  if buffer.length < 6 then return none
  else do
    let length ← readWord (← slice buffer 4 6)
    return some (6 + length.toNat)

/-- The frame that takes up all the bytes. -/
def unpack (adu : Bytes) : Checked Frame :=
  if adu.length < headerLength then throw .bufferSize
  else do
    let protocol ← readWord (← slice adu 2 4)
    if protocol ≠ 0 then throw (.protocolNotModbus protocol)
    else
      let field ← readWord (← slice adu 4 6)
      let length ← minus adu.length 6
      if field.toNat ≠ length then throw (.lengthMismatch field.toNat length)
      else
        let transaction ← readWord (← slice adu 0 2)
        let unit ← byteAt adu 6
        let pdu ← sliceFrom adu headerLength
        return ⟨transaction, unit, pdu⟩

/-- The frame at the front of a buffer. -/
def extract (buffer : Bytes) : Checked (Option (Frame × Nat)) :=
  if buffer.length < headerLength then return none
  else do
    let protocol ← readWord (← slice buffer 2 4)
    if protocol ≠ 0 then throw (.protocolNotModbus protocol)
    else
      let length ← readWord (← slice buffer 4 6)
      if length < 2 ∨ maxPduLength + 1 < length.toNat then throw (.lengthField length)
      else
        match ← announcedLength buffer with
        | none => return none
        | some whole =>
          if buffer.length < whole then return none
          else
            let frame ← unpack (← slice buffer 0 whole)
            return some (frame, whole)

/-- The request at the front of a buffer, which may be empty. -/
def request (buffer : Bytes) : Checked (Option (Frame × Nat)) :=
  if buffer.isEmpty then return none else extract buffer

def response (transaction : UInt16) (unit : UInt8) (buffer : Bytes) :
    Checked (Option (Bytes × Nat)) := do
  match ← extract buffer with
  | none => return none
  | some (frame, length) =>
    if frame.transaction ≠ transaction then
      throw (.transactionMismatch transaction frame.transaction)
    else if frame.unit ≠ unit then throw (.unitMismatch unit frame.unit)
    else return some (frame.pdu, length)

variable {buffer : Bytes}

theorem announcedLength_eq (buffer : Bytes) :
    announcedLength buffer = pure (Frame.announcedLength buffer) := by
  rcases buffer with _ | ⟨t1, _ | ⟨t0, _ | ⟨p1, _ | ⟨p0, _ | ⟨l1, _ | ⟨l0, rest⟩⟩⟩⟩⟩⟩
  case cons.cons.cons.cons.cons.cons =>
    have hlong : ¬ (t1 :: t0 :: p1 :: p0 :: l1 :: l0 :: rest).length < 6 := by simp
    rw [announcedLength, if_neg hlong]
    simp only [slice_succ, slice_zero_succ, slice_zero, map_pure, readWord_cons, pure_bind]
    rfl
  all_goals rfl

theorem unpack_eq (adu : Bytes) : unpack adu = within (Frame.ofWire adu) := by
  rcases adu with _ | ⟨t1, _ | ⟨t0, _ | ⟨p1, _ | ⟨p0, _ | ⟨l1, _ | ⟨l0, _ | ⟨unit, pdu⟩⟩⟩⟩⟩⟩⟩
  case cons.cons.cons.cons.cons.cons.cons =>
    have hlong : ¬ (t1 :: t0 :: p1 :: p0 :: l1 :: l0 :: unit :: pdu).length < headerLength := by
      simp [headerLength]
    have hminus : minus (t1 :: t0 :: p1 :: p0 :: l1 :: l0 :: unit :: pdu).length 6 =
        pure (pdu.length + 1) := by
      simp [minus]
    rw [unpack, if_neg hlong, hminus]
    simp only [slice_succ, slice_zero_succ, slice_zero, map_pure, readWord_cons, pure_bind,
      byteAt_succ, byteAt_zero, headerLength, sliceFrom_succ, sliceFrom_zero, Frame.ofWire,
      within_ite, within_ok, within_error]
  all_goals rfl

theorem extract_eq (buffer : Bytes) : extract buffer = within (Frame.ofFront buffer) := by
  rcases buffer with _ | ⟨t1, _ | ⟨t0, _ | ⟨p1, _ | ⟨p0, _ | ⟨l1, _ | ⟨l0, _ | ⟨unit, rest⟩⟩⟩⟩⟩⟩⟩
  case cons.cons.cons.cons.cons.cons.cons =>
    have hlong : ¬ (t1 :: t0 :: p1 :: p0 :: l1 :: l0 :: unit :: rest).length < headerLength := by
      simp [headerLength]
    rw [extract, if_neg hlong, Frame.ofFront]
    simp only [slice_succ, slice_zero_succ, slice_zero, map_pure, readWord_cons, pure_bind,
      announcedLength_eq, Frame.announcedLength, within_ite, within_ok, within_error]
    split
    · rfl
    · split
      · rfl
      · split
        · rfl
        · next hwhole =>
          rw [slice_of_le (Nat.zero_le _) (Nat.le_of_not_lt hwhole), pure_bind, List.drop_zero,
            unpack_eq]
          cases Frame.ofWire _ <;> rfl
  all_goals rfl

theorem request_eq (buffer : Bytes) : request buffer = within (Frame.ofFront buffer) := by
  cases buffer with
  | nil => rfl
  | cons => exact extract_eq _

theorem response_eq (transaction : UInt16) (unit : UInt8) (buffer : Bytes) :
    response transaction unit buffer = within (Frame.response transaction unit buffer) := by
  rw [response, extract_eq, Frame.response]
  refine within_bind _ fun found => ?_
  cases found with
  | none => rfl
  | some found =>
    obtain ⟨frame, length⟩ := found
    dsimp only
    split
    · rfl
    · split <;> rfl

end Places

end Tcp

/-- Whatever the bytes are, no place is looked for that is not there: not when they are read as a
PDU, as a frame or as the front of a stream, when values are packed into them, or when a PDU is
written to them, which is refused if there is no room for it. All the values of a block are there
too, one by one and together. -/
theorem untrusted_bytes_within (bytes : Bytes) :
    ((Places.request bytes).run = some (Request.ofPdu bytes) ∧
      (Places.response bytes).run = some (Response.ofPdu bytes) ∧
      (Places.exceptionResponse bytes).run = some (ExceptionResponse.ofPdu bytes)) ∧
    ((∀ direction,
        (Serial.Places.pduLength direction bytes).run = some (direction.pduLength bytes) ∧
        (Serial.Places.find direction bytes).run = some (Serial.find direction bytes) ∧
        (Serial.Places.decode direction bytes).run = some (Serial.decode direction bytes)) ∧
      (Serial.Places.unwrap bytes).run = some (Serial.Frame.ofWire bytes) ∧
      ∀ length, (Serial.Places.extract bytes length).run =
        some (Serial.Frame.ofFront bytes length)) ∧
    ((Tcp.Places.announcedLength bytes).run = some (.ok (Tcp.Frame.announcedLength bytes)) ∧
      (Tcp.Places.unpack bytes).run = some (Tcp.Frame.ofWire bytes) ∧
      (Tcp.Places.extract bytes).run = some (Tcp.Frame.ofFront bytes) ∧
      (Tcp.Places.request bytes).run = some (Tcp.Frame.ofFront bytes) ∧
      ∀ transaction unit, (Tcp.Places.response transaction unit bytes).run =
        some (Tcp.Frame.response transaction unit bytes)) ∧
    ((∀ coils, (Coils.packIntoAt coils bytes).run = some (Coils.packInto coils bytes)) ∧
      ∀ words, (Registers.packIntoAt words bytes).run = some (Registers.packInto words bytes)) ∧
    ((∀ coils : Coils, Bits.packedLength coils.count ≤ coils.bytes.length ∧
        coils.listAt.run = some (.ok coils.toList) ∧
        ∀ index, (coils.getAt index).run = some (.ok (coils.get? index))) ∧
      ∀ registers : Registers, 2 * registers.count ≤ registers.bytes.length ∧
        registers.bytesAt.run = some (.ok registers.bytes) ∧
        registers.listAt.run = some (.ok registers.toList) ∧
        ∀ index, (registers.getAt index).run = some (.ok (registers.get? index))) ∧
    (∀ request : Request,
      (Places.encodeRequest request).onto bytes = some (request.encode bytes) ∧
      request.encode bytes = if bytes.length < request.length then (.error .bufferSize, bytes)
        else (.ok request.length, request.pdu ++ bytes.drop request.length)) ∧
    ∀ response : Response,
      (Places.encodeResponse response).onto bytes = some (response.encode bytes) ∧
      response.encode bytes = if bytes.length < response.length then (.error .bufferSize, bytes)
        else (.ok response.length, response.pdu ++ bytes.drop response.length) := by
  refine ⟨⟨request_eq _, response_eq _, exceptionResponse_eq _⟩, ⟨fun direction => ?_,
    Serial.Places.unwrap_eq _, Serial.Places.extract_eq _⟩, ⟨Tcp.Places.announcedLength_eq _,
    Tcp.Places.unpack_eq _, Tcp.Places.extract_eq _, Tcp.Places.request_eq _,
    fun transaction unit => Tcp.Places.response_eq transaction unit _⟩,
    ⟨fun coils => Coils.packIntoAt_eq coils _, fun words => Registers.packIntoAt_eq words _⟩,
    ⟨fun coils => ?_, fun registers => ?_⟩, fun request => ?_, fun response => ?_⟩
  · exact ⟨Serial.Places.pduLength_eq _ _, Serial.Places.find_eq _ _, Serial.Places.decode_eq _ _⟩
  · exact ⟨Nat.le_of_eq coils.length_bytes.symm, coils.listAt_eq, coils.getAt_eq⟩
  · exact ⟨Nat.le_of_eq registers.length_bytes.symm, registers.bytesAt_eq, registers.listAt_eq,
      registers.getAt_eq⟩
  · refine ⟨encodeRequest_onto request bytes, ?_⟩
    rw [Request.encode, overwrite, request.length_pdu]
  · refine ⟨encodeResponse_onto response bytes, ?_⟩
    rw [Response.encode, overwrite, response.length_pdu]

end Modbus
