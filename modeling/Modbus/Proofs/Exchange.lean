import Modbus.Master.Operation
import Modbus.Proofs.PduCodec

/-! An operation with admissible arguments is one exchange with the unit and
a judgement on the PDU that comes back: `perform_eq_exchange`. What is sent
depends on the arguments alone, and what is given back on the arguments and
the response alone. -/

namespace Modbus

variable {τ : Type}

/-- A request and what comes back for it. -/
def Transport.exchange (transport : Transport τ) (unit : UInt8) (pdu : Bytes) :
    Exchange τ Bytes := do
  transport.send unit pdu
  transport.receive unit

namespace Exchange

/-- An outcome that needs no connection. -/
def verdict {α : Type} (outcome : Except Error α) : Exchange τ α := ExceptT.mk (pure outcome)

theorem verdict_bind {α β : Type} (outcome : Except Error α) (next : α → Except Error β) :
    (verdict outcome >>= fun a => verdict (next a) : Exchange τ β) =
      verdict (outcome >>= next) := by
  cases outcome <;> rfl

theorem lift_eq {α : Type} (outcome : Except Error α) :
    (liftM outcome : Exchange τ α) = verdict outcome := rfl

@[simp] theorem verdict_ok_bind {α β : Type} (a : α) (next : α → Exchange τ β) :
    verdict (.ok a) >>= next = next a := rfl

theorem map_verdict {α β : Type} (f : α → β) (outcome : Except Error α) :
    (f <$> verdict outcome : Exchange τ β) = verdict (f <$> outcome) := by
  cases outcome <;> rfl

/-- A judgement on the result of an action leaves the connection as the action left it. -/
theorem run_bind_verdict {α β : Type} (action : Exchange τ α) (next : α → Except Error β)
    (t : τ) :
    (action >>= fun a => verdict (next a)).run.run t =
      ((action.run.run t).1 >>= next, (action.run.run t).2) := by
  rw [ExceptT.run_bind, StateT.run_bind]
  cases action.run.run t with
  | mk outcome t' => cases outcome <;> rfl

end Exchange

namespace Master

open Exchange

@[simp] theorem protocol_ok {α : Type} (a : α) : protocol (.ok a) = .ok a := rfl

@[simp] theorem length_scratch (size : Nat) : (scratch size).length = size :=
  List.length_replicate

theorem encode_scratch {request : Request} (h : request.length ≤ maxPduLength) :
    request.encode (scratch maxPduLength) =
      (.ok request.length, request.pdu ++ (scratch maxPduLength).drop request.length) := by
  rw [← Request.length_pdu] at h ⊢
  exact overwrite_ok (by rwa [length_scratch])

theorem call_eq_exchange (transport : Transport τ) (unit : UInt8) (request : Request)
    (h : request.length ≤ maxPduLength) :
    call transport unit request = transport.exchange unit request.pdu >>= fun response =>
      verdict (checkFunction request.function response >>= fun _ => .ok response) := by
  rw [call, encode_scratch h]
  dsimp only
  rw [protocol_ok, lift_eq, verdict_ok_bind, Transport.exchange]
  simp only [← Request.length_pdu, List.take_left, bind_assoc]
  congr
  funext _
  congr
  funext response
  cases checkFunction request.function response <;> rfl

/-- The coils of a response with as many bytes as `count` coils need. -/
def acceptBits (count : UInt16) (response : Bytes) : Except Error (List Bool) := do
  match ← protocol (readResponse (Bits.packedLength count.toNat) response) with
  | .readCoils coils | .readDiscreteInputs coils => return coils.toList.take count.toNat
  | other => throw (.protocol (unexpected other))

/-- The registers of a response with as many bytes as `count` registers need. -/
def acceptWords (count : UInt16) (response : Bytes) : Except Error (List UInt16) := do
  match ← protocol (readResponse (2 * count.toNat) response) with
  | .readHoldingRegisters registers | .readInputRegisters registers => return registers.toList
  | other => throw (.protocol (unexpected other))

/-- The response must be the record that was sent. -/
def acceptRecord (record : FileRecord) (response : Bytes) : Except Error Unit := do
  match ← protocol (Response.ofPdu response) with
  | .writeFileRecord echo => if echo ≠ record then throw (.protocol .echoMismatch)
  | other => throw (.protocol (unexpected other))

/-- Adds a zero byte to an odd number of bytes. -/
def padded (bytes : Bytes) : Bytes := if bytes.length % 2 = 0 then bytes else bytes ++ [0]

theorem recordData_ok {window : Bytes} (h : window.length ≤ 244) :
    recordData window = .ok (padded window) := by
  have hroom : window.length ≤ (scratch (maxRecordSize.toNat + 1)).length := by
    rw [length_scratch]
    exact Nat.le_succ_of_le h
  rw [recordData, overwrite_ok hroom, padded]
  change Except.ok _ = _
  rw [scratch, List.drop_replicate]
  split
  · next heven => rw [heven, Nat.add_zero, List.take_left]
  · next hodd =>
    have hone : window.length % 2 = 1 := Nat.mod_two_ne_zero.mp hodd
    obtain ⟨left, hleft⟩ : ∃ left, maxRecordSize.toNat + 1 - window.length = left + 1 :=
      ⟨244 - window.length, Nat.succ_sub h⟩
    rw [hone, hleft, List.replicate_succ, List.take_append, List.take_of_length_le (by omega),
      Nat.add_sub_cancel_left]
    rfl

namespace Operation

/-- The arguments that a request can carry. -/
def Admissible : Operation → Prop
  | .readCoils _ _ count | .readDiscreteInputs _ _ count => 1 ≤ count.toNat ∧ count.toNat ≤ 2000
  | .readHoldingRegisters _ _ count | .readInputRegisters _ _ count =>
    1 ≤ count.toNat ∧ count.toNat ≤ 123
  | .writeCoils _ _ coils => 1 ≤ coils.length ∧ coils.length ≤ 1968
  | .writeHoldingRegisters _ _ words => 1 ≤ words.length ∧ words.length ≤ 123
  | .writeFile _ _ recordSize recordNumber file =>
    1 ≤ recordSize.toNat ∧ recordSize.toNat ≤ 244 ∧
      recordSize.toNat * recordNumber.toNat < file.length
  | .userFunction _ code data => 1 ≤ code.toNat ∧ code.toNat ≤ 0x7F ∧ data.length ≤ 252

/-- The record that is written of a file. -/
def fileRecord (fileNumber : UInt16) (recordSize : UInt8) (recordNumber : UInt16)
    (file : Bytes) : FileRecord :=
  ⟨fileNumber, recordNumber,
    padded ((file.drop (recordSize.toNat * recordNumber.toNat)).take recordSize.toNat)⟩

/-- The request that is sent; a value that is alone has a function of its own. -/
def request : Operation → Request
  | .readCoils _ address count => .readCoils address count
  | .readDiscreteInputs _ address count => .readDiscreteInputs address count
  | .readHoldingRegisters _ address count => .readHoldingRegisters address count
  | .readInputRegisters _ address count => .readInputRegisters address count
  | .writeCoils _ address [state] => .writeSingleCoil address state
  | .writeCoils _ address coils => .writeMultipleCoils address (.ofList coils)
  | .writeHoldingRegisters _ address [value] => .writeSingleRegister address value
  | .writeHoldingRegisters _ address words => .writeMultipleRegisters address (.ofList words)
  | .writeFile _ fileNumber recordSize recordNumber file =>
    .writeFileRecord (fileRecord fileNumber recordSize recordNumber file)
  | .userFunction _ code data => .custom code data

/-- What is made of a response that carries the function of the request. -/
def interpret (response : Bytes) : Operation → Except Error Answer
  | .readCoils _ _ count | .readDiscreteInputs _ _ count => .bits <$> acceptBits count response
  | .readHoldingRegisters _ _ count | .readInputRegisters _ _ count =>
    .words <$> acceptWords count response
  | .writeCoils _ address [state] =>
    (fun _ => .done) <$> protocol (checkEcho address (coilWord state) response)
  | .writeCoils _ address coils =>
    (fun _ => .done) <$> protocol (checkEcho address coils.length.toUInt16 response)
  | .writeHoldingRegisters _ address [value] =>
    (fun _ => .done) <$> protocol (checkEcho address value response)
  | .writeHoldingRegisters _ address words =>
    (fun _ => .done) <$> protocol (checkEcho address words.length.toUInt16 response)
  | .writeFile _ fileNumber recordSize recordNumber file =>
    (fun _ => .done) <$> acceptRecord (fileRecord fileNumber recordSize recordNumber file) response
  | .userFunction .. => .ok (.data response.tail)

/-- What is made of a response. -/
def accept (operation : Operation) (response : Bytes) : Except Error Answer := do
  checkFunction operation.request.function response
  operation.interpret response

theorem length_padded (bytes : Bytes) :
    (padded bytes).length = bytes.length + bytes.length % 2 := by
  unfold padded
  split
  · omega
  · simp
    omega

theorem length_request_le {operation : Operation} (h : operation.Admissible) :
    operation.request.length ≤ maxPduLength := by
  cases operation with
  | writeCoils unit address coils =>
    obtain ⟨hpos, hmax⟩ := h
    rcases coils with _ | ⟨state, _ | ⟨next, rest⟩⟩
    · simp at hpos
    · simp [request, Request.length, maxPduLength]
    · simp only [request, Request.length, Coils.ofList, Bits.packedLength, maxPduLength]
      omega
  | writeHoldingRegisters unit address words =>
    obtain ⟨hpos, hmax⟩ := h
    rcases words with _ | ⟨value, _ | ⟨next, rest⟩⟩
    · simp at hpos
    · simp [request, Request.length, maxPduLength]
    · simp only [request, Request.length, Registers.ofList, maxPduLength]
      omega
  | writeFile unit fileNumber recordSize recordNumber file =>
    obtain ⟨hpos, hmax, hin⟩ := h
    simp only [request, Request.length, fileRecord, length_padded, List.length_take, maxPduLength]
    omega
  | userFunction unit code data =>
    obtain ⟨-, -, hlen⟩ := h
    simp only [request, Request.length, maxPduLength]
    omega
  | _ => simp [request, Request.length, maxPduLength]

theorem checkQuantity_ok {quantity max : Nat} (hpos : 1 ≤ quantity) (hmax : quantity ≤ max) :
    checkQuantity quantity max = .ok () := by
  rw [checkQuantity, if_neg (by omega)]

/-- A call whose response is judged by what it holds. -/
theorem call_bind_verdict {α : Type} (transport : Transport τ) (unit : UInt8) (request : Request)
    (h : request.length ≤ maxPduLength) (judge : Bytes → Except Error α) :
    (call transport unit request >>= fun response => verdict (judge response)) =
      transport.exchange unit request.pdu >>= fun response =>
        verdict (checkFunction request.function response >>= fun _ => judge response) := by
  rw [call_eq_exchange _ _ _ h, bind_assoc]
  congr
  funext response
  rw [verdict_bind]
  cases checkFunction request.function response <;> rfl

theorem readBits_eq_exchange (transport : Transport τ) (unit : UInt8) (request : Request)
    (count : UInt16) (hlen : request.length ≤ maxPduLength) (hpos : 1 ≤ count.toNat)
    (hmax : count.toNat ≤ maxReadBits) :
    readBits transport unit request count =
      transport.exchange unit request.pdu >>= fun response =>
        verdict (checkFunction request.function response >>= fun _ =>
          acceptBits count response) := by
  rw [← call_bind_verdict _ _ _ hlen, readBits, checkQuantity_ok hpos hmax, lift_eq,
    verdict_ok_bind]
  congr
  funext response
  rw [acceptBits]
  cases protocol (readResponse (Bits.packedLength count.toNat) response) with
  | error cause => rfl
  | ok read => cases read <;> rfl

theorem readWords_eq_exchange (transport : Transport τ) (unit : UInt8) (request : Request)
    (count : UInt16) (hlen : request.length ≤ maxPduLength) (hpos : 1 ≤ count.toNat)
    (hmax : count.toNat ≤ maxReadRegisters) :
    readWords transport unit request count =
      transport.exchange unit request.pdu >>= fun response =>
        verdict (checkFunction request.function response >>= fun _ =>
          acceptWords count response) := by
  rw [← call_bind_verdict _ _ _ hlen, readWords, checkQuantity_ok hpos hmax, lift_eq,
    verdict_ok_bind]
  congr
  funext response
  rw [acceptWords]
  cases protocol (readResponse (2 * count.toNat) response) with
  | error cause => rfl
  | ok read => cases read <;> rfl

/-- An operation is given by its action, up to the form of its answer. -/
theorem map_exchange {α : Type} (transport : Transport τ) (unit : UInt8) (request : Request)
    (judge : Bytes → Except Error α) (f : α → Answer) :
    (f <$> (transport.exchange unit request.pdu >>= fun response =>
        verdict (checkFunction request.function response >>= fun _ => judge response)) :
      Exchange τ Answer) =
      transport.exchange unit request.pdu >>= fun response =>
        verdict (checkFunction request.function response >>= fun _ => f <$> judge response) := by
  rw [map_bind]
  congr
  funext response
  rw [map_verdict]
  cases checkFunction request.function response <;> rfl

theorem writeCoils_eq_exchange (transport : Transport τ) (unit : UInt8) (address : UInt16)
    (coils : List Bool) (h : (writeCoils unit address coils).Admissible) :
    (fun _ => Answer.done) <$> Master.writeCoils transport unit address coils =
      transport.exchange unit (writeCoils unit address coils).request.pdu >>= fun response =>
        verdict ((writeCoils unit address coils).accept response) := by
  have hlen := length_request_le h
  obtain ⟨hpos, hmax⟩ := h
  rcases coils with _ | ⟨state, _ | ⟨next, rest⟩⟩
  · simp at hpos
  · exact (congrArg _ (call_bind_verdict _ _ _ hlen _)).trans (map_exchange _ _ _ _ _)
  · have hquantity : checkQuantity (state :: next :: rest).length maxWriteCoils = .ok () :=
      checkQuantity_ok hpos hmax
    have hblock : Coils.packInto (state :: next :: rest)
        (scratch (Bits.packedLength maxWriteCoils)) = .ok (.ofList (state :: next :: rest)) := by
      apply Coils.packInto_ok
      rw [length_scratch, Bits.packedLength, Bits.packedLength, maxWriteCoils]
      omega
    simp only [Master.writeCoils, hquantity, hblock, protocol_ok, lift_eq, verdict_ok_bind]
    exact (congrArg _ (call_bind_verdict _ _ _ hlen _)).trans (map_exchange _ _ _ _ _)

theorem writeHoldingRegisters_eq_exchange (transport : Transport τ) (unit : UInt8)
    (address : UInt16) (words : List UInt16)
    (h : (writeHoldingRegisters unit address words).Admissible) :
    (fun _ => Answer.done) <$> Master.writeHoldingRegisters transport unit address words =
      transport.exchange unit (writeHoldingRegisters unit address words).request.pdu >>=
        fun response => verdict ((writeHoldingRegisters unit address words).accept response) := by
  have hlen := length_request_le h
  obtain ⟨hpos, hmax⟩ := h
  rcases words with _ | ⟨value, _ | ⟨next, rest⟩⟩
  · simp at hpos
  · exact (congrArg _ (call_bind_verdict _ _ _ hlen _)).trans (map_exchange _ _ _ _ _)
  · have hquantity : checkQuantity (value :: next :: rest).length maxWriteRegisters = .ok () :=
      checkQuantity_ok hpos hmax
    have hblock : Registers.packInto (value :: next :: rest) (scratch (2 * maxWriteRegisters)) =
        .ok (.ofList (value :: next :: rest)) := by
      apply Registers.packInto_ok
      rw [length_scratch]
      exact Nat.mul_le_mul_left 2 hmax
    simp only [Master.writeHoldingRegisters, hquantity, hblock, protocol_ok, lift_eq, verdict_ok_bind]
    exact (congrArg _ (call_bind_verdict _ _ _ hlen _)).trans (map_exchange _ _ _ _ _)

theorem fileWindow_ok {file : Bytes} {recordSize : UInt8} {recordNumber : UInt16}
    (hpos : 1 ≤ recordSize.toNat) (hmax : recordSize.toNat ≤ 244)
    (hin : recordSize.toNat * recordNumber.toNat < file.length) :
    fileWindow file recordSize recordNumber =
      .ok ((file.drop (recordSize.toNat * recordNumber.toNat)).take recordSize.toNat) := by
  have hfile : file.isEmpty = false := by
    cases file with
    | nil => simp at hin
    | cons => rfl
  have hsize : ¬ (recordSize = 0 ∨ maxRecordSize < recordSize) := by
    rintro (hzero | hlarge)
    · rw [hzero] at hpos
      exact absurd hpos (by decide)
    · have hlt : (244 : UInt8).toNat < recordSize.toNat := UInt8.lt_iff_toNat_lt.mp hlarge
      exact absurd hmax (by simpa using hlt)
  simp only [fileWindow, hfile, hsize, if_false, Bool.false_eq_true]
  rw [if_neg (by omega)]

theorem writeFile_eq_exchange (transport : Transport τ) (unit : UInt8) (fileNumber : UInt16)
    (recordSize : UInt8) (recordNumber : UInt16) (file : Bytes)
    (h : (writeFile unit fileNumber recordSize recordNumber file).Admissible) :
    (fun _ => Answer.done) <$>
        Master.writeFile transport unit fileNumber recordSize recordNumber file =
      transport.exchange unit
          (writeFile unit fileNumber recordSize recordNumber file).request.pdu >>= fun response =>
        verdict ((writeFile unit fileNumber recordSize recordNumber file).accept response) := by
  have hlen := length_request_le h
  obtain ⟨hpos, hmax, hin⟩ := h
  have hwindow : ((file.drop (recordSize.toNat * recordNumber.toNat)).take
      recordSize.toNat).length ≤ 244 := Nat.le_trans (List.length_take_le _ _) hmax
  rw [Master.writeFile, fileWindow_ok hpos hmax hin]
  simp only [recordData_ok hwindow, protocol_ok, lift_eq, verdict_ok_bind]
  refine (congrArg _ ?_).trans ((congrArg _ (call_bind_verdict _ _ _ hlen
    (acceptRecord (fileRecord fileNumber recordSize recordNumber file)))).trans
      (map_exchange _ _ _ _ _))
  refine congrArg (_ >>= ·) (funext fun response => ?_)
  rw [acceptRecord]
  cases protocol (Response.ofPdu response) with
  | error cause => rfl
  | ok read =>
    cases read with
    | writeFileRecord echo =>
      change (if echo ≠ fileRecord fileNumber recordSize recordNumber file then _ else _) =
        verdict (if echo ≠ fileRecord fileNumber recordSize recordNumber file then _ else _)
      split <;> rfl
    | _ => rfl

theorem userFunction_eq_exchange (transport : Transport τ) (unit code : UInt8) (data : Bytes)
    (h : (userFunction unit code data).Admissible) :
    Answer.data <$> Master.userFunction transport unit code data =
      transport.exchange unit (userFunction unit code data).request.pdu >>= fun response =>
        verdict ((userFunction unit code data).accept response) := by
  have hlen := length_request_le h
  obtain ⟨hpos, hmax, hdata⟩ := h
  have hcode : ¬ (code = 0 ∨ 0x80 ≤ code) := by
    rintro (hzero | hhigh)
    · rw [hzero] at hpos
      exact absurd hpos (by decide)
    · have hle : (0x80 : UInt8).toNat ≤ code.toNat := UInt8.le_iff_toNat_le.mp hhigh
      exact absurd hmax (Nat.not_le.mpr hle)
  have hshort : ¬ maxPduLength ≤ data.length := by
    rw [maxPduLength]
    omega
  rw [Master.userFunction, if_neg hcode, if_neg hshort]
  exact (congrArg _ (call_bind_verdict _ _ _ hlen fun response => .ok response.tail)).trans
    (map_exchange _ _ _ _ _)

/-- What an operation does is one exchange, and what it gives back is a judgement on the
response. -/
theorem perform_eq_exchange (transport : Transport τ) {operation : Operation}
    (h : operation.Admissible) :
    operation.perform transport =
      transport.exchange operation.unit operation.request.pdu >>= fun response =>
        verdict (operation.accept response) := by
  have hlen := length_request_le h
  cases operation with
  | readCoils unit address count | readDiscreteInputs unit address count =>
    exact (congrArg _ (readBits_eq_exchange _ _ _ _ hlen h.1 h.2)).trans (map_exchange _ _ _ _ _)
  | readHoldingRegisters unit address count | readInputRegisters unit address count =>
    exact (congrArg _ (readWords_eq_exchange _ _ _ _ hlen h.1 h.2)).trans (map_exchange _ _ _ _ _)
  | writeCoils unit address coils => exact writeCoils_eq_exchange _ _ _ _ h
  | writeHoldingRegisters unit address words => exact writeHoldingRegisters_eq_exchange _ _ _ _ h
  | writeFile unit fileNumber recordSize recordNumber file =>
    exact writeFile_eq_exchange _ _ _ _ _ _ h
  | userFunction unit code data => exact userFunction_eq_exchange _ _ _ _ h

theorem perform_run (transport : Transport τ) {operation : Operation} (h : operation.Admissible)
    (t : τ) :
    (operation.perform transport).run.run t =
      (((transport.exchange operation.unit operation.request.pdu).run.run t).1 >>=
          operation.accept,
        ((transport.exchange operation.unit operation.request.pdu).run.run t).2) := by
  rw [perform_eq_exchange transport h, run_bind_verdict]

end Operation

end Master

end Modbus
