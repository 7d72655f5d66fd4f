import Modbus.Device.Memory
import Modbus.Proofs.DeviceBlock
import Modbus.Proofs.RequestCodec

/-! The calls that a device makes of its service. Everything that can be wrong
with a request is found before the service is called, in a fixed order. A
request with nothing wrong leads to one call, the one that the request stands
for, and the answer depends on the outcome of that call only. -/

namespace Modbus

/-- The values that a request is about, and how many they may be. -/
structure Block where
  address : UInt16
  count : Nat
  max : Nat

namespace Block

def Allowed (block : Block) : Prop := 1 ≤ block.count ∧ block.count ≤ block.max

def InRange (block : Block) : Prop := block.address.toNat + block.count ≤ 65536

instance (block : Block) : Decidable block.Allowed :=
  inferInstanceAs (Decidable (1 ≤ block.count ∧ block.count ≤ block.max))

instance (block : Block) : Decidable block.InRange :=
  inferInstanceAs (Decidable (block.address.toNat + block.count ≤ 65536))

theorem check_not_allowed {block : Block} (h : ¬ block.Allowed) :
    Device.checkBlock block.address block.count block.max = .error .illegalDataValue := by
  rw [Allowed] at h
  rw [Device.checkBlock, if_pos (by omega)]

theorem check_not_inRange {block : Block} (hallowed : block.Allowed) (h : ¬ block.InRange) :
    Device.checkBlock block.address block.count block.max = .error .illegalDataAddress := by
  rw [InRange] at h
  rw [Device.checkBlock_admissible hallowed.1 hallowed.2, if_pos (by omega)]

end Block

namespace Request

/-- The block of a read or of a write of several values. -/
def block? : Request → Option Block
  | .readCoils address quantity | .readDiscreteInputs address quantity =>
    some ⟨address, quantity.toNat, 2000⟩
  | .readHoldingRegisters address quantity | .readInputRegisters address quantity =>
    some ⟨address, quantity.toNat, 125⟩
  | .writeMultipleCoils address coils => some ⟨address, coils.count, 1968⟩
  | .writeMultipleRegisters address registers => some ⟨address, registers.count, 123⟩
  | _ => none

/-- The call that a request stands for; `data` is what stands behind its function code. -/
def call (unit : UInt8) (data : Bytes) : Request → Device.Call
  | .readCoils address quantity => .readCoils unit address quantity
  | .readDiscreteInputs address quantity => .readDiscreteInputs unit address quantity
  | .readHoldingRegisters address quantity => .readHoldingRegisters unit address quantity
  | .readInputRegisters address quantity => .readInputRegisters unit address quantity
  | .writeSingleCoil address state => .writeCoils unit address [state]
  | .writeSingleRegister address value => .writeHoldingRegisters unit address [value]
  | .writeMultipleCoils address coils => .writeCoils unit address coils.toList
  | .writeMultipleRegisters address registers =>
    .writeHoldingRegisters unit address registers.toList
  | .writeFileRecord _ => .function unit 0x15 data
  | .custom code _ => .function unit code data

/-- The response with values that were read, as many as asked for. -/
def readConclusion {α : Type} (quantity : UInt16) (response : List α → Response)
    (values : List α) : Except Exception Response :=
  if values.length = quantity.toNat then .ok (response values) else .error .serverDeviceFailure

/-- The response of a function without a call of its own. -/
def functionConclusion (code : UInt8) : Option Bytes → Except Exception Response
  | none => .error .illegalFunction
  | some answer =>
    if 252 < answer.length then .error .serverDeviceFailure else .ok (.custom code answer)

/-- What becomes of the value that the call gave back. -/
def conclude (unit : UInt8) (data : Bytes) : (request : Request) →
    (request.call unit data).Answer → Except Exception Response
  | .readCoils _ quantity, coils => readConclusion quantity (.readCoils <| .ofList ·) coils
  | .readDiscreteInputs _ quantity, inputs =>
    readConclusion quantity (.readDiscreteInputs <| .ofList ·) inputs
  | .readHoldingRegisters _ quantity, words =>
    readConclusion quantity (.readHoldingRegisters <| .ofList ·) words
  | .readInputRegisters _ quantity, words =>
    readConclusion quantity (.readInputRegisters <| .ofList ·) words
  | .writeSingleCoil address state, () => .ok (.writeSingleCoil address state)
  | .writeSingleRegister address value, () => .ok (.writeSingleRegister address value)
  | .writeMultipleCoils address coils, () =>
    .ok (.writeMultipleCoils address coils.count.toUInt16)
  | .writeMultipleRegisters address registers, () =>
    .ok (.writeMultipleRegisters address registers.count.toUInt16)
  | .writeFileRecord _, answer => functionConclusion 0x15 answer
  | .custom code _, answer => functionConclusion code answer

end Request

/-- What is answered in the end, when a value leads to the response that `conclude` tells. -/
def Device.Outcome.judged {α : Type} (conclude : α → Except Exception Response) :
    Device.Outcome α → Except Exception Bytes
  | .value a => (conclude a).map Response.pdu
  | .exception cause => .error cause
  | .panic => .error .serverDeviceFailure

/-- How many values a call of a read asks for, or one of a write hands over. -/
def Device.Call.quantity? : Device.Call → Option Nat
  | .readCoils _ _ count | .readDiscreteInputs _ _ count
  | .readHoldingRegisters _ _ count | .readInputRegisters _ _ count => some count.toNat
  | .writeCoils _ _ coils => some coils.length
  | .writeHoldingRegisters _ _ words => some words.length
  | .function .. => none

/-- The call hands over or asks for as many values as the block has. -/
theorem Request.quantity_call {request : Request} {block : Block}
    (h : request.block? = some block) (unit : UInt8) (data : Bytes) :
    (request.call unit data).quantity? = some block.count := by
  cases request with
  | writeMultipleCoils address coils =>
    cases h
    exact congrArg some coils.length_toList
  | writeMultipleRegisters address registers =>
    cases h
    exact congrArg some registers.length_toList
  | writeSingleCoil | writeSingleRegister | writeFileRecord | custom => cases h
  | _ => cases h; rfl

/-- Address and quantity are the first two fields of a request with a block. -/
theorem Request.take_fields {request : Request} {block : Block}
    (h : request.block? = some block) :
    request.fields.take 4 = wordBytes block.address ++ wordBytes block.count.toUInt16 := by
  cases request with
  | writeMultipleCoils | writeMultipleRegisters => cases h; rfl
  | writeSingleCoil | writeSingleRegister | writeFileRecord | custom => cases h
  | _ => cases h; simp [fields, wordBytes, Nat.toUInt16]

namespace Device

variable {σ : Type}

/-- Nothing is done after a check that fails. -/
theorem bind_check_error {check : Except Exception Unit} {cause : Exception}
    (h : check = .error cause) (next : Unit → Work σ Bytes) :
    (liftM check : Work σ Unit) >>= next = throw cause := by
  rw [h]
  rfl

theorem perform_refused (service : Service σ) (unit : UInt8) (data : Bytes) {request : Request}
    {block : Block} (hblock : request.block? = some block) {cause : Exception}
    (h : checkBlock block.address block.count block.max = .error cause) :
    perform service unit data request = throw cause := by
  cases request with
  | writeSingleCoil | writeSingleRegister | writeFileRecord | custom => cases hblock
  | _ => cases hblock; exact bind_check_error h _

/-- The work on a block within the address space is one call, whose outcome is judged. -/
theorem blockWork_judged {α : Type} {address : UInt16} {count : Nat} {fits : α → Bool}
    {handler : StateM σ (Outcome α)} {response : α → Response}
    {conclude : α → Except Exception Response} (hin : address.toNat + count ≤ 65536)
    (hlen : ∀ a, fits a = true → (response a).length ≤ maxPduLength)
    (hconclude : ∀ a, conclude a =
      if fits a = true then .ok (response a) else .error .serverDeviceFailure) :
    blockWork address count fits handler response =
      ExceptT.mk (Outcome.judged conclude <$> handler) := by
  rw [blockWork, if_neg (by omega)]
  refine (fitting_respond handler response hlen).trans ?_
  apply ExceptT.ext
  apply StateT.ext
  intro s
  rw [ExceptT.run_map, ExceptT.run_mk, ExceptT.run_mk, StateT.run_map, StateT.run_map,
    StateT.run_map]
  cases handler.run s with
  | mk outcome s' =>
    cases outcome with
    | value a =>
      change (Except.map _ (if fits a = true then _ else _), s') = ((conclude a).map _, s')
      rw [hconclude a]
      split <;> rfl
    | exception cause => rfl
    | panic => rfl

theorem read_judged {α : Type} {address quantity : UInt16} {max : Nat}
    {handler : StateM σ (Outcome (List α))} {response : List α → Response}
    (hallowed : 1 ≤ quantity.toNat ∧ quantity.toNat ≤ max)
    (hin : address.toNat + quantity.toNat ≤ 65536)
    (hlen : ∀ values, values.length ≤ max → (response values).length ≤ maxPduLength) :
    (do
      checkBlock address quantity.toNat max
      let values ← callRead (ExceptT.mk (Outcome.toExcept <$> handler)) quantity
      respond (response values) : Work σ Bytes) =
    ExceptT.mk (Outcome.judged (Request.readConclusion quantity response) <$> handler) := by
  rw [read_eq_blockWork address quantity handler response hallowed.1 hallowed.2]
  refine blockWork_judged hin (fun values h => hlen values ?_) (fun values => ?_)
  · have hlength := of_decide_eq_true h
    omega
  · simp only [Request.readConclusion, decide_eq_true_eq]

theorem write_judged {address : UInt16} {count max : Nat} {handler : StateM σ (Outcome Unit)}
    (response : Response) (hallowed : 1 ≤ count ∧ count ≤ max)
    (hin : address.toNat + count ≤ 65536) (hlen : response.length ≤ maxPduLength) :
    (do
      checkBlock address count max
      (ExceptT.mk (Outcome.toExcept <$> handler) : Work σ Unit)
      respond response : Work σ Bytes) =
    ExceptT.mk (Outcome.judged (fun _ => .ok response) <$> handler) := by
  rw [write_eq_blockWork address handler response hallowed.1 hallowed.2]
  exact blockWork_judged hin (fun _ _ => hlen) (fun _ => rfl)

theorem single_judged (address : UInt16) {handler : StateM σ (Outcome Unit)}
    (response : Response) (hlen : response.length ≤ maxPduLength) :
    (do
      (ExceptT.mk (Outcome.toExcept <$> handler) : Work σ Unit)
      respond response : Work σ Bytes) =
    ExceptT.mk (Outcome.judged (fun _ => .ok response) <$> handler) := by
  rw [single_eq_blockWork address handler response]
  exact blockWork_judged (Nat.succ_le_of_lt address.toNat_lt) (fun _ _ => hlen) (fun _ => rfl)

/-- A user defined function is judged by what it gives back, if anything. -/
theorem performFunction_judged (service : Service σ) (unit : UInt8) (data : Bytes)
    (code : UInt8) :
    perform.performFunction service unit data code =
      ExceptT.mk (Outcome.judged (Request.functionConclusion code) <$>
        service.handle (.function unit code data)) := by
  unfold perform.performFunction
  apply ExceptT.ext
  apply StateT.ext
  intro s
  rw [call, ExceptT.run_bind, ExceptT.run_mk, ExceptT.run_mk, StateT.run_bind, StateT.run_map,
    StateT.run_map]
  cases (service.handle (.function unit code data)).run s with
  | mk outcome s' =>
    cases outcome with
    | value answer =>
      cases answer with
      | none => rfl
      | some answer =>
        change ((respond (.custom code answer)).run).run s' =
          (Except.map _ (if 252 < answer.length then _ else _), s')
        have hlength : maxPduLength < (Response.custom code answer).length ↔
            252 < answer.length := by
          rw [Response.length, maxPduLength]
          omega
        simp only [respond, hlength]
        split <;> rfl
    | exception cause => rfl
    | panic => rfl

/-- A request with nothing wrong leads to its call, and the outcome is judged. -/
theorem perform_judged (service : Service σ) (unit : UInt8) (data : Bytes) {request : Request}
    (h : ∀ block ∈ request.block?, block.Allowed ∧ block.InRange) :
    perform service unit data request =
      ExceptT.mk (Outcome.judged (request.conclude unit data) <$>
        service.handle (request.call unit data)) := by
  have hfive : 5 ≤ maxPduLength := by decide
  cases request with
  | readCoils address quantity | readDiscreteInputs address quantity =>
    obtain ⟨hallowed, hin⟩ := h _ rfl
    refine read_judged hallowed hin fun values (hmax : values.length ≤ 2000) => ?_
    simp only [Response.length, Coils.ofList, Bits.packedLength, maxPduLength]
    omega
  | readHoldingRegisters address quantity | readInputRegisters address quantity =>
    obtain ⟨hallowed, hin⟩ := h _ rfl
    refine read_judged hallowed hin fun values (hmax : values.length ≤ 125) => ?_
    simp only [Response.length, Registers.ofList, maxPduLength]
    omega
  | writeSingleCoil address state =>
    exact single_judged address (.writeSingleCoil address state) hfive
  | writeSingleRegister address value =>
    exact single_judged address (.writeSingleRegister address value) hfive
  | writeMultipleCoils address coils =>
    obtain ⟨hallowed, hin⟩ := h _ rfl
    exact write_judged (.writeMultipleCoils address _) hallowed hin hfive
  | writeMultipleRegisters address registers =>
    obtain ⟨hallowed, hin⟩ := h _ rfl
    exact write_judged (.writeMultipleRegisters address _) hallowed hin hfive
  | writeFileRecord record => exact performFunction_judged service unit data _
  | custom code _ => exact performFunction_judged service unit data code

/-- What a request leads to when the work on it ends in an exception without any effect. -/
theorem answer_refused (service : Service σ) (unit : UInt8) {code : UInt8} {data : Bytes}
    (h : code < 0x80) {cause : Exception} (hserve : serve service unit code data = throw cause)
    (s : σ) :
    (answer service unit (code :: data)).run s = (some [code ||| 0x80, cause.code], s) := by
  rw [answer_run service unit data h s, hserve]
  change (some (ExceptionResponse.pdu _), s) = _
  rw [ExceptionResponse.pdu, FunctionCode.toByte_ofByte]

theorem serve_unsupported (service : Service σ) (unit : UInt8) {code : UInt8} (data : Bytes)
    (h : service.supports (.ofByte code) = false) :
    serve service unit code data = throw .illegalFunction := by
  rw [serve, h, if_neg Bool.false_ne_true]

theorem serve_unreadable (service : Service σ) (unit : UInt8) {code : UInt8} {data : Bytes}
    (hsupports : service.supports (.ofByte code) = true) {cause : ProtocolError}
    (h : Request.ofPdu (code :: data) = .error cause) :
    serve service unit code data = throw .illegalDataValue := by
  rw [serve, hsupports, if_pos rfl, h]

theorem serve_readable (service : Service σ) (unit : UInt8) {code : UInt8} {data : Bytes}
    (hsupports : service.supports (.ofByte code) = true) {request : Request}
    (h : Request.ofPdu (code :: data) = .ok request) :
    serve service unit code data = perform service unit data request := by
  rw [serve, hsupports, if_pos rfl, h]

/-- What is wrong with a request is found in a fixed order and before the service is called, and
a request with nothing wrong leads to one call. It is the call that the request stands for, with
the values of the PDU, and the answer tells how that call ended. -/
theorem answer_calls_once (service : Service σ) (unit : UInt8) {code : UInt8} (data : Bytes)
    (h : code < 0x80) (s : σ) (calls : List Call) :
    let answered := (answer service.noted unit (code :: data)).run (s, calls)
    let refused (cause : Exception) := answered = (some [code ||| 0x80, cause.code], s, calls)
    (service.supports (.ofByte code) = false → refused .illegalFunction) ∧
    (service.supports (.ofByte code) = true →
      (∀ cause, Request.ofPdu (code :: data) = .error cause → refused .illegalDataValue) ∧
      (∀ request, Request.ofPdu (code :: data) = .ok request →
        (∀ block ∈ request.block?, ¬ block.Allowed → refused .illegalDataValue) ∧
        (∀ block ∈ request.block?, block.Allowed → ¬ block.InRange →
          refused .illegalDataAddress) ∧
        ((∀ block ∈ request.block?, block.Allowed ∧ block.InRange) →
          let call := request.call unit data
          let handled := (service.handle call).run s
          let response := responsePdu code (handled.1.judged (request.conclude unit data))
          answered = (some response, handled.2, calls ++ [call]) ∧
          request.pdu = code :: data ∧
          ∀ block ∈ request.block?, call.quantity? = some block.count ∧
            data.take 4 = wordBytes block.address ++ wordBytes block.count.toUInt16))) := by
  intro answered refused
  constructor
  · intro hsupports
    have hserve := serve_unsupported service.noted unit data hsupports
    exact answer_refused service.noted unit h hserve _
  intro hsupports
  constructor
  · intro cause hread
    have hserve := serve_unreadable service.noted unit hsupports hread
    exact answer_refused service.noted unit h hserve _
  intro request hread
  have hserve := serve_readable service.noted unit hsupports hread
  refine ⟨?_, ?_, ?_⟩
  · intro block hblock hallowed
    have hperform := perform_refused service.noted unit data hblock
      (Block.check_not_allowed hallowed)
    exact answer_refused service.noted unit h (hserve.trans hperform) _
  · intro block hblock hallowed hin
    have hperform := perform_refused service.noted unit data hblock
      (Block.check_not_inRange hallowed hin)
    exact answer_refused service.noted unit h (hserve.trans hperform) _
  · intro hblock
    have hperform := perform_judged service.noted unit data hblock
    obtain ⟨hpdu, -, -⟩ := Request.of_ofPdu hread
    refine ⟨?_, hpdu, ?_⟩
    · simp only [answered]
      rw [answer_run service.noted unit data h, hserve, hperform]
      rfl
    · intro block hmem
      refine ⟨Request.quantity_call hmem unit data, ?_⟩
      rw [← Request.take_fields hmem, (List.cons.inj hpdu).2]

theorem answer_calls_once_three_coils :
    let service := Handlers.service { writeCoils := some Memory.writeCoils }
    let memory : Memory := { coils := List.replicate 5 false }
    (answer service.noted 1 [0x0F, 0, 1, 0, 3, 1, 5]).run (memory, []) =
      (some [0x0F, 0, 1, 0, 3], { coils := [false, true, false, true, false] },
        [.writeCoils 1 1 [true, false, true]]) ∧
    (answer service.noted 1 [0x0F, 0xFF, 0xFF, 0, 2, 1, 3]).run (memory, []) =
      (some [0x8F, 2], memory, []) := by
  intro service memory
  have hcode : (0x0F : UInt8) < 0x80 := by decide
  obtain ⟨-, hthree⟩ := answer_calls_once service 1 [0, 1, 0, 3, 1, 5] hcode memory []
  obtain ⟨-, hthree⟩ := hthree rfl
  obtain ⟨-, -, hcall⟩ := hthree (.writeMultipleCoils 1 (.ofList [true, false, true])) rfl
  obtain ⟨hcall, -⟩ := hcall fun block hblock => by
    cases hblock
    exact ⟨by decide, by decide⟩
  obtain ⟨-, houtside⟩ := answer_calls_once service 1 [0xFF, 0xFF, 0, 2, 1, 3] hcode memory []
  obtain ⟨-, houtside⟩ := houtside rfl
  obtain ⟨-, hrefused, -⟩ := houtside (.writeMultipleCoils 0xFFFF (.ofList [true, true])) rfl
  have hrefused := hrefused ⟨0xFFFF, 2, 1968⟩ rfl ⟨by decide, by decide⟩ (by decide)
  exact ⟨hcall.trans rfl, hrefused⟩

end Device

end Modbus
