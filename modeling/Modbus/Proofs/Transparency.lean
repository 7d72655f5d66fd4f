import Modbus.Device.Memory
import Modbus.Proofs.Acceptance
import Modbus.Proofs.DeviceBlock

/-! A master in front of a device gives what the service itself gives. Over
any connection whose exchanges a service answers, the reads and writes of
values have the result of one call to the service, an exception where that
call is refused or fails, and the same effect on its state. -/

namespace Modbus

variable {σ τ : Type}

namespace Master

namespace Operation

/-- Reads and writes of coils, inputs and registers. -/
def OnValues : Operation → Prop
  | .writeFile .. | .userFunction .. => False
  | _ => True

/-- The same operation on the service itself. -/
def direct (service : Device.Service σ) :
    (operation : Operation) → operation.OnValues → StateM σ (Except Exception Answer)
  | .readCoils unit address count, _ =>
    (·.map .bits) <$> Device.onBlock service .readCoils address count.toNat
      (fun values => decide (values.length = count.toNat))
      (service.handle (.readCoils unit address count))
  | .readDiscreteInputs unit address count, _ =>
    (·.map .bits) <$> Device.onBlock service .readDiscreteInputs address count.toNat
      (fun values => decide (values.length = count.toNat))
      (service.handle (.readDiscreteInputs unit address count))
  | .readHoldingRegisters unit address count, _ =>
    (·.map .words) <$> Device.onBlock service .readHoldingRegisters address count.toNat
      (fun values => decide (values.length = count.toNat))
      (service.handle (.readHoldingRegisters unit address count))
  | .readInputRegisters unit address count, _ =>
    (·.map .words) <$> Device.onBlock service .readInputRegisters address count.toNat
      (fun values => decide (values.length = count.toNat))
      (service.handle (.readInputRegisters unit address count))
  | .writeCoils unit address coils, _ =>
    (·.map fun _ => .done) <$> Device.onBlock service
      (if coils.length = 1 then .writeSingleCoil else .writeMultipleCoils) address coils.length
      (fun _ => true) (service.handle (.writeCoils unit address coils))
  | .writeHoldingRegisters unit address words, _ =>
    (·.map fun _ => .done) <$> Device.onBlock service
      (if words.length = 1 then .writeSingleRegister else .writeMultipleRegisters) address
      words.length (fun _ => true) (service.handle (.writeHoldingRegisters unit address words))

theorem toByte_lt {function : FunctionCode} (h : ∀ code, function ≠ .custom code) :
    function.toByte < 0x80 := by
  cases function with
  | custom code => exact absurd rfl (h code)
  | _ => decide

/-- A value operation sends a request that reads back as it was, with a function below `0x80`. -/
theorem request_readable {operation : Operation} (hvalues : operation.OnValues)
    (h : operation.Admissible) :
    operation.request.OutsideCatalogue ∧ operation.request.Fits ∧
      operation.request.function.toByte < 0x80 := by
  cases operation with
  | writeCoils unit address coils =>
    obtain ⟨hpos, hmax⟩ := h
    rcases coils with _ | ⟨state, _ | ⟨next, rest⟩⟩
    · simp at hpos
    · exact ⟨trivial, trivial, toByte_lt nofun⟩
    · exact ⟨trivial, Nat.le_trans hmax (by decide), toByte_lt nofun⟩
  | writeHoldingRegisters unit address words =>
    obtain ⟨hpos, hmax⟩ := h
    rcases words with _ | ⟨value, _ | ⟨next, rest⟩⟩
    · simp at hpos
    · exact ⟨trivial, trivial, toByte_lt nofun⟩
    · exact ⟨trivial, Nat.le_trans hmax (by decide), toByte_lt nofun⟩
  | writeFile | userFunction => exact hvalues.elim
  | _ => exact ⟨trivial, trivial, toByte_lt nofun⟩

/-- What the operation makes of the response to its request is what the service itself gives. -/
def Agrees (service : Device.Service σ) (operation : Operation)
    (direct : StateM σ (Except Exception Answer)) : Prop :=
  ∀ s, let served := (Device.serve service operation.unit operation.request.function.toByte
      operation.request.fields).run.run s
    operation.accept (Device.responsePdu operation.request.function.toByte served.1) =
        ((direct.run s).1.mapError .exception) ∧ served.2 = (direct.run s).2

theorem accept_exception {operation : Operation} (hvalues : operation.OnValues)
    (h : operation.Admissible) (exception : Exception) :
    operation.accept (Device.responsePdu operation.request.function.toByte (.error exception)) =
      .error (.exception exception) := by
  obtain ⟨hcat, -, hlow⟩ := request_readable hvalues h
  rw [accept, Device.responsePdu, Request.ofByte_function hcat, checkFunction_exception hlow]
  rfl

/-- An operation agrees with the service itself if the device works on the block, and the master
takes what is given back from the response. -/
theorem agrees_of_perform {α : Type} (service : Device.Service σ) (operation : Operation)
    (hvalues : operation.OnValues) (h : operation.Admissible) (address : UInt16) (count : Nat)
    (fits : α → Bool) (handler : StateM σ (Device.Outcome α)) (response : α → Response)
    (answer : α → Answer)
    (hperform : Device.perform service operation.unit operation.request.fields
      operation.request = Device.blockWork address count fits handler response)
    (hlen : ∀ a, fits a = true → (response a).length ≤ maxPduLength)
    (haccept : ∀ a, fits a = true → operation.accept (response a).pdu = .ok (answer a)) :
    operation.Agrees service ((·.map answer) <$>
      Device.onBlock service operation.request.function address count fits handler) := by
  intro s
  obtain ⟨hcat, hfits, -⟩ := request_readable hvalues h
  rw [Device.serve_pdu _ _ hcat hfits, hperform, Device.blockWork_eq_onBlock _ _ _ _ _ _ _ hlen]
  simp only [ExceptT.run_map, ExceptT.run_mk, StateT.run_map]
  cases hrun : (Device.onBlock service operation.request.function address count fits
      handler).run s with
  | mk outcome s' =>
    cases outcome with
    | ok a => exact ⟨haccept a (Device.fits_of_onBlock hrun), rfl⟩
    | error exception => exact ⟨accept_exception hvalues h exception, rfl⟩

/-- What is given back of a response that carries the function of the request. -/
theorem accept_pdu (operation : Operation) (hvalues : operation.OnValues)
    (h : operation.Admissible) {response : Response}
    (hfun : response.function = operation.request.function) :
    operation.accept response.pdu = operation.interpret response.pdu := by
  obtain ⟨-, -, hlow⟩ := request_readable hvalues h
  rw [accept, checkFunction_pdu hlow hfun]
  rfl

theorem packedLength_le {values : List Bool} {count : UInt16} (h : values.length = count.toNat)
    (hmax : count.toNat ≤ 2000) : 2 + Bits.packedLength values.length ≤ maxPduLength := by
  rw [h, Bits.packedLength, maxPduLength]
  omega

theorem agrees_readCoils (service : Device.Service σ) (unit : UInt8) (address count : UInt16)
    (h : (readCoils unit address count).Admissible) :
    (readCoils unit address count).Agrees service
      ((readCoils unit address count).direct service trivial) := by
  refine agrees_of_perform service (readCoils unit address count) trivial h address count.toNat _ _
    (fun values => .readCoils (.ofList values)) .bits (Device.read_eq_blockWork _ _ _ _ h.1 h.2)
    (fun values hfits => packedLength_le (of_decide_eq_true hfits) h.2) (fun values hfits => ?_)
  rw [accept_pdu (readCoils unit address count) trivial h rfl, interpret,
    acceptBits_pdu (.inl rfl) (of_decide_eq_true hfits) h.2]
  rfl

theorem agrees_readDiscreteInputs (service : Device.Service σ) (unit : UInt8)
    (address count : UInt16) (h : (readDiscreteInputs unit address count).Admissible) :
    (readDiscreteInputs unit address count).Agrees service
      ((readDiscreteInputs unit address count).direct service trivial) := by
  refine agrees_of_perform service (readDiscreteInputs unit address count) trivial h address
    count.toNat _ _ (fun values => .readDiscreteInputs (.ofList values)) .bits
    (Device.read_eq_blockWork _ _ _ _ h.1 h.2)
    (fun values hfits => packedLength_le (of_decide_eq_true hfits) h.2) (fun values hfits => ?_)
  rw [accept_pdu (readDiscreteInputs unit address count) trivial h rfl, interpret,
    acceptBits_pdu (.inr rfl) (of_decide_eq_true hfits) h.2]
  rfl

theorem bytesLength_le {values : List UInt16} {count : UInt16} (h : values.length = count.toNat)
    (hmax : count.toNat ≤ 123) : 2 + 2 * values.length ≤ maxPduLength := by
  rw [h, maxPduLength]
  omega

theorem agrees_readHoldingRegisters (service : Device.Service σ) (unit : UInt8)
    (address count : UInt16) (h : (readHoldingRegisters unit address count).Admissible) :
    (readHoldingRegisters unit address count).Agrees service
      ((readHoldingRegisters unit address count).direct service trivial) := by
  refine agrees_of_perform service (readHoldingRegisters unit address count) trivial h address
    count.toNat _ _ (fun values => .readHoldingRegisters (.ofList values)) .words
    (Device.read_eq_blockWork _ _ _ _ h.1 (Nat.le_trans h.2 (by decide)))
    (fun values hfits => bytesLength_le (of_decide_eq_true hfits) h.2) (fun values hfits => ?_)
  rw [accept_pdu (readHoldingRegisters unit address count) trivial h rfl, interpret,
    acceptWords_pdu (.inl rfl) (of_decide_eq_true hfits) h.2]
  rfl

theorem agrees_readInputRegisters (service : Device.Service σ) (unit : UInt8)
    (address count : UInt16) (h : (readInputRegisters unit address count).Admissible) :
    (readInputRegisters unit address count).Agrees service
      ((readInputRegisters unit address count).direct service trivial) := by
  refine agrees_of_perform service (readInputRegisters unit address count) trivial h address
    count.toNat _ _ (fun values => .readInputRegisters (.ofList values)) .words
    (Device.read_eq_blockWork _ _ _ _ h.1 (Nat.le_trans h.2 (by decide)))
    (fun values hfits => bytesLength_le (of_decide_eq_true hfits) h.2) (fun values hfits => ?_)
  rw [accept_pdu (readInputRegisters unit address count) trivial h rfl, interpret,
    acceptWords_pdu (.inr rfl) (of_decide_eq_true hfits) h.2]
  rfl

theorem agrees_writeCoils (service : Device.Service σ) (unit : UInt8) (address : UInt16)
    (coils : List Bool) (h : (writeCoils unit address coils).Admissible) :
    (writeCoils unit address coils).Agrees service
      ((writeCoils unit address coils).direct service trivial) := by
  have hlen : 5 ≤ maxPduLength := by decide
  rcases coils with _ | ⟨state, _ | ⟨next, rest⟩⟩
  · exact absurd h.1 (Nat.not_succ_le_zero 0)
  · refine agrees_of_perform service (writeCoils unit address [state]) trivial h address 1 _ _
      (fun _ => .writeSingleCoil address state) (fun _ => .done)
      (Device.single_eq_blockWork _ _ _) (fun _ _ => hlen) (fun _ _ => ?_)
    rw [accept_pdu (writeCoils unit address [state]) trivial h rfl, interpret,
      checkEcho_pdu (.writeSingleCoil address state) trivial trivial rfl]
    rfl
  · refine agrees_of_perform service (writeCoils unit address (state :: next :: rest)) trivial h
      address _ _ _ _ (fun _ => .done)
      (Device.perform_writeMultipleCoils service unit _ address h.1 h.2) (fun _ _ => hlen)
      (fun _ _ => ?_)
    rw [accept_pdu (writeCoils unit address (state :: next :: rest)) trivial h rfl, interpret,
      checkEcho_pdu (.writeMultipleCoils address _) trivial trivial rfl]
    · rfl
    · simp

theorem agrees_writeHoldingRegisters (service : Device.Service σ) (unit : UInt8)
    (address : UInt16) (words : List UInt16)
    (h : (writeHoldingRegisters unit address words).Admissible) :
    (writeHoldingRegisters unit address words).Agrees service
      ((writeHoldingRegisters unit address words).direct service trivial) := by
  have hlen : 5 ≤ maxPduLength := by decide
  rcases words with _ | ⟨value, _ | ⟨next, rest⟩⟩
  · exact absurd h.1 (Nat.not_succ_le_zero 0)
  · refine agrees_of_perform service (writeHoldingRegisters unit address [value]) trivial h address
      1 _ _ (fun _ => .writeSingleRegister address value) (fun _ => .done)
      (Device.single_eq_blockWork _ _ _) (fun _ _ => hlen) (fun _ _ => ?_)
    rw [accept_pdu (writeHoldingRegisters unit address [value]) trivial h rfl, interpret,
      checkEcho_pdu (.writeSingleRegister address value) trivial trivial rfl]
    rfl
  · refine agrees_of_perform service (writeHoldingRegisters unit address (value :: next :: rest))
      trivial h address _ _ _ _ (fun _ => .done)
      (Device.perform_writeMultipleRegisters service unit _ address h.1 h.2) (fun _ _ => hlen)
      (fun _ _ => ?_)
    rw [accept_pdu (writeHoldingRegisters unit address (value :: next :: rest)) trivial h rfl,
      interpret, checkEcho_pdu (.writeMultipleRegisters address _) trivial trivial rfl]
    · rfl
    · simp

/-- Every read or write of values has at the far end the effect that it has on the service
itself, and comes back as it does there. -/
theorem agrees_direct (service : Device.Service σ) {operation : Operation}
    (hvalues : operation.OnValues) (h : operation.Admissible) :
    operation.Agrees service (operation.direct service hvalues) := by
  cases operation with
  | readCoils => exact agrees_readCoils _ _ _ _ h
  | readDiscreteInputs => exact agrees_readDiscreteInputs _ _ _ _ h
  | readHoldingRegisters => exact agrees_readHoldingRegisters _ _ _ _ h
  | readInputRegisters => exact agrees_readInputRegisters _ _ _ _ h
  | writeCoils => exact agrees_writeCoils _ _ _ _ h
  | writeHoldingRegisters => exact agrees_writeHoldingRegisters _ _ _ _ h
  | writeFile | userFunction => exact hvalues.elim

end Operation

end Master

/-- A connection to a device: whatever the service answers to a request comes back from one
exchange, and the service is left as that answer leaves it. -/
def Transport.AnsweredBy (transport : Transport τ) (service : Device.Service σ)
    (device : τ → σ) : Prop :=
  ∀ t unit pdu response s', (Device.answer service unit pdu).run (device t) = (some response, s') →
    ∃ t', (transport.exchange unit pdu).run.run t = (.ok response, t') ∧ device t' = s'

namespace Device

/-- The connection to a service with nothing in between: what it answers is there at once. -/
def attached (service : Service σ) : Transport (σ × Option Bytes) where
  connect := pure ()
  send unit pdu := ExceptT.mk fun (s, _) =>
    (.ok (), ((answer service unit pdu).run s).2, ((answer service unit pdu).run s).1)
  receive _ := ExceptT.mk fun (s, response) =>
    match response with
    | some pdu => (.ok pdu, s, none)
    | none => (.error (.protocol .bufferSize), s, none)
  close := pure ()
  isConnected _ := true

theorem attached_answeredBy (service : Service σ) :
    (attached service).AnsweredBy service Prod.fst := by
  rintro ⟨s, pending⟩ unit pdu response s' hanswer
  refine ⟨(s', none), ?_, rfl⟩
  change ((attached service).receive unit).run.run
    (((answer service unit pdu).run s).2, ((answer service unit pdu).run s).1) = _
  rw [hanswer]
  rfl

end Device

namespace Master.Operation

/-- A master in front of a device is transparent: over a connection to the device, an operation
has the result of the operation on the service itself and leaves the service as that does. -/
theorem perform_eq_direct {transport : Transport τ} {service : Device.Service σ} {device : τ → σ}
    (hanswered : transport.AnsweredBy service device) {operation : Operation}
    (hvalues : operation.OnValues) (hadmissible : operation.Admissible) (t : τ) :
    let performed := (operation.perform transport).run.run t
    let done := (operation.direct service hvalues).run (device t)
    performed.1 = done.1.mapError .exception ∧ device performed.2 = done.2 := by
  obtain ⟨-, -, hlow⟩ := request_readable hvalues hadmissible
  obtain ⟨haccept, hafter⟩ := agrees_direct service hvalues hadmissible (device t)
  obtain ⟨t', hexchange, hdevice⟩ := hanswered t operation.unit operation.request.pdu _ _
    (Device.answer_run service operation.unit operation.request.fields hlow (device t))
  simp only [perform_run transport hadmissible, hexchange]
  exact ⟨haccept, hdevice.trans hafter⟩

theorem perform_eq_direct_nine_coils :
    let coils := [true, false, true, true, false, false, false, true, true]
    let service := Device.Handlers.service { writeCoils := some Device.Memory.writeCoils }
    let performed := ((writeCoils 1 3 coils).perform (Device.attached service)).run.run
      ({ coils := List.replicate 13 false }, none)
    performed.1 = .ok .done ∧
      performed.2.1 = { coils := [false, false, false] ++ coils ++ [false] } := by
  intro coils service
  have hvalues : (writeCoils 1 3 coils).OnValues := trivial
  have hadmissible : (writeCoils 1 3 coils).Admissible := ⟨by decide, by decide⟩
  obtain ⟨hresult, hdevice⟩ := perform_eq_direct (Device.attached_answeredBy service) hvalues
    hadmissible ({ coils := List.replicate 13 false }, none)
  exact ⟨hresult.trans rfl, hdevice.trans rfl⟩

end Master.Operation

end Modbus
