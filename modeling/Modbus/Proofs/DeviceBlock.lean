import Modbus.Proofs.DeviceAnswer

/-! The work of a device on a block of values. A service is asked only for a
supported function and a block within the address space, and what it gives back
has to fit; a read or write in a PDU comes to the same as asking the service
directly, with `onBlock`. -/

namespace Modbus.Device

variable {σ : Type}

/-- The outcome of a call that has to give back something that fits. -/
def Outcome.fitting {α : Type} (fits : α → Bool) : Outcome α → Except Exception α
  | .value a => if fits a then .ok a else .error .serverDeviceFailure
  | .exception cause => .error cause
  | .panic => .error .serverDeviceFailure

/-- What a service makes of a block of values when it is asked without a master and a PDU: the
function has to be supported and the block to end within the address space, and only then the
call is made. -/
def onBlock {α : Type} (service : Service σ) (function : FunctionCode) (address : UInt16)
    (count : Nat) (fits : α → Bool) (call : StateM σ (Outcome α)) :
    StateM σ (Except Exception α) :=
  if service.supports function = false then return .error .illegalFunction
  else if 0x10000 < address.toNat + count then return .error .illegalDataAddress
  else Outcome.fitting fits <$> call

theorem fits_of_fitting {α : Type} {fits : α → Bool} {outcome : Outcome α} {a : α}
    (h : outcome.fitting fits = .ok a) : fits a = true := by
  cases outcome with
  | value b =>
    rw [Outcome.fitting] at h
    split at h
    · cases h
      assumption
    · cases h
  | exception cause => cases h
  | panic => cases h

theorem fits_of_onBlock {α : Type} {service : Service σ} {function : FunctionCode}
    {address : UInt16} {count : Nat} {fits : α → Bool} {call : StateM σ (Outcome α)} {s s' : σ}
    {a : α} (h : (onBlock service function address count fits call).run s = (.ok a, s')) :
    fits a = true := by
  unfold onBlock at h
  split at h
  · cases h
  · split at h
    · cases h
    · exact fits_of_fitting (congrArg Prod.fst h)

theorem checkBlock_admissible {address : UInt16} {count max : Nat} (hpos : 1 ≤ count)
    (hmax : count ≤ max) :
    checkBlock address count max =
      if 0x10000 < address.toNat + count then .error .illegalDataAddress else .ok () := by
  rw [checkBlock, if_neg (by omega)]

/-- A read that gives back another number of values than asked for does not fit. -/
theorem callRead_eq_fitting {α : Type} (handler : StateM σ (Outcome (List α))) (count : UInt16) :
    callRead (ExceptT.mk (Outcome.toExcept <$> handler)) count =
      ExceptT.mk (Outcome.fitting (fun values => decide (values.length = count.toNat)) <$>
        handler) := by
  apply ExceptT.ext
  apply StateT.ext
  intro s
  rw [callRead, ExceptT.run_bind, ExceptT.run_mk, ExceptT.run_mk, StateT.run_bind,
    StateT.run_map, StateT.run_map]
  cases handler.run s with
  | mk outcome s' =>
    cases outcome with
    | value values =>
      change ((if values.length = count.toNat then pure values else throw .serverDeviceFailure :
          Work σ (List α)).run).run s' =
        (if decide (values.length = count.toNat) then .ok values else .error .serverDeviceFailure,
          s')
      by_cases h : values.length = count.toNat
      · rw [if_pos h, if_pos (decide_eq_true h)]
        rfl
      · rw [if_neg h, if_neg (mt of_decide_eq_true h)]
        rfl
    | exception cause => rfl
    | panic => rfl

/-- The outcome of a write fits, whatever it is. -/
theorem call_eq_fitting {α : Type} (handler : StateM σ (Outcome α)) :
    (ExceptT.mk (Outcome.toExcept <$> handler) : Work σ α) =
      ExceptT.mk (Outcome.fitting (fun _ => true) <$> handler) := by
  have hfun : (Outcome.toExcept : Outcome α → _) = Outcome.fitting fun _ => true := by
    funext outcome
    cases outcome <;> rfl
  rw [hfun]

theorem respond_eq {response : Response} (h : response.length ≤ maxPduLength) :
    respond (σ := σ) response = pure response.pdu := by
  rw [respond, if_neg (by omega)]

/-- A response that fits a frame is written, whatever the service has done before. -/
theorem bind_respond {α : Type} (work : Work σ α) (response : α → Response)
    (h : ∀ s a s', work.run.run s = (.ok a, s') → (response a).length ≤ maxPduLength) :
    (work >>= fun a => respond (response a)) = (fun a => (response a).pdu) <$> work := by
  apply ExceptT.ext
  apply StateT.ext
  intro s
  rw [ExceptT.run_bind, ExceptT.run_map, StateT.run_bind, StateT.run_map]
  cases hrun : work.run.run s with
  | mk outcome s' =>
    cases outcome with
    | ok a =>
      change (respond (response a)).run.run s' = _
      rw [respond_eq (h s a s' hrun)]
      rfl
    | error cause => rfl

theorem fitting_respond {α : Type} {fits : α → Bool} (handler : StateM σ (Outcome α))
    (response : α → Response)
    (hlen : ∀ a, fits a = true → (response a).length ≤ maxPduLength) :
    ((ExceptT.mk (Outcome.fitting fits <$> handler) : Work σ α) >>=
        fun a => respond (response a)) =
      (fun a => (response a).pdu) <$> ExceptT.mk (Outcome.fitting fits <$> handler) :=
  bind_respond _ response fun _ a _ h => hlen a (fits_of_fitting (congrArg Prod.fst h))

/-- The work on a block of admissible length: a call that has to give back something that fits,
and its response. -/
def blockWork {α : Type} (address : UInt16) (count : Nat) (fits : α → Bool)
    (handler : StateM σ (Outcome α)) (response : α → Response) : Work σ Bytes := do
  (if 0x10000 < address.toNat + count then .error .illegalDataAddress else .ok () :
    Except Exception Unit)
  let a ← (ExceptT.mk (Outcome.fitting fits <$> handler) : Work σ α)
  respond (response a)

/-- A block is worked on as the service itself does it, and what comes of it is written. -/
theorem blockWork_eq_onBlock {α : Type} (service : Service σ) (function : FunctionCode)
    (address : UInt16) (count : Nat) (fits : α → Bool) (handler : StateM σ (Outcome α))
    (response : α → Response)
    (hlen : ∀ a, fits a = true → (response a).length ≤ maxPduLength) :
    (if service.supports function then blockWork address count fits handler response
      else throw .illegalFunction : Work σ Bytes) =
    (fun a => (response a).pdu) <$>
      (ExceptT.mk (onBlock service function address count fits handler) : Work σ α) := by
  rw [onBlock, blockWork]
  cases service.supports function with
  | false => rfl
  | true =>
    by_cases ha : 0x10000 < address.toNat + count
    · simp only [if_pos ha]
      rfl
    · simp only [if_neg ha]
      exact fitting_respond handler response hlen

theorem read_eq_blockWork {α : Type} (address count : UInt16) {max : Nat}
    (handler : StateM σ (Outcome (List α))) (response : List α → Response)
    (hpos : 1 ≤ count.toNat) (hmax : count.toNat ≤ max) :
    (do
      checkBlock address count.toNat max
      let values ← callRead (ExceptT.mk (Outcome.toExcept <$> handler)) count
      respond (response values) : Work σ Bytes) =
    blockWork address count.toNat (fun values => decide (values.length = count.toNat)) handler
      response := by
  rw [checkBlock_admissible hpos hmax, callRead_eq_fitting, blockWork]

theorem write_eq_blockWork (address : UInt16) {count max : Nat}
    (handler : StateM σ (Outcome Unit)) (response : Response) (hpos : 1 ≤ count)
    (hmax : count ≤ max) :
    (do
      checkBlock address count max
      (ExceptT.mk (Outcome.toExcept <$> handler) : Work σ Unit)
      respond response : Work σ Bytes) =
    blockWork address count (fun _ => true) handler (fun _ => response) := by
  rw [checkBlock_admissible hpos hmax, call_eq_fitting, blockWork]

/-- A single value always lies within the address space. -/
theorem single_eq_blockWork (address : UInt16) (handler : StateM σ (Outcome Unit))
    (response : Response) :
    (do
      (ExceptT.mk (Outcome.toExcept <$> handler) : Work σ Unit)
      respond response : Work σ Bytes) =
    blockWork address 1 (fun _ => true) handler (fun _ => response) := by
  have hin : ¬ 0x10000 < address.toNat + 1 := by
    have := address.toNat_lt
    omega
  rw [call_eq_fitting, blockWork, if_neg hin]
  rfl

/-- The coils that were packed into a request reach the service as they were. -/
theorem perform_writeMultipleCoils (service : Service σ) (unit : UInt8) (data : Bytes)
    (address : UInt16) {coils : List Bool} (hpos : 1 ≤ coils.length)
    (hmax : coils.length ≤ maxWriteCoils) :
    perform service unit data (.writeMultipleCoils address (.ofList coils)) =
      blockWork address coils.length (fun _ => true)
        (service.handle (.writeCoils unit address coils))
        (fun _ => .writeMultipleCoils address coils.length.toUInt16) := by
  have hwork : perform service unit data (.writeMultipleCoils address (.ofList coils)) = _ :=
    write_eq_blockWork address
      (service.handle (.writeCoils unit address (Coils.ofList coils).toList))
      (.writeMultipleCoils address coils.length.toUInt16) hpos hmax
  rw [hwork, Coils.toList_ofList]
  rfl

/-- The words that were put into a request reach the service as they were. -/
theorem perform_writeMultipleRegisters (service : Service σ) (unit : UInt8) (data : Bytes)
    (address : UInt16) {words : List UInt16} (hpos : 1 ≤ words.length)
    (hmax : words.length ≤ maxWriteRegisters) :
    perform service unit data (.writeMultipleRegisters address (.ofList words)) =
      blockWork address words.length (fun _ => true)
        (service.handle (.writeHoldingRegisters unit address words))
        (fun _ => .writeMultipleRegisters address words.length.toUInt16) := by
  have hwork : perform service unit data (.writeMultipleRegisters address (.ofList words)) = _ :=
    write_eq_blockWork address
      (service.handle (.writeHoldingRegisters unit address (Registers.ofList words).toList))
      (.writeMultipleRegisters address words.length.toUInt16) hpos hmax
  rw [hwork, Registers.toList_ofList]
  rfl

end Modbus.Device
