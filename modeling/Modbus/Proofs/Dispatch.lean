import Modbus.Proofs.AnswerForm
import Modbus.Proofs.Registration

/-! How requests find their handlers. A request leads to the handler that was
registered last for its function, and to no other. If there is none the request
is refused before it is looked at, and would be refused just so, or for what is
wrong with it, if the device claimed to support everything. -/

namespace Modbus

namespace Request

/-- What is wrong with the block of a request, if anything. -/
def blockFault? (request : Request) : Option Exception :=
  match request.block? with
  | none => none
  | some block =>
    if ¬ block.Allowed then some .illegalDataValue
    else if ¬ block.InRange then some .illegalDataAddress
    else none

/-- The request that a PDU stands for, or the exception for the first thing wrong with it. -/
def checked (pdu : Bytes) : Except Exception Request :=
  match ofPdu pdu with
  | .error _ => .error .illegalDataValue
  | .ok request =>
    match request.blockFault? with
    | some cause => .error cause
    | none => .ok request

theorem cause_of_blockFault {request : Request} {cause : Exception}
    (h : request.blockFault? = some cause) :
    cause = .illegalDataValue ∨ cause = .illegalDataAddress := by
  unfold blockFault? at h
  repeat' split at h
  all_goals cases h
  · exact .inl rfl
  · exact .inr rfl

theorem cause_of_checked {pdu : Bytes} {cause : Exception} (h : checked pdu = .error cause) :
    cause = .illegalDataValue ∨ cause = .illegalDataAddress := by
  unfold checked at h
  split at h
  · cases h
    exact .inl rfl
  · split at h
    · next hfault => cases h; exact cause_of_blockFault hfault
    · cases h

theorem ofPdu_of_checked {pdu : Bytes} {request : Request} (h : checked pdu = .ok request) :
    ofPdu pdu = .ok request := by
  unfold checked at h
  repeat' split at h
  all_goals cases h
  assumption

end Request

namespace Device

variable {σ : Type}

theorem Slot.ofCode_of_notMem {code : UInt8} (h : code ∉ valueCodes) :
    ofCode code = .function code := by
  simp only [valueCodes, List.mem_cons, List.not_mem_nil, or_false, not_or] at h
  simp [ofCode, h]

/-- No function has the slot of a user defined one with the code of a read or write. -/
theorem Slot.ofCode_ne_of_mem {code : UInt8} (h : code ∈ valueCodes) (other : UInt8) :
    .function code ≠ ofCode other := by
  intro hslot
  by_cases hother : other ∈ valueCodes
  · simp only [valueCodes, List.mem_cons, List.not_mem_nil, or_false] at hother
    rcases hother with rfl | rfl | rfl | rfl | rfl | rfl | rfl | rfl <;> cases hslot
  · rw [ofCode_of_notMem hother] at hslot
    cases hslot
    exact hother h

theorem Handlers.supports_eq (handlers : Handlers σ) (code : UInt8) :
    handlers.service.supports (.ofByte code) = (handlers.at? (.ofCode code)).isSome := by
  change handlers.supports _ = _
  have hcode := FunctionCode.toByte_ofByte code
  cases hfunction : FunctionCode.ofByte code with
  | custom other =>
    rw [hfunction] at hcode
    cases hcode
    rw [Slot.ofCode_of_notMem (custom_notMem_valueCodes hfunction)]
    exact Option.isSome_map.symm
  | _ =>
    rw [hfunction] at hcode
    cases hcode
    exact Option.isSome_map.symm

theorem slot_call (unit : UInt8) {code : UInt8} {data : Bytes} {request : Request}
    (h : Request.ofPdu (code :: data) = .ok request) :
    (request.call unit data).slot = .ofCode code := by
  obtain ⟨hpdu, hcat, -⟩ := Request.of_ofPdu h
  cases request with
  | custom other =>
    have hother : FunctionCode.ofByte other = .custom other := hcat
    rw [Request.pdu, Request.function, FunctionCode.toByte_ofByte] at hpdu
    cases hpdu
    exact (Slot.ofCode_of_notMem (custom_notMem_valueCodes hother)).symm
  | _ => cases hpdu; rfl

/-- The same service, which claims to support everything. -/
def Service.unguarded (service : Service σ) : Service σ :=
  { service with supports := fun _ => true }

/-- The work on a request is the call that it stands for, if its block has no fault. -/
theorem perform_blockFault (service : Service σ) (unit : UInt8) (data : Bytes)
    (request : Request) :
    perform service unit data request =
      match request.blockFault? with
      | some cause => throw cause
      | none => ExceptT.mk (Outcome.judged (request.conclude unit data) <$>
          service.handle (request.call unit data)) := by
  cases hblock : request.block? with
  | none =>
    simp only [Request.blockFault?, hblock]
    refine perform_judged service unit data fun block hmem => ?_
    cases hblock.symm.trans hmem
  | some block =>
    simp only [Request.blockFault?, hblock]
    by_cases hallowed : block.Allowed
    · by_cases hin : block.InRange
      · simp only [hallowed, hin, not_true_eq_false, if_false]
        refine perform_judged service unit data fun other hmem => ?_
        cases hblock.symm.trans hmem
        exact ⟨hallowed, hin⟩
      · simp only [hallowed, hin, not_true_eq_false, not_false_eq_true, if_false, if_true]
        exact perform_refused service unit data hblock (Block.check_not_inRange hallowed hin)
    · simp only [hallowed, not_false_eq_true, if_true]
      exact perform_refused service unit data hblock (Block.check_not_allowed hallowed)

theorem serve_checked (service : Service σ) (unit code : UInt8) (data : Bytes)
    (hsupports : service.supports (.ofByte code) = true) :
    serve service unit code data =
      match Request.checked (code :: data) with
      | .error cause => throw cause
      | .ok request => ExceptT.mk (Outcome.judged (request.conclude unit data) <$>
          service.handle (request.call unit data)) := by
  rw [Request.checked]
  cases hread : Request.ofPdu (code :: data) with
  | error => exact serve_unreadable service unit hsupports hread
  | ok request =>
    rw [serve_readable service unit hsupports hread, perform_blockFault]
    cases hfault : request.blockFault? <;> simp only [hfault]

/-- A request with something wrong is refused for that if its function is supported. -/
theorem answer_malformed (service : Service σ) (unit : UInt8) {code : UInt8} {data : Bytes}
    (hcode : code < 0x80) (hsupports : service.supports (.ofByte code) = true) {cause : Exception}
    (h : Request.checked (code :: data) = .error cause) (s : σ) :
    (answer service unit (code :: data)).run s = (some [code ||| 0x80, cause.code], s) := by
  refine answer_refused service unit hcode ?_ s
  rw [serve_checked service unit code data hsupports, h]

/-- Of a service, an answer depends on whether it supports the function and on how it handles
the call of the request. -/
theorem answer_congr {service service' : Service σ} (unit : UInt8) {code : UInt8} {data : Bytes}
    (hsupports : service.supports (.ofByte code) = service'.supports (.ofByte code))
    (hhandle : ∀ request, Request.ofPdu (code :: data) = .ok request →
      service.handle (request.call unit data) = service'.handle (request.call unit data)) :
    answer service unit (code :: data) = answer service' unit (code :: data) := by
  have hserve : serve service unit code data = serve service' unit code data := by
    cases hsupported : service.supports (.ofByte code) with
    | false =>
      rw [serve_unsupported service unit data hsupported,
        serve_unsupported service' unit data (hsupports.symm.trans hsupported)]
    | true =>
      rw [serve_checked service unit code data hsupported,
        serve_checked service' unit code data (hsupports.symm.trans hsupported)]
      cases hchecked : Request.checked (code :: data) with
      | error cause => rfl
      | ok request => simp only [hhandle request (Request.ofPdu_of_checked hchecked)]
  rw [answer, answer, hserve]

theorem answer_unguarded (service : Service σ) (unit : UInt8) {code : UInt8} (data : Bytes)
    (h : service.supports (.ofByte code) = true) :
    answer service unit (code :: data) = answer service.unguarded unit (code :: data) :=
  answer_congr unit h fun _ _ => rfl

namespace Handlers

theorem supports_of_some {handlers : Handlers σ} {code : UInt8} {r : Registration σ}
    (h : handlers.at? (.ofCode code) = some r) :
    handlers.service.supports (.ofByte code) = true := by
  rw [supports_eq, h]
  rfl

theorem supports_of_none {handlers : Handlers σ} {code : UInt8}
    (h : handlers.at? (.ofCode code) = none) :
    handlers.service.supports (.ofByte code) = false := by
  rw [supports_eq, h]
  rfl

/-- Two devices that have the same handler for a function answer its requests alike. -/
theorem answer_congr_at {handlers handlers' : Handlers σ} (unit : UInt8) {code : UInt8}
    (data : Bytes) (h : handlers.at? (.ofCode code) = handlers'.at? (.ofCode code)) :
    answer handlers.service unit (code :: data) = answer handlers'.service unit (code :: data) := by
  refine answer_congr unit ?_ fun request hread => handle_congr ?_
  · rw [supports_eq, supports_eq, h]
  · rw [slot_call unit hread, h]

/-- A registration for another slot changes no answer of this function. -/
theorem answer_put_of_ne (handlers : Handlers σ) (unit : UInt8) {code : UInt8} (data : Bytes)
    {r : Registration σ} (h : r.slot ≠ .ofCode code) :
    answer (handlers.put r).service unit (code :: data) =
      answer handlers.service unit (code :: data) :=
  answer_congr_at unit data (at?_put_of_ne h)

/-- Under the code of a read or write a user defined function is out of reach of every request. -/
theorem answer_put_of_valueCode (handlers : Handlers σ) (unit : UInt8) {r : Registration σ}
    {standard : UInt8} (hstandard : standard ∈ valueCodes) (hr : r.slot = .function standard)
    (pdu : Bytes) :
    answer (handlers.put r).service unit pdu = answer handlers.service unit pdu := by
  cases pdu with
  | nil => rfl
  | cons code data =>
    exact answer_put_of_ne handlers unit data (hr ▸ Slot.ofCode_ne_of_mem hstandard code)

/-- The device with handlers that note their runs answers as the one without, and the one run that
it notes is that of the handler in the slot of the function. -/
theorem answer_placed {handlers : Handlers σ} {noting : Handlers (σ × List Run)} (unit : UInt8)
    {code : UInt8} {data : Bytes} (hcode : code < 0x80) {r : Registration σ} {place : Nat}
    (h : handlers.at? (.ofCode code) = some r)
    (hnoting : noting.at? (.ofCode code) = some (r.placed place)) {request : Request}
    (hchecked : Request.checked (code :: data) = .ok request) (s : σ) (runs : List Run) :
    (answer noting.service unit (code :: data)).run (s, runs) =
      (((answer handlers.service unit (code :: data)).run s).1,
        ((answer handlers.service unit (code :: data)).run s).2,
        runs ++ [⟨place, request.call unit data⟩]) := by
  have hsupports := supports_of_some h
  have hsupports' := supports_of_some hnoting
  have hslot := slot_call unit (Request.ofPdu_of_checked hchecked)
  have hhandle : noting.service.handle (request.call unit data) =
      running ⟨place, request.call unit data⟩ (handlers.service.handle (request.call unit data)) :=
    handle_placed (hslot ▸ h) (hslot ▸ hnoting)
  rw [answer_run _ unit data hcode, answer_run _ unit data hcode,
    serve_checked _ unit code data hsupports, serve_checked _ unit code data hsupports', hchecked]
  simp only [hhandle]
  rfl

/-- Without a handler for its function a request is refused. -/
theorem answer_of_none {handlers : Handlers σ} (unit : UInt8) {code : UInt8} (data : Bytes)
    (hcode : code < 0x80) (h : handlers.at? (.ofCode code) = none) (s : σ) :
    (answer handlers.service unit (code :: data)).run s =
      (some [code ||| 0x80, Exception.illegalFunction.code], s) :=
  answer_refused _ unit hcode (serve_unsupported _ unit data (supports_of_none h)) s

/-- It is refused as well by a device that claims to support everything, for what is wrong with it
if anything is. -/
theorem answer_unguarded_of_none {handlers : Handlers σ} (unit : UInt8) {code : UInt8}
    (data : Bytes) (hcode : code < 0x80) (h : handlers.at? (.ofCode code) = none) (s : σ) :
    (answer handlers.service.unguarded unit (code :: data)).run s =
      match Request.checked (code :: data) with
      | .error cause => (some [code ||| 0x80, cause.code], s)
      | .ok _ => (some [code ||| 0x80, Exception.illegalFunction.code], s) := by
  cases hchecked : Request.checked (code :: data) with
  | error cause => exact answer_malformed _ unit hcode rfl hchecked s
  | ok request =>
    have hslot := slot_call unit (Request.ofPdu_of_checked hchecked)
    have hhandle : handlers.service.unguarded.handle (request.call unit data) =
        Service.bare.handle (request.call unit data) := handle_of_none (hslot ▸ h)
    refine answer_refused _ unit hcode ?_ s
    rw [serve_checked _ unit code data rfl, hchecked]
    simp only [hhandle]
    cases request <;> rfl

end Handlers

open Handlers

/-- The handler that was registered last for a function is the one that answers its requests, and
the only one that runs; that the device says what it supports makes no difference then. Without one
every request is refused before it is looked at, and if the device claimed to support everything,
for what is wrong with it, if anything. So a registration for another function changes nothing for
this one, and a user defined function with the code of a read or write is never asked. -/
theorem answer_last_registered (registrations : List (Registration σ)) (unit : UInt8)
    {code : UInt8} (data : Bytes) (h : code < 0x80) (s : σ) :
    let pdu := code :: data
    let device := (ofRegistrations registrations).service
    let placed := (ofPlaced registrations).service
    let answered := (answer device unit pdu).run s
    let unguarded := (answer device.unguarded unit pdu).run s
    let refused (cause : Exception) := (some [code ||| 0x80, cause.code], s)
    (∀ before r after, registrations = before ++ r :: after → r.slot = .ofCode code →
      (∀ later ∈ after, later.slot ≠ .ofCode code) →
      device.supports (.ofByte code) = true ∧
      answer device unit pdu = answer (ofRegistrations [r]).service unit pdu ∧
      answer device unit pdu = answer device.unguarded unit pdu ∧
      answer placed unit pdu = answer placed.unguarded unit pdu ∧
      (∀ cause, Request.checked pdu = .error cause → answered = refused cause ∧
        (answer placed unit pdu).run (s, []) = (answered.1, answered.2, [])) ∧
      (∀ request, Request.checked pdu = .ok request →
        (answer placed unit pdu).run (s, []) =
          (answered.1, answered.2, [⟨before.length, request.call unit data⟩]))) ∧
    ((∀ r ∈ registrations, r.slot ≠ .ofCode code) →
      device.supports (.ofByte code) = false ∧
      answered = refused .illegalFunction ∧
      (answer placed unit pdu).run (s, []) = (answered.1, answered.2, []) ∧
      (answer placed.unguarded unit pdu).run (s, []) = (unguarded.1, unguarded.2, []) ∧
      (∀ cause, Request.checked pdu = .error cause → unguarded = refused cause ∧
        (cause = .illegalDataValue ∨ cause = .illegalDataAddress)) ∧
      (∀ request, Request.checked pdu = .ok request → unguarded = refused .illegalFunction)) ∧
    (∀ r, r.slot ≠ .ofCode code →
      answer (ofRegistrations (registrations ++ [r])).service unit pdu = answer device unit pdu ∧
      answer (ofPlaced (registrations ++ [r])).service unit pdu = answer placed unit pdu) ∧
    (∀ standard ∈ valueCodes, ∀ f : UserFunction σ,
      let more := registrations ++ [.function standard f]
      (∀ other, (ofRegistrations more).service.supports (.ofByte other) =
        device.supports (.ofByte other)) ∧
      ∀ pdu, answer (ofRegistrations more).service unit pdu = answer device unit pdu ∧
        answer (ofPlaced more).service unit pdu = answer placed unit pdu) := by
  intro pdu device placed answered unguarded refused
  refine ⟨?_, ?_, ?_, ?_⟩
  · rintro before r after rfl hr hafter
    have hat : (ofRegistrations (before ++ r :: after)).at? (.ofCode code) = some r :=
      at?_ofRegistrations_last before hr hafter
    have hplaced := at?_ofPlaced_last before hr hafter
    have halone : (ofRegistrations [r]).at? (.ofCode code) = some r :=
      at?_ofRegistrations_last [] hr (List.forall_mem_nil _)
    have hsupports := supports_of_some hat
    have hsupports' := supports_of_some hplaced
    refine ⟨hsupports, answer_congr_at unit data (hat.trans halone.symm),
      answer_unguarded device unit data hsupports, answer_unguarded placed unit data hsupports',
      fun cause hchecked => ?_, fun request hchecked => ?_⟩
    · have hanswered := answer_malformed device unit h hsupports hchecked s
      have hnoted := answer_malformed placed unit h hsupports' hchecked (s, [])
      refine ⟨hanswered, ?_⟩
      simp only [answered, pdu]
      rw [hnoted, hanswered]
    · exact answer_placed unit h hat hplaced hchecked s []
  · intro hnone
    have hat := at?_ofRegistrations_none hnone
    have hplaced := at?_ofPlaced_none hnone
    have hanswered := answer_of_none unit data h hat s
    have hunguarded := answer_unguarded_of_none unit data h hat s
    refine ⟨supports_of_none hat, hanswered, ?_, ?_, fun cause hchecked => ?_,
      fun request hchecked => ?_⟩
    · simp only [answered, device, pdu]
      rw [hanswered]
      exact answer_of_none unit data h hplaced (s, [])
    · simp only [unguarded, device, placed, pdu]
      rw [hunguarded, answer_unguarded_of_none unit data h hplaced]
      cases Request.checked (code :: data) <;> rfl
    · rw [hchecked] at hunguarded
      exact ⟨hunguarded, Request.cause_of_checked hchecked⟩
    · rw [hchecked] at hunguarded
      exact hunguarded
  · intro r hr
    rw [ofRegistrations_concat, ofPlaced_concat]
    exact ⟨answer_put_of_ne _ unit data hr,
      answer_put_of_ne _ unit data ((Registration.slot_placed _ r).symm ▸ hr)⟩
  · intro standard hstandard f more
    simp only [more]
    rw [ofRegistrations_concat, ofPlaced_concat]
    refine ⟨fun other => ?_, fun pdu => ⟨?_, ?_⟩⟩
    · have hslot : (Registration.function standard f).slot ≠ .ofCode other :=
        Slot.ofCode_ne_of_mem hstandard other
      rw [supports_eq, supports_eq, at?_put_of_ne hslot]
    · exact answer_put_of_valueCode _ unit hstandard rfl pdu
    · exact answer_put_of_valueCode _ unit hstandard rfl pdu

theorem answer_last_registered_replaced :
    let echo : UserFunction Memory := fun _ data => pure (.value data)
    let registrations : List (Registration Memory) :=
      [.readHoldingRegisters Memory.readHoldingRegisters, .function 3 echo,
        .readHoldingRegisters Memory.readInputRegisters, .writeCoils Memory.writeCoils]
    let memory : Memory := { holdingRegisters := [1, 2], inputRegisters := [7, 8] }
    let device := (ofRegistrations registrations).service
    (answer (ofPlaced registrations).service 1 [3, 0, 0, 0, 2]).run (memory, []) =
      (some [3, 4, 0, 7, 0, 8], memory, [⟨2, .readHoldingRegisters 1 0 2⟩]) ∧
    (answer device 1 [4, 0xFF, 0xFF, 0, 2]).run memory = (some [0x84, 1], memory) ∧
    (answer device.unguarded 1 [4, 0xFF, 0xFF, 0, 2]).run memory = (some [0x84, 2], memory) ∧
    answer (ofRegistrations
        (registrations ++ [.readInputRegisters Memory.readInputRegisters])).service 1
      [3, 0, 0, 0, 2] = answer device 1 [3, 0, 0, 0, 2] ∧
    answer (ofRegistrations (registrations ++ [.function 5 echo])).service 1
      [5, 0, 0, 0xFF, 0] = answer device 1 [5, 0, 0, 0xFF, 0] := by
  intro echo registrations memory device
  obtain ⟨hthree, -, hother, hstandard⟩ :=
    answer_last_registered registrations 1 [0, 0, 0, 2] (show (3 : UInt8) < 0x80 by decide) memory
  obtain ⟨-, hnone, -⟩ := answer_last_registered registrations 1 [0xFF, 0xFF, 0, 2]
    (show (4 : UInt8) < 0x80 by decide) memory
  obtain ⟨-, -, -, -, -, hrun⟩ := hthree
    [.readHoldingRegisters Memory.readHoldingRegisters, .function 3 echo]
    (.readHoldingRegisters Memory.readInputRegisters) [.writeCoils Memory.writeCoils] rfl rfl
    (by simp [Registration.slot, Slot.ofCode])
  have hrun := hrun (.readHoldingRegisters 0 2) rfl
  obtain ⟨-, hrefused, -, -, hunguarded, -⟩ := hnone (by
    simp [registrations, Registration.slot, Slot.ofCode])
  obtain ⟨hunguarded, -⟩ := hunguarded .illegalDataAddress rfl
  obtain ⟨hother, -⟩ := hother (.readInputRegisters Memory.readInputRegisters) (by
    simp [Registration.slot, Slot.ofCode])
  obtain ⟨-, hstandard⟩ := hstandard 5 (by decide) echo
  exact ⟨hrun.trans rfl, hrefused, hunguarded, hother, (hstandard _).1⟩

end Device

end Modbus
