import Modbus.Proofs.Transparency

/-! What a master makes of any bytes that come back for its request, from a
device or from a broken peer. An exception comes out as that exception, and what
is neither that nor bears an answer is an error of the protocol (`Judged`).
Which responses bear which answers is a matter of each operation. -/

namespace Modbus

namespace Master

theorem map_eq_ok {ε α β : Type} {outcome : Except ε α} {f : α → β} {b : β} :
    f <$> outcome = .ok b ↔ ∃ a, outcome = .ok a ∧ f a = b := by
  cases outcome <;> simp [Functor.map, Except.map]

theorem protocol_eq_ok_iff {α : Type} {outcome : Except ProtocolError α} {a : α} :
    protocol outcome = .ok a ↔ outcome = .ok a := by
  cases outcome <;> simp [protocol]

/-- Fails with an error of the protocol, if at all. -/
def OnlyProtocol {α : Type} (outcome : Except Error α) : Prop :=
  ∀ error, outcome = .error error → ∃ cause, error = .protocol cause

theorem onlyProtocol_protocol {α : Type} (outcome : Except ProtocolError α) :
    OnlyProtocol (protocol outcome) := by
  intro error h
  cases outcome <;> cases h
  exact ⟨_, rfl⟩

theorem OnlyProtocol.bind {α β : Type} {outcome : Except Error α} {next : α → Except Error β}
    (h : OnlyProtocol outcome) (hnext : ∀ a, OnlyProtocol (next a)) :
    OnlyProtocol (outcome >>= next) := by
  cases outcome with
  | ok a => exact hnext a
  | error cause =>
    intro error herror
    cases herror
    exact h _ rfl

theorem OnlyProtocol.map {α β : Type} {outcome : Except Error α} (h : OnlyProtocol outcome)
    (f : α → β) : OnlyProtocol (f <$> outcome) := by
  cases outcome with
  | ok a => exact nofun
  | error cause =>
    intro error herror
    cases herror
    exact h _ rfl

theorem onlyProtocol_acceptBits (count : UInt16) (response : Bytes) :
    OnlyProtocol (acceptBits count response) := by
  refine (onlyProtocol_protocol _).bind fun read => ?_
  cases read <;> rintro error ⟨⟩ <;> exact ⟨_, rfl⟩

theorem onlyProtocol_acceptWords (count : UInt16) (response : Bytes) :
    OnlyProtocol (acceptWords count response) := by
  refine (onlyProtocol_protocol _).bind fun read => ?_
  cases read <;> rintro error ⟨⟩ <;> exact ⟨_, rfl⟩

theorem onlyProtocol_acceptRecord (record : FileRecord) (response : Bytes) :
    OnlyProtocol (acceptRecord record response) := by
  refine (onlyProtocol_protocol _).bind fun read => ?_
  cases read with
  | writeFileRecord echo =>
    intro error h
    simp only at h
    split at h <;> cases h
    exact ⟨_, rfl⟩
  | _ => rintro error ⟨⟩; exact ⟨_, rfl⟩

/-- A response to `function` is judged right: one that bears an answer gives that answer, one that
tells of an exception gives that exception, and any other an error of the protocol. -/
structure Judged (function : FunctionCode) (response : Bytes) (bears : Answer → Prop)
    (outcome : Except Error Answer) : Prop where
  accepted : ∀ answer, outcome = .ok answer ↔ bears answer
  excepted : ∀ exception, outcome = .error (.exception exception) ↔
    ∃ rest, response = (function.toByte + 0x80) :: exception.code :: rest
  rejected : (∀ answer, ¬ bears answer) →
    (∀ exception rest, response ≠ (function.toByte + 0x80) :: Exception.code exception :: rest) →
    ∃ cause, outcome = .error (.protocol cause)

/-- Behind the right function, an outcome without exceptions has only its answers to get right. -/
theorem judged_of_passed {function : FunctionCode} (hlow : function.toByte < 0x80)
    {response : Bytes} (hcheck : checkFunction function response = .ok ())
    {bears : Answer → Prop} {outcome : Except Error Answer}
    (hanswer : ∀ answer, outcome = .ok answer ↔ bears answer) (honly : OnlyProtocol outcome) :
    Judged function response bears outcome where
  accepted := hanswer
  excepted exception := by
    rw [← checkFunction_eq_exception_iff hlow, hcheck]
    refine iff_of_false (fun herror => ?_) nofun
    obtain ⟨cause, hcause⟩ := honly _ herror
    cases hcause
  rejected hnone _ := by
    cases houtcome : outcome with
    | ok answer => exact absurd ((hanswer answer).mp houtcome) (hnone answer)
    | error error =>
      obtain ⟨cause, rfl⟩ := honly _ houtcome
      exact ⟨cause, rfl⟩

/-- A response that the check of its function refuses bears no answer, and the refusal is right. -/
theorem judged_of_refused {function : FunctionCode} (hlow : function.toByte < 0x80)
    {response : Bytes} {error : Error} (hcheck : checkFunction function response = .error error)
    {bears : Answer → Prop}
    (hbears : ∀ answer, bears answer → ∃ fields, response = function.toByte :: fields) :
    Judged function response bears (.error error) where
  accepted answer := by
    refine iff_of_false nofun fun hanswer => ?_
    rw [(checkFunction_eq_ok_iff hlow).mpr (hbears answer hanswer)] at hcheck
    cases hcheck
  excepted exception := by
    rw [← checkFunction_eq_exception_iff hlow, hcheck]
    simp
  rejected _ hnone := by
    obtain ⟨_, _, hok⟩ | ⟨exception, rest, hmarked, -⟩ | ⟨cause, hcause⟩ :=
      checkFunction_cases hlow response
    · simp [hcheck] at hok
    · exact absurd hmarked (hnone exception rest)
    · rw [hcheck] at hcause
      cases hcause
      exact ⟨cause, rfl⟩

namespace Operation

theorem onlyProtocol_interpret (operation : Operation) (response : Bytes) :
    OnlyProtocol (operation.interpret response) := by
  cases operation with
  | readCoils | readDiscreteInputs => exact (onlyProtocol_acceptBits _ _).map _
  | readHoldingRegisters | readInputRegisters => exact (onlyProtocol_acceptWords _ _).map _
  | writeCoils unit address coils =>
    rcases coils with _ | ⟨state, _ | ⟨next, rest⟩⟩ <;> exact (onlyProtocol_protocol _).map _
  | writeHoldingRegisters unit address words =>
    rcases words with _ | ⟨value, _ | ⟨next, rest⟩⟩ <;> exact (onlyProtocol_protocol _).map _
  | writeFile => exact (onlyProtocol_acceptRecord _ _).map _
  | userFunction => exact nofun

theorem function_lt {operation : Operation} (h : operation.Admissible) :
    operation.request.function.toByte < 0x80 := by
  cases operation with
  | writeCoils unit address coils =>
    rcases coils with _ | ⟨state, _ | ⟨next, rest⟩⟩ <;> exact toByte_lt nofun
  | writeHoldingRegisters unit address words =>
    rcases words with _ | ⟨value, _ | ⟨next, rest⟩⟩ <;> exact toByte_lt nofun
  | userFunction unit code data =>
    change (FunctionCode.ofByte code).toByte < 0x80
    rw [FunctionCode.toByte_ofByte]
    exact UInt8.lt_iff_toNat_lt.mpr (Nat.lt_succ_of_le h.2.1)
  | _ => exact toByte_lt nofun

/-- An operation judges a response right if it does so for those that carry its function. -/
theorem judged_accept {operation : Operation} (h : operation.Admissible) {response : Bytes}
    {bears : Answer → Prop}
    (hbears : ∀ answer, bears answer →
      ∃ fields, response = operation.request.function.toByte :: fields)
    (hown : ∀ fields, response = operation.request.function.toByte :: fields →
      ∀ answer, operation.interpret response = .ok answer ↔ bears answer) :
    Judged operation.request.function response bears (operation.accept response) := by
  cases hcheck : checkFunction operation.request.function response with
  | ok passed =>
    have haccept : operation.accept response = operation.interpret response := by
      rw [accept, hcheck]
      rfl
    obtain ⟨fields, hfields⟩ := (checkFunction_eq_ok_iff (function_lt h)).mp hcheck
    rw [haccept]
    exact judged_of_passed (function_lt h) hcheck (hown fields hfields)
      (onlyProtocol_interpret operation response)
  | error error =>
    have haccept : operation.accept response = .error error := by
      rw [accept, hcheck]
      rfl
    rw [haccept]
    exact judged_of_refused (function_lt h) hcheck hbears

/-- An operation gives back what it judges of the response, wherever that comes from. -/
theorem perform_run_exchanged {τ : Type} {transport : Transport τ} {operation : Operation}
    (h : operation.Admissible) {t t' : τ} {response : Bytes}
    (hexchange : (transport.exchange operation.unit operation.request.pdu).run.run t =
      (.ok response, t')) :
    (operation.perform transport).run.run t = (operation.accept response, t') := by
  rw [perform_run transport h, hexchange]
  rfl

end Operation

end Master

/-- A connection that answers every request with the same bytes. -/
def Transport.replying (response : Bytes) : Transport Unit where
  connect := pure ()
  send _ _ := pure ()
  receive _ := pure response
  close := pure ()
  isConnected _ := true

end Modbus
