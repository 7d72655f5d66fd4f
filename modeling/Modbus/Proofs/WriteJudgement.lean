import Modbus.Proofs.Judgement
import Modbus.Proofs.ResponseCodec

/-! A write succeeds exactly on its confirmation: the bytes that a record was
sent in, and of all other requests the function, the address and the value or
quantity. The master compares what it has read from the bytes; as reading loses
nothing of them, no other bytes pass. -/

namespace Modbus.Master

/-- A response that confirms a write has no fields but those that it echoes. -/
theorem fields_of_echoed {response : Response} {address value : UInt16}
    (h : echoed response = .ok (address, value)) :
    response.fields = wordBytes address ++ wordBytes value ∧ response.widened = response ∧
      response.OutsideCatalogue ∧ response.Fits := by
  cases response <;> cases h <;> exact ⟨rfl, rfl, trivial, trivial⟩

theorem checkEcho_eq_ok {address value : UInt16} {pdu : Bytes}
    (h : checkEcho address value pdu = .ok ()) :
    ∃ response, Response.ofPdu pdu = .ok response ∧ echoed response = .ok (address, value) := by
  obtain ⟨response, hread, hrest⟩ := bind_eq_ok.mp h
  obtain ⟨⟨echoedAddress, echoedValue⟩, hechoed, hcompare⟩ := bind_eq_ok.mp hrest
  simp only at hcompare
  split at hcompare
  · cases hcompare
  · next haddress =>
    split at hcompare
    · cases hcompare
    · next hvalue =>
      rw [Decidable.not_not.mp haddress, Decidable.not_not.mp hvalue] at hechoed
      exact ⟨response, hread, hechoed⟩

theorem done_eq_ok_iff {outcome : Except Error Unit} {answer : Answer} :
    (fun _ => Answer.done) <$> outcome = .ok answer ↔ answer = .done ∧ outcome = .ok () := by
  rw [map_eq_ok]
  constructor
  · rintro ⟨_, houtcome, rfl⟩
    exact ⟨rfl, houtcome⟩
  · rintro ⟨rfl, houtcome⟩
    exact ⟨(), houtcome, rfl⟩

/-- Behind the right function, only the bytes of the expected confirmation pass. -/
theorem checkEcho_eq_ok_iff (confirmation : Response) {address value : UInt16}
    (hecho : echoed confirmation = .ok (address, value)) (fields : Bytes) (answer : Answer) :
    (fun _ => Answer.done) <$>
        protocol (checkEcho address value (confirmation.function.toByte :: fields)) = .ok answer ↔
      answer = .done ∧ confirmation.function.toByte :: fields = confirmation.pdu := by
  obtain ⟨hfields, hwidened, hcat, hfits⟩ := fields_of_echoed hecho
  rw [done_eq_ok_iff, protocol_eq_ok_iff]
  refine and_congr_right fun _ => ⟨fun h => ?_, fun h => ?_⟩
  · obtain ⟨response, hread, hechoed⟩ := checkEcho_eq_ok h
    obtain ⟨hpdu, -, -⟩ := Response.of_ofPdu hread
    obtain ⟨-, hbytes⟩ := List.cons.inj hpdu
    -- whatever kind of response was read, it has the fields that it echoes
    rw [Response.pdu, ← hbytes, (fields_of_echoed hechoed).1, hfields]
  · rw [h]
    exact checkEcho_pdu confirmation hcat hfits (by rw [hwidened, hecho])

/-- Only the bytes of the record that was sent pass. -/
theorem acceptRecord_eq_ok_iff {record : FileRecord}
    (hfits : (Response.writeFileRecord record).Fits) (response : Bytes) (answer : Answer) :
    (fun _ => Answer.done) <$> acceptRecord record response = .ok answer ↔
      answer = .done ∧ response = (Response.writeFileRecord record).pdu := by
  rw [done_eq_ok_iff]
  refine and_congr_right fun _ => ⟨fun h => ?_, ?_⟩
  · obtain ⟨read, hread, hrest⟩ := bind_eq_ok.mp h
    obtain ⟨hpdu, -, -⟩ := Response.of_ofPdu (protocol_eq_ok_iff.mp hread)
    cases read with
    | writeFileRecord echo =>
      simp only at hrest
      split at hrest
      · cases hrest
      · next hsame => rw [← hpdu, Decidable.not_not.mp hsame]
    | _ => cases hrest
  · rintro rfl
    have hcat : (Response.writeFileRecord record).OutsideCatalogue := trivial
    rw [acceptRecord, Response.ofPdu_pdu hcat hfits]
    simp [protocol, Response.widened, bind, Except.bind, pure, Except.pure]

namespace Operation

def IsWrite : Operation → Prop
  | .writeCoils .. | .writeHoldingRegisters .. | .writeFile .. => True
  | _ => False

/-- What confirms a write: a record comes back as a whole, of all other requests the function, the
address and the value or quantity. -/
def confirmation (operation : Operation) : Bytes :=
  match operation with
  | .writeFile .. => operation.request.pdu
  | _ => operation.request.pdu.take 5

theorem fileRecord_fits (fileNumber : UInt16) {recordSize : UInt8} (recordNumber : UInt16)
    (file : Bytes) (h : recordSize.toNat ≤ 244) :
    (Response.writeFileRecord (fileRecord fileNumber recordSize recordNumber file)).Fits := by
  simp only [Response.Fits, fileRecord, length_padded, List.length_take]
  omega

/-- A response with the function of a write is accepted if it is the confirmation. -/
theorem interpret_eq_ok_iff_confirmation {operation : Operation} (hwrite : operation.IsWrite)
    (h : operation.Admissible) (fields : Bytes) (answer : Answer) :
    operation.interpret (operation.request.function.toByte :: fields) = .ok answer ↔
      answer = .done ∧
        operation.request.function.toByte :: fields = operation.confirmation := by
  cases operation with
  | writeCoils unit address coils =>
    rcases coils with _ | ⟨state, _ | ⟨next, rest⟩⟩
    · exact absurd h.1 (Nat.not_succ_le_zero 0)
    · exact checkEcho_eq_ok_iff (.writeSingleCoil address state) rfl fields answer
    · exact checkEcho_eq_ok_iff
        (.writeMultipleCoils address (state :: next :: rest).length.toUInt16) rfl fields answer
  | writeHoldingRegisters unit address words =>
    rcases words with _ | ⟨value, _ | ⟨next, rest⟩⟩
    · exact absurd h.1 (Nat.not_succ_le_zero 0)
    · exact checkEcho_eq_ok_iff (.writeSingleRegister address value) rfl fields answer
    · exact checkEcho_eq_ok_iff
        (.writeMultipleRegisters address (value :: next :: rest).length.toUInt16) rfl fields answer
  | writeFile unit fileNumber recordSize recordNumber file =>
    exact acceptRecord_eq_ok_iff (fileRecord_fits _ _ _ h.2.1) _ answer
  | _ => exact hwrite.elim

/-- A confirmation has the function of the request in front. -/
theorem function_of_confirmation (operation : Operation) :
    ∃ fields, operation.confirmation = operation.request.function.toByte :: fields := by
  cases operation <;> exact ⟨_, rfl⟩

/-- A write judges every response right, whatever bytes come back: it succeeds on its confirmation
alone, gives back the exception that the response tells of, and else fails with an error of the
protocol. -/
theorem perform_write_judged {τ : Type} {transport : Transport τ} {operation : Operation}
    (hwrite : operation.IsWrite) (h : operation.Admissible) {t t' : τ} {response : Bytes}
    (hexchange : (transport.exchange operation.unit operation.request.pdu).run.run t =
      (.ok response, t')) :
    let performed := (operation.perform transport).run.run t
    Judged operation.request.function response
        (fun answer => answer = .done ∧ response = operation.confirmation) performed.1 ∧
      performed.2 = t' := by
  simp only [perform_run_exchanged h hexchange, and_true]
  refine judged_accept h (fun answer hanswer => ?_) fun fields hfields answer => ?_
  · rw [hanswer.2]
    exact function_of_confirmation operation
  · rw [hfields]
    exact interpret_eq_ok_iff_confirmation hwrite h fields answer

theorem perform_write_judged_two_registers :
    let operation := writeHoldingRegisters 1 5 [0x000A, 0x0102]
    let performed (response : Bytes) :=
      ((operation.perform (.replying response)).run.run ()).1
    performed [0x10, 0x00, 0x05, 0x00, 0x02] = .ok .done ∧
      performed [0x90, 0x04] = .error (.exception .serverDeviceFailure) ∧
      ∃ cause, performed [0x10, 0x00, 0x05, 0x00, 0x02, 0x00] = .error (.protocol cause) := by
  intro operation performed
  have hwrite : operation.IsWrite := trivial
  have hadmissible : operation.Admissible := ⟨by decide, by decide⟩
  have hexchange : ∀ response, ((Transport.replying response).exchange operation.unit
      operation.request.pdu).run.run () = (.ok response, ()) := fun _ => rfl
  have hjudged : ∀ response, Judged .writeMultipleRegisters response
      (fun answer => answer = .done ∧ response = operation.confirmation) (performed response) :=
    fun response => (perform_write_judged hwrite hadmissible (hexchange response)).1
  refine ⟨?_, ?_, ?_⟩
  · exact ((hjudged _).accepted _).mpr ⟨rfl, rfl⟩
  · exact ((hjudged _).excepted _).mpr ⟨[], rfl⟩
  · refine (hjudged _).rejected ?_ ?_
    · rintro answer ⟨-, hconfirmation⟩
      exact absurd hconfirmation (by decide)
    · intro exception rest hmarked
      exact absurd (List.cons.inj hmarked).1 (by decide)

end Operation

end Modbus.Master
