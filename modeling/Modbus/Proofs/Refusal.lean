import Modbus.Proofs.Exchange

/-! Arguments that no request can carry are refused before anything is sent.
Each kind of operation checks its arguments in a fixed order, and `refusal` is
the error of the first check that fails. -/

namespace Modbus.Master

open Exchange

variable {τ : Type}

namespace Operation

/-- A quantity has to be at least one and at most `max`. -/
def quantityRefusal (quantity max : Nat) : Option ArgumentError :=
  if quantity = 0 ∨ max < quantity then some (.quantityOutOfRange quantity max) else none

/-- What is wrong with the arguments, if anything. -/
def refusal : Operation → Option ArgumentError
  | .readCoils _ _ count | .readDiscreteInputs _ _ count => quantityRefusal count.toNat 2000
  | .readHoldingRegisters _ _ count | .readInputRegisters _ _ count =>
    quantityRefusal count.toNat 123
  | .writeCoils _ _ coils =>
    if coils = [] then some .noValues else quantityRefusal coils.length 1968
  | .writeHoldingRegisters _ _ words =>
    if words = [] then some .noValues else quantityRefusal words.length 123
  | .writeFile _ _ recordSize recordNumber file =>
    if file = [] then some .emptyFile
    else if recordSize = 0 ∨ 244 < recordSize then some (.invalidRecordSize recordSize)
    else if file.length ≤ recordSize.toNat * recordNumber.toNat then
      some (.recordOutOfFile recordNumber recordSize file.length)
    else none
  | .userFunction _ code data =>
    if code = 0 ∨ 0x80 ≤ code then some (.invalidFunctionCode code)
    else if 252 < data.length then some (.quantityOutOfRange data.length 252)
    else none

theorem quantityRefusal_eq_none {quantity max : Nat} :
    quantityRefusal quantity max = none ↔ 1 ≤ quantity ∧ quantity ≤ max := by
  unfold quantityRefusal
  split <;> simp <;> omega

/-- The arguments are admissible if nothing is wrong with them. -/
theorem admissible_iff {operation : Operation} :
    operation.Admissible ↔ operation.refusal = none := by
  cases operation with
  | writeCoils unit address values | writeHoldingRegisters unit address values =>
    cases values with
    | nil => simp [Admissible, refusal]
    | cons => simp [Admissible, refusal, quantityRefusal_eq_none]
  | writeFile unit fileNumber recordSize recordNumber file =>
    have hempty : file = [] ↔ file.length = 0 := List.length_eq_zero_iff.symm
    have hzero : recordSize = 0 ↔ recordSize.toNat = 0 := UInt8.toNat_inj.symm
    have hlarge : 244 < recordSize ↔ 244 < recordSize.toNat := UInt8.lt_iff_toNat_lt
    simp only [Admissible, refusal, hempty, hzero, hlarge]
    split
    · simp only [reduceCtorEq, iff_false]
      omega
    · split
      · simp only [reduceCtorEq, iff_false]
        omega
      · split
        · simp only [reduceCtorEq, iff_false]
          omega
        · simp only [iff_true]
          omega
  | userFunction unit code data =>
    have hzero : code = 0 ↔ code.toNat = 0 := UInt8.toNat_inj.symm
    have hhigh : 0x80 ≤ code ↔ 0x80 ≤ code.toNat := UInt8.le_iff_toNat_le
    simp only [Admissible, refusal, hzero, hhigh]
    split
    · simp only [reduceCtorEq, iff_false]
      omega
    · split
      · simp only [reduceCtorEq, iff_false]
        omega
      · simp only [iff_true]
        omega
  | _ => exact quantityRefusal_eq_none.symm

end Operation

theorem checkQuantity_error {quantity max : Nat} {cause : ArgumentError}
    (h : Operation.quantityRefusal quantity max = some cause) :
    checkQuantity quantity max = .error (.argument cause) := by
  unfold Operation.quantityRefusal at h
  split at h
  · next hout => cases h; exact if_pos hout
  · cases h

/-- Nothing is done behind a quantity that is refused. -/
theorem bind_checkQuantity {α : Type} {quantity max : Nat} {cause : ArgumentError}
    (h : Operation.quantityRefusal quantity max = some cause) (next : Unit → Exchange τ α) :
    (liftM (checkQuantity quantity max) : Exchange τ Unit) >>= next =
      verdict (.error (.argument cause)) := by
  rw [checkQuantity_error h]
  rfl

theorem fileWindow_error {unit recordSize : UInt8} {fileNumber recordNumber : UInt16}
    {file : Bytes} {cause : ArgumentError}
    (h : (Operation.writeFile unit fileNumber recordSize recordNumber file).refusal = some cause) :
    fileWindow file recordSize recordNumber = .error cause := by
  rw [Operation.refusal] at h
  simp only [fileWindow, List.isEmpty_iff]
  split at h
  · next hempty => cases h; rw [if_pos hempty]
  · next hempty =>
    rw [if_neg hempty]
    split at h
    · next hsize =>
      have hsize : recordSize = 0 ∨ maxRecordSize < recordSize := hsize
      cases h
      rw [if_pos hsize]
    · next hsize =>
      have hsize : ¬ (recordSize = 0 ∨ maxRecordSize < recordSize) := hsize
      rw [if_neg hsize]
      split at h
      · next hin => cases h; rw [if_pos hin]
      · cases h

namespace Operation

/-- An operation that is refused leaves the connection alone. -/
theorem perform_refused (transport : Transport τ) {operation : Operation} {cause : ArgumentError}
    (h : operation.refusal = some cause) :
    operation.perform transport = verdict (.error (.argument cause)) := by
  cases operation with
  | readCoils unit address count | readDiscreteInputs unit address count =>
    exact congrArg (Answer.bits <$> ·) (bind_checkQuantity h _)
  | readHoldingRegisters unit address count | readInputRegisters unit address count =>
    exact congrArg (Answer.words <$> ·) (bind_checkQuantity h _)
  | writeCoils unit address values | writeHoldingRegisters unit address values =>
    rcases values with _ | ⟨value, _ | ⟨next, rest⟩⟩
    · cases h
      rfl
    · cases h
    · exact congrArg ((fun _ => Answer.done) <$> ·) (bind_checkQuantity h _)
  | writeFile unit fileNumber recordSize recordNumber file =>
    rw [perform, Master.writeFile, fileWindow_error h]
    rfl
  | userFunction unit code data =>
    rw [refusal] at h
    rw [perform, Master.userFunction]
    split at h
    · next hcode => cases h; rw [if_pos hcode]; rfl
    · next hcode =>
      rw [if_neg hcode]
      split at h
      · next hlen =>
        have hlen : maxPduLength ≤ data.length := hlen
        cases h
        rw [if_pos hlen]
        rfl
      · cases h

end Operation

end Modbus.Master
