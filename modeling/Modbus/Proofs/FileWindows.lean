import Modbus.Proofs.BlockPlaces
import Modbus.Proofs.RequestDiscipline

/-! A file that is written record by record. The records are windows on the
file, all of one size but the last one, which ends where the file ends. Next to
each other they are the file, and each of them arrives in a request that tells
its number. The arithmetic behind it stays far below any limit of a machine. -/

namespace Modbus

open Checked Places

namespace Master

/-- How many records of one size a file of some length makes, the last one maybe shorter. -/
def recordCount (length size : Nat) : Nat := (length + size - 1) / size

/-- The bytes of the record with some number, up to the end of the file. -/
def window (file : Bytes) (size number : Nat) : Bytes :=
  file.extract (number * size) (min file.length ((number + 1) * size))

theorem lt_recordCount_iff {length size number : Nat} (h : 1 ≤ size) :
    number < recordCount length size ↔ number * size < length := by
  rw [recordCount, Nat.lt_iff_add_one_le, Nat.le_div_iff_mul_le h, Nat.succ_mul]
  omega

theorem length_le_recordCount_mul {length size : Nat} (h : 1 ≤ size) :
    length ≤ recordCount length size * size :=
  Nat.le_of_not_lt fun hlt => Nat.lt_irrefl _ ((lt_recordCount_iff h).mpr hlt)

theorem window_eq (file : Bytes) (size number : Nat) :
    window file size number = (file.drop (number * size)).take size := by
  rw [window, List.extract_eq_take_drop, List.take_eq_take_iff, List.length_drop, Nat.succ_mul]
  omega

/-- The first windows are the first bytes. -/
theorem flatten_windows (file : Bytes) (size count : Nat) :
    ((List.range count).map (window file size)).flatten = file.take (count * size) := by
  induction count with
  | zero => simp
  | succ count ih =>
    rw [List.range_succ, List.map_append, List.flatten_append, ih, Nat.succ_mul, List.take_add,
      List.map_singleton, List.flatten_singleton, window_eq]

theorem padded_eq (bytes : Bytes) :
    padded bytes = bytes ++ if bytes.length % 2 = 1 then [0] else [] := by
  unfold padded
  split
  · next heven => rw [if_neg (by omega), List.append_nil]
  · next hodd => rw [if_pos (by omega)]

/-! ## Numbers of a machine -/

/-- A number that is not above the largest one there is. -/
def bounded (top number : Nat) : Checked Nat := if number ≤ top then pure number else outside

/-- The window on a file, with numbers of a machine and places in the file. -/
def windowAt (top : Nat) (file : Bytes) (recordSize : UInt8) (recordNumber : UInt16) :
    Checked (Except ArgumentError Bytes) := do
  if file.isEmpty then return .error .emptyFile
  else if recordSize = 0 ∨ maxRecordSize < recordSize then
    return .error (.invalidRecordSize recordSize)
  else
    let start ← bounded top (recordSize.toNat * recordNumber.toNat)
    if file.length ≤ start then
      return .error (.recordOutOfFile recordNumber recordSize file.length)
    else
      let behind ← bounded top (start + recordSize.toNat)
      return .ok (← slice file start (min file.length behind))

/-- The data of a record, put together in memory of a fixed size. -/
def recordDataAt (top : Nat) (window : Bytes) : Checked Bytes := do
  let data ← copyTo (scratch (maxRecordSize.toNat + 1)) 0 window.length window
  let length ← bounded top (window.length + window.length % 2)
  slice data 0 length

theorem bounded_of_le {top number : Nat} (h : number ≤ top) : bounded top number = pure number :=
  if_pos h

theorem windowAt_eq {top : Nat} (h : 0xFFFFFFFF ≤ top) (file : Bytes) (recordSize : UInt8)
    (recordNumber : UInt16) :
    windowAt top file recordSize recordNumber = pure (fileWindow file recordSize recordNumber) := by
  -- even a size that is refused leads to numbers of no more than three bytes
  have hsize : recordSize.toNat ≤ 0xFF := Nat.le_of_lt_succ recordSize.toNat_lt
  have hnumber : recordNumber.toNat ≤ 0xFFFF := Nat.le_of_lt_succ recordNumber.toNat_lt
  have hstart : recordSize.toNat * recordNumber.toNat ≤ 0xFF * 0xFFFF :=
    Nat.mul_le_mul hsize hnumber
  rw [windowAt, fileWindow]
  split
  · rfl
  split
  · rfl
  rw [bounded_of_le (by omega), pure_bind]
  split
  · rfl
  · next hin =>
    have hfirst : recordSize.toNat * recordNumber.toNat ≤
        min file.length (recordSize.toNat * recordNumber.toNat + recordSize.toNat) := by
      omega
    rw [bounded_of_le (by omega), pure_bind, slice_of_le hfirst (Nat.min_le_left _ _),
      List.drop_take, pure_bind]
    congr 2
    rw [List.take_eq_take_iff, List.length_drop]
    omega

theorem recordDataAt_eq {top : Nat} (h : 0xFFFFFFFF ≤ top) {window : Bytes}
    (hsize : window.length ≤ 244) : recordDataAt top window = within (recordData window) := by
  have hmemory : (scratch (maxRecordSize.toNat + 1)).length = 245 := length_scratch _
  have hroom : window.length ≤ (scratch (maxRecordSize.toNat + 1)).length := by omega
  have hcopy : copyTo (front [] (scratch (maxRecordSize.toNat + 1))) 0 window.length window =
      pure (front window (scratch (maxRecordSize.toNat + 1))) :=
    copyTo_front (by simpa using hroom) rfl (Nat.zero_add _).symm
  rw [front_nil] at hcopy
  rw [recordDataAt, hcopy, pure_bind, bounded_of_le (by omega), pure_bind,
    slice_of_le (Nat.zero_le _) (by rw [length_front hroom]; omega), recordData,
    overwrite_ok hroom]
  rfl

/-! ## The records of a file -/

section Records

variable {file : Bytes} {recordSize : UInt8} {recordNumber : UInt16}

theorem fileWindow_eq_window (hpos : 1 ≤ recordSize.toNat) (hmax : recordSize.toNat ≤ 244)
    (h : recordNumber.toNat < recordCount file.length recordSize.toNat) :
    fileWindow file recordSize recordNumber =
      .ok (window file recordSize.toNat recordNumber.toNat) := by
  rw [lt_recordCount_iff hpos, Nat.mul_comm] at h
  rw [Operation.fileWindow_ok hpos hmax h, window_eq, Nat.mul_comm]

theorem length_fileWindow_le {bytes : Bytes}
    (h : fileWindow file recordSize recordNumber = .ok bytes) : bytes.length ≤ 244 := by
  unfold fileWindow at h
  split at h
  · cases h
  split at h
  · cases h
  · next hsize =>
    dsimp only at h
    split at h
    · cases h
    · cases h
      have hmax : recordSize.toNat ≤ 244 :=
        UInt8.le_iff_toNat_le.mp (UInt8.not_lt.mp (not_or.mp hsize).2)
      exact Nat.le_trans (List.length_take_le _ _) hmax

end Records

/-- The request for a record, as a device reads it. -/
def recordRequest (fileNumber recordNumber : UInt16) (window : Bytes) : Request :=
  .writeFileRecord ⟨fileNumber, recordNumber,
    window ++ if window.length % 2 = 1 then [0] else []⟩

theorem request_writeFile (unit : UInt8) (fileNumber : UInt16) (recordSize : UInt8)
    (recordNumber : UInt16) (file : Bytes) :
    (Operation.writeFile unit fileNumber recordSize recordNumber file).request =
      recordRequest fileNumber recordNumber (window file recordSize.toNat recordNumber.toNat) := by
  rw [recordRequest, ← padded_eq, window_eq, Nat.mul_comm]
  rfl

/-- A file is written as its windows. For each of them one request goes out that fits a PDU and
tells the file, the number of the record and the bytes of the window, with a zero byte behind an
odd number of them; behind the last window there is nothing to send. In order the windows are the
file. No number on the way is above the largest one of a machine with words of four bytes. -/
theorem file_windows_sent {τ : Type} (transport : Transport τ) (unit : UInt8)
    (fileNumber : UInt16) (recordSize : UInt8) (file : Bytes) :
    (∀ top, 0xFFFFFFFF ≤ top → ∀ recordNumber,
      (windowAt top file recordSize recordNumber).run =
        some (.ok (fileWindow file recordSize recordNumber)) ∧
      ∀ bytes, fileWindow file recordSize recordNumber = .ok bytes →
        ∃ data, recordData bytes = .ok data ∧ (recordDataAt top bytes).run = some (.ok data)) ∧
    (file ≠ [] → 1 ≤ recordSize.toNat → recordSize.toNat ≤ 244 →
      let count := recordCount file.length recordSize.toNat
      (∀ (recordNumber : UInt16) (t : τ),
        let performed := ((Operation.writeFile unit fileNumber recordSize recordNumber file).perform
          transport.noted).run.run (t, [])
        if recordNumber.toNat < count then
          ∃ pdu, (performed.2.2 = [.send unit pdu] ∨
              performed.2.2 = [.send unit pdu, .receive unit]) ∧
            pdu.length ≤ 253 ∧
            Request.ofPdu pdu = .ok (recordRequest fileNumber recordNumber
              (window file recordSize.toNat recordNumber.toNat))
        else
          performed = (.error (.argument (.recordOutOfFile recordNumber recordSize file.length)),
            t, [])) ∧
      (count ≤ 65536 → ∃ windows,
        (List.range count).mapM (fun number => fileWindow file recordSize number.toUInt16) =
          .ok windows ∧
        windows = (List.range count).map (window file recordSize.toNat) ∧
        windows.flatten = file)) := by
  constructor
  · intro top htop recordNumber
    refine ⟨by rw [windowAt_eq htop]; rfl, fun bytes h => ?_⟩
    have hsize := length_fileWindow_le h
    refine ⟨_, recordData_ok hsize, ?_⟩
    rw [recordDataAt_eq htop hsize, recordData_ok hsize]
    rfl
  intro hfile hpos hmax count
  constructor
  · intro recordNumber t performed
    have hin : recordNumber.toNat < count ↔
        recordSize.toNat * recordNumber.toNat < file.length := by
      rw [Nat.mul_comm]
      exact lt_recordCount_iff hpos
    split
    · next hlt =>
      have hadmissible : (Operation.writeFile unit fileNumber recordSize recordNumber file).Admissible :=
        ⟨hpos, hmax, hin.mp hlt⟩
      refine ⟨_, Operation.calls_of_admissible transport hadmissible t, ?_, ?_⟩
      · rw [Request.length_pdu]
        exact Operation.length_request_le hadmissible
      · rw [← request_writeFile unit fileNumber recordSize recordNumber file]
        exact Operation.readsAs_request hadmissible
    · next hnot =>
      have hrefusal : (Operation.writeFile unit fileNumber recordSize recordNumber file).refusal =
          some (.recordOutOfFile recordNumber recordSize file.length) := by
        have hsize : ¬ (recordSize = 0 ∨ 244 < recordSize) := by
          rw [← UInt8.toNat_inj, UInt8.lt_iff_toNat_lt]
          exact not_or.mpr ⟨Nat.ne_of_gt hpos, Nat.not_lt.mpr hmax⟩
        have hout := Nat.le_of_not_lt (hnot ∘ hin.mpr)
        rw [Operation.refusal, if_neg hfile, if_neg hsize, if_pos hout]
      simp only [performed, Operation.perform_refused transport.noted hrefusal]
      rfl
  · intro hcount
    refine ⟨_, mapM_eq fun number hmem => ?_, rfl, ?_⟩
    · have hnumber := List.mem_range.mp hmem
      have htoNat : number.toUInt16.toNat = number :=
        toNat_toUInt16 (Nat.lt_of_lt_of_le hnumber hcount)
      rw [fileWindow_eq_window hpos hmax (htoNat.symm ▸ hnumber), htoNat]
      rfl
    · rw [flatten_windows, List.take_of_length_le (length_le_recordCount_mul hpos)]

theorem file_windows_sent_five_bytes :
    let written (recordNumber : UInt16) :=
      ((Operation.writeFile 1 4 2 recordNumber [1, 2, 3, 4, 5]).perform
        (Transport.replying []).noted).run.run ((), [])
    recordCount 5 2 = 3 ∧
    (∃ pdu, ((written 2).2.2 = [.send 1 pdu] ∨ (written 2).2.2 = [.send 1 pdu, .receive 1]) ∧
      pdu.length ≤ 253 ∧ Request.ofPdu pdu = .ok (.writeFileRecord ⟨4, 2, [5, 0]⟩)) ∧
    written 3 = (.error (.argument (.recordOutOfFile 3 2 5)), (), []) ∧
    ∃ windows, (List.range 3).mapM (fun number => fileWindow [1, 2, 3, 4, 5] 2 number.toUInt16) =
        .ok windows ∧ windows = [[1, 2], [3, 4], [5]] ∧ windows.flatten = [1, 2, 3, 4, 5] := by
  intro written
  obtain ⟨-, hfile⟩ := file_windows_sent (.replying []) 1 4 2 [1, 2, 3, 4, 5]
  obtain ⟨hsent, hwindows⟩ := hfile nofun (by decide) (by decide)
  obtain ⟨windows, hcut, hform, hflatten⟩ := hwindows (by decide)
  have hlast := hsent 2 ()
  have hbehind := hsent 3 ()
  dsimp only at hlast hbehind
  rw [if_pos (by decide)] at hlast
  rw [if_neg (by decide)] at hbehind
  simp only [written]
  exact ⟨rfl, hlast, hbehind, windows, hcut, hform, hflatten⟩

end Master

end Modbus
