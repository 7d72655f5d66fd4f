import Modbus.Proofs.PduCodec

/-! What the bytes of a field are that has been read. Each kind of field is
read from its own written form only, and with a length that its byte count can
tell. -/

namespace Modbus

/-- Two steps come to a result if both of them do. -/
theorem bind_eq_ok {ε α β : Type} {first : Except ε α} {next : α → Except ε β} {b : β} :
    first >>= next = .ok b ↔ ∃ a, first = .ok a ∧ next a = .ok b := by
  cases first <;> simp [bind, Except.bind]

theorem length_toUInt8 {n : Nat} {count : UInt8} (h : n = count.toNat) :
    n.toUInt8 = count ∧ n ≤ 255 := by
  have hcount := count.toNat_lt
  have hn : n.toUInt8.toNat = n := toNat_toUInt8 (by omega)
  exact ⟨UInt8.toNat_inj.mp (hn.trans h), by omega⟩

theorem coilWord_of_coilState {value : UInt16} {state : Bool} (h : coilState? value = .ok state) :
    coilWord state = value := by
  unfold coilState? at h
  split at h
  · next hon => cases h; exact hon.symm
  · split at h
    · next hoff => cases h; exact hoff.symm
    · cases h

namespace Fields

theorem eq_of_twoWords {bytes : Bytes} {a b : UInt16} (h : twoWords bytes = .ok (a, b)) :
    bytes = wordBytes a ++ wordBytes b := by
  unfold twoWords at h
  split at h
  · cases h
    simp
  · cases h

theorem eq_of_address {bytes rest : Bytes} {a : UInt16} (h : address bytes = .ok (a, rest)) :
    bytes = wordBytes a ++ rest := by
  unfold address at h
  split at h
  · cases h
    simp
  · cases h

theorem eq_of_counted {bytes values : Bytes} (h : counted bytes = .ok values) :
    bytes = values.length.toUInt8 :: values ∧ values.length ≤ 255 := by
  unfold counted at h
  split at h
  · cases h
  · split at h
    · next hlen =>
      cases h
      obtain ⟨hcount, hmax⟩ := length_toUInt8 hlen
      exact ⟨by rw [hcount], hmax⟩
    · cases h

theorem eq_of_countedWords {bytes : Bytes} {registers : Registers}
    (h : countedWords bytes = .ok registers) :
    bytes = registers.bytes.length.toUInt8 :: registers.bytes ∧ registers.count ≤ 127 := by
  obtain ⟨values, hvalues, hregisters⟩ := bind_eq_ok.mp h
  obtain ⟨hbytes, hmax⟩ := eq_of_counted hvalues
  split at hregisters
  · cases hregisters
    exact ⟨hbytes, by simp only; omega⟩
  · cases hregisters

theorem eq_of_coilBlock {bytes : Bytes} {coils : Coils} (h : coilBlock bytes = .ok coils) :
    bytes = ofCoils coils ∧ coils.count ≤ 2040 := by
  unfold coilBlock at h
  split at h
  · simp only at h
    split at h
    · next hlen =>
      cases h
      obtain ⟨hcount, hmax⟩ := length_toUInt8 hlen.1
      obtain ⟨-, hpacked⟩ := hlen
      rw [Bits.packedLength] at hpacked
      exact ⟨by simp [ofCoils, hcount], by simp only; omega⟩
    · cases h
  · cases h

theorem eq_of_registerBlock {bytes : Bytes} {registers : Registers}
    (h : registerBlock bytes = .ok registers) :
    bytes = ofRegisters registers ∧ registers.count ≤ 127 := by
  unfold registerBlock at h
  split at h
  · simp only at h
    split at h
    · next hlen =>
      cases h
      obtain ⟨hcount, hmax⟩ := length_toUInt8 hlen.1
      obtain ⟨-, hwords⟩ := hlen
      exact ⟨by simp [ofRegisters, hcount], by simp only; omega⟩
    · cases h
  · cases h

theorem eq_of_fileRecord {bytes : Bytes} {record : FileRecord}
    (h : fileRecord bytes = .ok record) :
    bytes = ofFileRecord record ∧ record.data.length % 2 = 0 ∧ record.data.length ≤ 248 := by
  unfold fileRecord at h
  split at h
  · next length type f1 f0 r1 r0 l1 l0 data =>
    split at h
    · cases h
    · next hlen =>
      split at h
      · cases h
      · next htype =>
        split at h
        · cases h
        · next hdata =>
          cases h
          obtain ⟨hcount, hmax⟩ := length_toUInt8 (Decidable.not_not.mp hlen)
          have hwords : data.length / 2 = (word l1 l0).toNat := by omega
          refine ⟨?_, by simp only; omega, by simp only; omega⟩
          rw [ofFileRecord, hcount, FileRecord.length, hwords, Decidable.not_not.mp htype]
          simp
  · cases h

theorem eq_of_custom {code : UInt8} {data read : Bytes} (h : custom code data = .ok read) :
    read = data ∧ code < 0x80 := by
  unfold custom at h
  split at h
  · next hcode => cases h; exact ⟨rfl, hcode⟩
  · cases h

end Fields

end Modbus
