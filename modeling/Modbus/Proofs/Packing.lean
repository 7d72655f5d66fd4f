import Modbus.Pdu.Values

/-! Packing and unpacking are inverse: the coils of packed bytes are the
coils that were packed, followed by zeros up to the end of the last byte, and
the words of written bytes are the words that were written. -/

namespace Modbus

theorem word_toNat (high low : UInt8) : (word high low).toNat = 256 * high.toNat + low.toNat := by
  have hh := high.toNat_lt
  have hl := low.toNat_lt
  have hs : high.toNat <<< 8 % 65536 = high.toNat <<< 8 := by
    rw [Nat.shiftLeft_eq]
    omega
  simp only [word, UInt16.toNat_or, UInt16.toNat_shiftLeft, UInt8.toNat_toUInt16]
  rw [show (8 : UInt16).toNat % 16 = 8 from rfl, hs, ← Nat.shiftLeft_add_eq_or_of_lt hl,
    Nat.shiftLeft_eq]
  omega

/-- The bytes of a word as numbers. -/
theorem wordBytes_toNat (w : UInt16) :
    (w >>> 8).toUInt8.toNat = w.toNat / 256 ∧ w.toUInt8.toNat = w.toNat % 256 := by
  have hw := w.toNat_lt
  constructor
  · simp only [UInt16.toNat_toUInt8, UInt16.toNat_shiftRight]
    rw [show (8 : UInt16).toNat % 16 = 8 from rfl, Nat.shiftRight_eq_div_pow]
    omega
  · exact UInt16.toNat_toUInt8 w

@[simp] theorem word_wordBytes (w : UInt16) : word (w >>> 8).toUInt8 w.toUInt8 = w := by
  apply UInt16.toNat_inj.mp
  have hb := wordBytes_toNat w
  rw [word_toNat, hb.1, hb.2]
  omega

@[simp] theorem wordBytes_word (high low : UInt8) : wordBytes (word high low) = [high, low] := by
  have hb := wordBytes_toNat (word high low)
  have hl := low.toNat_lt
  rw [word_toNat] at hb
  have hhigh : (word high low >>> 8).toUInt8 = high := by
    apply UInt8.toNat_inj.mp
    omega
  have hlow : (word high low).toUInt8 = low := by
    apply UInt8.toNat_inj.mp
    omega
  rw [wordBytes, hhigh, hlow]

namespace Words

theorem bytes_cons (w : UInt16) (words : List UInt16) :
    bytes (w :: words) = (w >>> 8).toUInt8 :: w.toUInt8 :: bytes words := rfl

@[simp] theorem ofPairs_bytes (words : List UInt16) : ofPairs (bytes words) = words := by
  induction words with
  | nil => rfl
  | cons w words ih => rw [bytes_cons, ofPairs, word_wordBytes, ih]

end Words

namespace Bits

theorem testBit_toUInt8 (coil : Bool) (i : Nat) :
    coil.toUInt8.toNat.testBit i = (decide (i = 0) && coil) := by
  cases coil with
  | false => exact (Nat.zero_testBit i).trans (Bool.and_false _).symm
  | true =>
    cases i with
    | zero => rfl
    | succ i => exact (Nat.testBit_succ 1 i).trans (Nat.zero_testBit i)

/-- A coil stands in the place of its index. -/
theorem testBit_packByte (coils : List Bool) (i : Nat) (hi : i < 8) :
    (packByte coils).toNat.testBit i = coils.getD i false := by
  induction coils generalizing i with
  | nil => simp [packByte]
  | cons coil coils ih =>
    rw [packByte, UInt8.toNat_or, Nat.testBit_or, testBit_toUInt8, UInt8.toNat_shiftLeft,
      show (1 : UInt8).toNat % 8 = 1 from rfl, Nat.testBit_mod_two_pow, Nat.testBit_shiftLeft]
    cases i with
    | zero => simp
    | succ i => simpa [hi] using ih i (by omega)

theorem length_unpackByte (byte : UInt8) : (unpackByte byte).length = 8 := by simp [unpackByte]

theorem unpackByte_packByte (coils : List Bool) (h : coils.length ≤ 8) :
    unpackByte (packByte coils) = coils ++ List.replicate (8 - coils.length) false := by
  apply List.ext_getElem
  · simp [unpackByte]
    omega
  · intro i hi _
    rw [length_unpackByte] at hi
    simp only [unpackByte, List.getElem_map, List.getElem_range, testBit_packByte coils i hi]
    by_cases hc : i < coils.length
    · simp [hc]
    · rw [List.getElem_append_right (by omega), List.getElem_replicate,
        List.getD_eq_getElem?_getD, List.getElem?_eq_none (by omega), Option.getD_none]

theorem length_unpackAll (bytes : Bytes) : (unpackAll bytes).length = 8 * bytes.length := by
  induction bytes with
  | nil => rfl
  | cons byte bytes ih =>
    rw [unpackAll, List.flatMap_cons, List.length_append, length_unpackByte, ← unpackAll, ih,
      List.length_cons]
    omega

theorem unpackAll_packBytes (count : Nat) (coils : List Bool) :
    unpackAll (packBytes count coils) =
      coils.take (8 * count) ++ List.replicate (8 * count - coils.length) false := by
  induction count generalizing coils with
  | zero => simp [packBytes, unpackAll]
  | succ count ih =>
    have hlen : (coils.take 8).length ≤ 8 := List.length_take_le 8 coils
    have htake : coils.take (8 * (count + 1)) = coils.take 8 ++ (coils.drop 8).take (8 * count) := by
      rw [Nat.mul_succ, Nat.add_comm, List.take_add]
    rw [packBytes, unpackAll, List.flatMap_cons, ← unpackAll, ih, unpackByte_packByte _ hlen,
      htake]
    by_cases h8 : 8 ≤ coils.length
    · have hz : 8 - (coils.take 8).length = 0 := by simp [h8]
      have hr : 8 * count - (coils.drop 8).length = 8 * (count + 1) - coils.length := by
        simp; omega
      rw [hz, hr]
      simp
    · have hd : coils.drop 8 = [] := List.drop_eq_nil_of_le (by omega)
      rw [hd, List.take_of_length_le (by omega : coils.length ≤ 8)]
      simp only [List.take_nil, List.nil_append, List.length_nil, List.append_nil,
        List.append_assoc, List.replicate_append_replicate]
      congr 2
      omega

theorem packByte_replicate_false (n : Nat) : packByte (List.replicate n false) = 0 := by
  induction n with
  | zero => rfl
  | succ n ih =>
    rw [List.replicate_succ, packByte, ih]
    decide

theorem packByte_append_false (coils : List Bool) (n : Nat) :
    packByte (coils ++ List.replicate n false) = packByte coils := by
  induction coils with
  | nil => exact packByte_replicate_false n
  | cons coil coils ih => rw [List.cons_append, packByte, ih, packByte]

/-- Coils that are off leave no trace behind the others. -/
theorem packBytes_append_false (count : Nat) (coils : List Bool) (n : Nat) :
    packBytes count (coils ++ List.replicate n false) = packBytes count coils := by
  induction count generalizing coils n with
  | zero => rfl
  | succ count ih =>
    rw [packBytes, packBytes, List.take_append, List.take_replicate, packByte_append_false,
      List.drop_append, List.drop_replicate, ih]

theorem unpackAll_pack (coils : List Bool) :
    unpackAll (pack coils) =
      coils ++ List.replicate (8 * packedLength coils.length - coils.length) false := by
  rw [pack, unpackAll_packBytes, List.take_of_length_le]
  rw [packedLength]
  omega

theorem take_unpackAll_pack (coils : List Bool) :
    (unpackAll (pack coils)).take coils.length = coils := by
  rw [unpackAll_pack, List.take_left]

end Bits

/-- The packed form of coils with the last byte filled up by coils that are off. -/
theorem Coils.ofBytes_pack (coils : List Bool) :
    ofBytes (Bits.pack coils) = ofList (coils ++
      List.replicate (8 * Bits.packedLength coils.length - coils.length) false) := by
  have hfill : coils.length + (8 * Bits.packedLength coils.length - coils.length) =
      8 * Bits.packedLength coils.length := by
    rw [Bits.packedLength]
    omega
  have hbytes : Bits.packedLength (8 * Bits.packedLength coils.length) =
      Bits.packedLength coils.length := by
    simp only [Bits.packedLength]
    omega
  simp only [ofBytes, ofList, Bits.pack, Bits.length_packBytes, List.length_append,
    List.length_replicate, hfill, hbytes, Bits.packBytes_append_false]

theorem Coils.toList_ofBytes (bytes : Bytes) :
    (Coils.ofBytes bytes).toList = Bits.unpackAll bytes :=
  List.take_of_length_le (Nat.le_of_eq (Bits.length_unpackAll bytes))

@[simp] theorem Coils.toList_ofList (coils : List Bool) : (Coils.ofList coils).toList = coils :=
  Bits.take_unpackAll_pack coils

@[simp] theorem Registers.toList_ofList (words : List UInt16) :
    (Registers.ofList words).toList = words :=
  Words.ofPairs_bytes words

@[simp] theorem coilState?_coilWord (state : Bool) : coilState? (coilWord state) = .ok state := by
  cases state <;> rfl

theorem Coils.length_toList (coils : Coils) : coils.toList.length = coils.count := by
  have hbytes := coils.length_bytes
  rw [Bits.packedLength] at hbytes
  rw [toList, List.length_take, Bits.length_unpackAll]
  omega

theorem Words.length_ofPairs : (bytes : Bytes) → (ofPairs bytes).length = bytes.length / 2
  | [] => rfl
  | [_] => by simp [ofPairs]
  | high :: low :: rest => by
    rw [ofPairs, List.length_cons, length_ofPairs rest, List.length_cons, List.length_cons]
    omega

theorem Registers.length_toList (registers : Registers) :
    registers.toList.length = registers.count := by
  rw [toList, Words.length_ofPairs, registers.length_bytes]
  omega

end Modbus
