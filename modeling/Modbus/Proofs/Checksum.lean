import Mathlib.Algebra.Group.Nat.Defs
import Modbus.Proofs.Packing
import Modbus.Serial.Frame

/-! The register behind the checksum as a linear machine. It takes the bits of
a stream in the order of the line, every place is linear in exclusive or, and no
register but the empty one is emptied by shifting. A stream that carries its own
checksum at the end leaves the register empty. -/

namespace Modbus.Serial

/-- What the polynomial brings in when a bit falls out of the register. -/
def feedback (bit : Bool) : UInt16 := if bit then 0xA001 else 0

theorem feedback_xor (a b : Bool) : feedback (a ^^ b) = feedback a ^^^ feedback b := by
  cases a <;> cases b <;> decide

theorem and_one_eq_zero (register : UInt16) :
    register &&& 1 = 0 ↔ register.toNat.testBit 0 = false := by
  rw [← UInt16.toNat_inj, UInt16.toNat_and, show (1 : UInt16).toNat = 1 from rfl,
    Nat.and_one_is_mod, Nat.testBit_zero, decide_eq_false_iff_not]
  change register.toNat % 2 = 0 ↔ _
  omega

theorem shiftChecksum_eq (register : UInt16) :
    shiftChecksum register = register >>> 1 ^^^ feedback (register.toNat.testBit 0) := by
  rw [shiftChecksum]
  cases hbit : register.toNat.testBit 0 with
  | false => rw [if_pos ((and_one_eq_zero register).mpr hbit), feedback, if_neg Bool.false_ne_true,
      UInt16.xor_zero]
  | true =>
    rw [if_neg, feedback, if_pos rfl]
    rw [and_one_eq_zero, hbit]
    decide

theorem xor_shiftRight_one (a b : UInt16) : (a ^^^ b) >>> 1 = a >>> 1 ^^^ b >>> 1 := by
  apply UInt16.toNat_inj.mp
  simp [Nat.shiftRight_xor_distrib]

theorem shiftChecksum_xor (a b : UInt16) :
    shiftChecksum (a ^^^ b) = shiftChecksum a ^^^ shiftChecksum b := by
  simp only [shiftChecksum_eq, xor_shiftRight_one, UInt16.toNat_xor, Nat.testBit_xor, feedback_xor]
  ac_rfl

/-- The register after some places. -/
def shifts (count : Nat) (register : UInt16) : UInt16 := Nat.repeat shiftChecksum count register

theorem shifts_succ (count : Nat) (register : UInt16) :
    shifts (count + 1) register = shifts count (shiftChecksum register) := by
  induction count with
  | zero => rfl
  | succ count ih => exact congrArg shiftChecksum ih

theorem shifts_xor (count : Nat) (a b : UInt16) :
    shifts count (a ^^^ b) = shifts count a ^^^ shifts count b := by
  induction count generalizing a b with
  | zero => rfl
  | succ count ih => rw [shifts_succ, shifts_succ, shifts_succ, shiftChecksum_xor, ih]

theorem shifts_zero (count : Nat) : shifts count 0 = 0 := by
  induction count with
  | zero => rfl
  | succ count ih => rw [shifts_succ, show shiftChecksum 0 = 0 from rfl, ih]

theorem toNat_shiftRight_one (register : UInt16) : (register >>> 1).toNat = register.toNat / 2 := by
  rw [UInt16.toNat_shiftRight, show (1 : UInt16).toNat % 16 = 1 from rfl,
    Nat.shiftRight_eq_div_pow]

theorem testBit_shiftRight_one (register : UInt16) (i : Nat) :
    (register >>> 1).toNat.testBit i = register.toNat.testBit (i + 1) := by
  rw [toNat_shiftRight_one, Nat.testBit_succ]

/-- One bit of the stream comes in. -/
def shiftIn (register : UInt16) (bit : Bool) : UInt16 := shiftChecksum (register ^^^ bit.toUInt16)

theorem shiftIn_eq (register : UInt16) (bit : Bool) :
    shiftIn register bit = shiftChecksum register ^^^ feedback bit := by
  have hbit : shiftChecksum bit.toUInt16 = feedback bit := by cases bit <;> rfl
  rw [shiftIn, shiftChecksum_xor, hbit]

theorem foldl_shiftIn_false (count : Nat) (register : UInt16) :
    (List.replicate count false).foldl shiftIn register = shifts count register := by
  induction count generalizing register with
  | zero => rfl
  | succ count ih =>
    rw [List.replicate_succ, List.foldl_cons, ih, shifts_succ, shiftIn_eq, feedback,
      if_neg Bool.false_ne_true, UInt16.xor_zero]

theorem map_testBit_succ (register : UInt16) (count : Nat) :
    (List.range (count + 1)).map register.toNat.testBit =
      register.toNat.testBit 0 :: (List.range count).map (register >>> 1).toNat.testBit := by
  rw [List.range_succ_eq_map, List.map_cons, List.map_map]
  congr 1
  exact List.map_congr_left fun i _ => (testBit_shiftRight_one register i).symm

/-- The bits of a word may come in one by one, or all at once before the register is shifted. -/
theorem shifts_xor_word {count : Nat} {word : UInt16} (hword : word.toNat < 2 ^ count)
    (register : UInt16) :
    shifts count (register ^^^ word) =
      ((List.range count).map word.toNat.testBit).foldl shiftIn register := by
  induction count generalizing register word with
  | zero =>
    have hzero : word = 0 := UInt16.toNat_inj.mp (by simpa using hword)
    rw [hzero, UInt16.xor_zero]
    rfl
  | succ count ih =>
    have hrest : (word >>> 1).toNat < 2 ^ count := by
      rw [toNat_shiftRight_one]
      omega
    have hfirst : shiftChecksum (register ^^^ word) =
        shiftIn register (word.toNat.testBit 0) ^^^ word >>> 1 := by
      rw [shiftChecksum_xor, shiftIn_eq, shiftChecksum_eq word]
      ac_rfl
    rw [shifts_succ, hfirst, ih hrest, map_testBit_succ, List.foldl_cons]

theorem checksumByte_eq (register : UInt16) (byte : UInt8) :
    checksumByte register byte = (Bits.unpackByte byte).foldl shiftIn register := by
  have hbyte : byte.toUInt16.toNat < 2 ^ 8 := by
    rw [UInt8.toNat_toUInt16]
    exact byte.toNat_lt
  exact (shifts_xor_word hbyte register).trans (by rw [UInt8.toNat_toUInt16]; rfl)

/-- The bits come in byte by byte, the least significant one first. -/
theorem foldl_checksumByte (bytes : Bytes) (register : UInt16) :
    bytes.foldl checksumByte register = (Bits.unpackAll bytes).foldl shiftIn register := by
  induction bytes generalizing register with
  | nil => rfl
  | cons byte bytes ih =>
    rw [List.foldl_cons, ih, checksumByte_eq, ← List.foldl_append, Bits.unpackAll,
      ← List.flatMap_cons, ← Bits.unpackAll]

/-- The bits of a word in the order in which it goes out behind a frame. -/
theorem unpackAll_reverse_wordBytes (word : UInt16) :
    Bits.unpackAll (wordBytes word).reverse = (List.range 16).map word.toNat.testBit := by
  have hbytes := wordBytes_toNat word
  have hlow : Bits.unpackByte word.toUInt8 = (List.range 8).map word.toNat.testBit := by
    refine List.map_congr_left fun i hi => ?_
    rw [hbytes.2, show 256 = 2 ^ 8 from rfl, Nat.testBit_mod_two_pow,
      decide_eq_true (List.mem_range.mp hi), Bool.true_and]
  have hhigh : Bits.unpackByte (word >>> 8).toUInt8 =
      (List.range 8).map fun i => word.toNat.testBit (8 + i) := by
    refine List.map_congr_left fun i _ => ?_
    rw [hbytes.1, show 256 = 2 ^ 8 from rfl, Nat.testBit_div_two_pow, Nat.add_comm]
  have hunpack : Bits.unpackAll (wordBytes word).reverse =
      Bits.unpackByte word.toUInt8 ++ Bits.unpackByte (word >>> 8).toUInt8 := by
    simp [wordBytes, Bits.unpackAll]
  rw [hunpack, hlow, hhigh, show 16 = 8 + 8 from rfl, List.range_add, List.map_append,
    List.map_map]
  rfl

/-- What carries its own checksum at the end leaves the register empty. -/
theorem checksum_append_checksumBytes (body : Bytes) :
    checksum (body ++ checksumBytes body) = 0 := by
  rw [checksum, List.foldl_append, ← checksum, checksumBytes, foldl_checksumByte,
    unpackAll_reverse_wordBytes, ← shifts_xor_word (checksum body).toNat_lt, UInt16.xor_self,
    shifts_zero]

end Modbus.Serial
