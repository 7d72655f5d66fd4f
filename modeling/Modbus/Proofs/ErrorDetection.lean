import Modbus.Proofs.Checksum
import Modbus.Proofs.FrameReading

/-! What the checksum of a frame detects. The bits that an error flips go
through the register on their own: the error stays undetected only if they leave
an empty register empty. An odd number of bits never does, nor do bits within
sixteen places of each other, nor two bits within one frame of the line. -/

namespace Modbus.Serial

/-! ## Odd numbers of bits -/

/-- The parity of the first bits. -/
def parity : Nat → (Nat → Bool) → Bool
  | 0, _ => false
  | count + 1, bit => bit count ^^ parity count bit

theorem parity_xor (count : Nat) (a b : Nat → Bool) :
    parity count (fun i => a i ^^ b i) = (parity count a ^^ parity count b) := by
  induction count with
  | zero => rfl
  | succ count ih =>
    simp only [parity, ih, Bool.xor_assoc, Bool.xor_left_comm]

/-- What comes in at one end makes up for what falls out at the other. -/
theorem parity_succ (count : Nat) (bit : Nat → Bool) :
    parity count (fun i => bit (i + 1)) = (bit 0 ^^ parity count bit ^^ bit count) := by
  induction count with
  | zero => simp [parity]
  | succ count ih =>
    simp only [parity, ih]
    cases bit count <;> simp [Bool.xor_comm]

def registerParity (register : UInt16) : Bool := parity 16 register.toNat.testBit

theorem registerParity_xor (a b : UInt16) :
    registerParity (a ^^^ b) = (registerParity a ^^ registerParity b) := by
  rw [registerParity, registerParity, registerParity, ← parity_xor]
  congr 1
  funext i
  rw [UInt16.toNat_xor, Nat.testBit_xor]

theorem registerParity_feedback (bit : Bool) : registerParity (feedback bit) = bit := by
  cases bit <;> decide

/-- The polynomial has an even number of terms, so shifting keeps the parity. -/
theorem registerParity_shiftChecksum (register : UInt16) :
    registerParity (shiftChecksum register) = registerParity register := by
  have hshift : registerParity (register >>> 1) =
      (register.toNat.testBit 0 ^^ registerParity register) := by
    have htop : register.toNat.testBit 16 = false :=
      Nat.testBit_lt_two_pow register.toNat_lt
    rw [registerParity, funext (testBit_shiftRight_one register), parity_succ, htop,
      Bool.xor_false, registerParity]
  rw [shiftChecksum_eq, registerParity_xor, hshift, registerParity_feedback]
  cases register.toNat.testBit 0 <;> simp

theorem registerParity_foldl (bits : List Bool) (register : UInt16) :
    registerParity (bits.foldl shiftIn register) =
      (registerParity register ^^ decide (bits.count true % 2 = 1)) := by
  induction bits generalizing register with
  | nil => simp
  | cons bit bits ih =>
    rw [List.foldl_cons, ih, shiftIn_eq, registerParity_xor, registerParity_shiftChecksum,
      registerParity_feedback, Bool.xor_assoc]
    congr 1
    cases bit with
    | false => simp
    | true =>
      rw [List.count_cons_self]
      rcases Nat.mod_two_eq_zero_or_one (bits.count true) with h | h <;>
        simp [h, Nat.add_mod]

theorem foldl_ne_zero_of_odd {bits : List Bool} (h : bits.count true % 2 = 1) :
    bits.foldl shiftIn 0 ≠ 0 := by
  intro hzero
  have hparity := registerParity_foldl bits 0
  rw [hzero, decide_eq_true h] at hparity
  exact absurd hparity (by decide)

/-! ## Bursts -/

theorem testBit_shiftChecksum_last (register : UInt16) :
    (shiftChecksum register).toNat.testBit 15 = register.toNat.testBit 0 := by
  have htop : register.toNat.testBit 16 = false := Nat.testBit_lt_two_pow register.toNat_lt
  rw [shiftChecksum_eq, UInt16.toNat_xor, Nat.testBit_xor, testBit_shiftRight_one, htop,
    Bool.false_xor]
  cases register.toNat.testBit 0 <;> decide

/-- A register whose last place stays free has only been moved. -/
theorem shiftChecksum_of_lt {register : UInt16} (h : (shiftChecksum register).toNat < 2 ^ 15) :
    register.toNat.testBit 0 = false ∧ shiftChecksum register = register >>> 1 := by
  have hbit : register.toNat.testBit 0 = false := by
    rw [← testBit_shiftChecksum_last]
    exact Nat.testBit_lt_two_pow h
  exact ⟨hbit, by rw [shiftChecksum_eq, hbit, feedback, if_neg Bool.false_ne_true, UInt16.xor_zero]⟩

theorem eq_zero_of_shiftChecksum {register : UInt16} (h : shiftChecksum register = 0) :
    register = 0 := by
  have hlt : (shiftChecksum register).toNat < 2 ^ 15 := by
    rw [h]
    decide
  obtain ⟨hbit, hshift⟩ := shiftChecksum_of_lt hlt
  rw [Nat.testBit_zero, decide_eq_false_iff_not] at hbit
  have hhalf := toNat_shiftRight_one register
  rw [← hshift, h, UInt16.toNat_zero] at hhalf
  apply UInt16.toNat_inj.mp
  rw [UInt16.toNat_zero]
  omega

theorem eq_zero_of_shifts {count : Nat} {register : UInt16} (h : shifts count register = 0) :
    register = 0 := by
  induction count generalizing register with
  | zero => exact h
  | succ count ih =>
    rw [shifts_succ] at h
    exact eq_zero_of_shiftChecksum (ih h)

/-- No more than sixteen bits leave a register empty only if they are the ones that it held. -/
theorem bits_of_foldl_eq_zero {bits : List Bool} (hlen : bits.length ≤ 16) {register : UInt16}
    (h : bits.foldl shiftIn register = 0) :
    register.toNat < 2 ^ bits.length ∧
      bits = (List.range bits.length).map register.toNat.testBit := by
  induction bits generalizing register with
  | nil =>
    have hzero : register = 0 := h
    rw [hzero]
    exact ⟨by decide, rfl⟩
  | cons bit bits ih =>
    rw [List.length_cons] at hlen
    obtain ⟨hlt, hbits⟩ := ih (by omega) h
    have hfree : (shiftIn register bit).toNat < 2 ^ 15 :=
      Nat.lt_of_lt_of_le hlt (Nat.pow_le_pow_right (by decide) (by omega))
    obtain ⟨hlow, hshift⟩ := shiftChecksum_of_lt hfree
    -- the bit that comes in is the one at the low end, and cancels it
    have hbit : bit = register.toNat.testBit 0 := by
      have hin : bit.toUInt16.toNat.testBit 0 = bit := by cases bit <;> rfl
      rw [UInt16.toNat_xor, Nat.testBit_xor, hin] at hlow
      exact (bne_eq_false_iff_eq.mp hlow).symm
    have hrest : shiftIn register bit = register >>> 1 := by
      have hzero : bit.toUInt16 >>> 1 = 0 := by cases bit <;> rfl
      rw [shiftIn, hshift, xor_shiftRight_one, hzero, UInt16.xor_zero]
    rw [hrest, toNat_shiftRight_one] at hlt
    rw [hrest] at hbits
    rw [List.length_cons, map_testBit_succ, ← hbit, ← hbits]
    exact ⟨by omega, rfl⟩

theorem eq_replicate_false {bits : List Bool} (h : true ∉ bits) :
    bits = List.replicate bits.length false := by
  apply List.eq_replicate_of_mem
  intro bit hbit
  cases bit with
  | false => rfl
  | true => exact absurd hbit h

/-- Bits within sixteen places of each other have nothing but zeros before and behind them. -/
theorem exists_burst {bits : List Bool} {first : Nat}
    (h : ∀ i : Nat, bits[i]? = some true → first ≤ i ∧ i < first + 16) :
    ∃ before burst after, burst.length ≤ 16 ∧
      bits = List.replicate before false ++ (burst ++ List.replicate after false) := by
  have hsplit :
      bits = bits.take first ++ ((bits.drop first).take 16 ++ bits.drop (first + 16)) := by
    rw [← List.drop_drop, List.take_append_drop, List.take_append_drop]
  have hbefore : true ∉ bits.take first := by
    intro hmem
    obtain ⟨i, hi⟩ := List.mem_iff_getElem?.mp hmem
    rw [List.getElem?_take] at hi
    split at hi
    · have := h i hi
      omega
    · cases hi
  have hafter : true ∉ bits.drop (first + 16) := by
    intro hmem
    obtain ⟨i, hi⟩ := List.mem_iff_getElem?.mp hmem
    rw [List.getElem?_drop] at hi
    have := h _ hi
    omega
  refine ⟨(bits.take first).length, (bits.drop first).take 16, (bits.drop (first + 16)).length,
    List.length_take_le 16 _, ?_⟩
  rw [← eq_replicate_false hbefore, ← eq_replicate_false hafter]
  exact hsplit

theorem foldl_ne_zero_of_burst {bits : List Bool} (hflip : true ∈ bits) {first : Nat}
    (h : ∀ i : Nat, bits[i]? = some true → first ≤ i ∧ i < first + 16) :
    bits.foldl shiftIn 0 ≠ 0 := by
  intro hzero
  obtain ⟨before, burst, after, hlen, rfl⟩ := exists_burst h
  rw [List.foldl_append, List.foldl_append, foldl_shiftIn_false, foldl_shiftIn_false,
    shifts_zero] at hzero
  obtain ⟨-, hburst⟩ := bits_of_foldl_eq_zero hlen (eq_zero_of_shifts hzero)
  rw [hburst] at hflip
  simp at hflip

/-! ## Two bits -/

/-- Whether the register is one at some of the next places. -/
def comesToOne : Nat → UInt16 → Bool
  | 0, _ => false
  | count + 1, register => register = 1 || comesToOne count (shiftChecksum register)

theorem shifts_ne_one {count : Nat} {register : UInt16} (h : comesToOne count register = false)
    {i : Nat} (hi : i < count) : shifts i register ≠ 1 := by
  induction count generalizing register i with
  | zero => omega
  | succ count ih =>
    obtain ⟨hfirst, hrest⟩ := Bool.or_eq_false_iff.mp h
    cases i with
    | zero => exact of_decide_eq_false hfirst
    | succ i =>
      rw [shifts_succ]
      exact ih hrest (by omega)

/-- A single bit does not come back within the bits of a frame. -/
theorem shifts_one_ne_one {distance : Nat} (hpos : 0 < distance) (hmax : distance < 2048) :
    shifts distance 1 ≠ 1 := by
  have hwalk : comesToOne 2047 (shiftChecksum 1) = false := by decide +kernel
  obtain ⟨i, rfl⟩ : ∃ i, distance = i + 1 := ⟨distance - 1, by omega⟩
  rw [shifts_succ]
  exact shifts_ne_one hwalk (by omega)

theorem eq_append_true {bits : List Bool} {count : Nat} (h : bits.count true = count + 1) :
    ∃ gap rest, bits = List.replicate gap false ++ true :: rest ∧ rest.count true = count := by
  induction bits with
  | nil => simp at h
  | cons bit bits ih =>
    cases bit with
    | true =>
      rw [List.count_cons_self] at h
      exact ⟨0, bits, rfl, by omega⟩
    | false =>
      rw [List.count_cons_of_ne (by decide)] at h
      obtain ⟨gap, rest, rfl, hrest⟩ := ih h
      exact ⟨gap + 1, rest, rfl, hrest⟩

theorem foldl_ne_zero_of_two {bits : List Bool} (h : bits.count true = 2)
    (hlen : bits.length ≤ 2048) : bits.foldl shiftIn 0 ≠ 0 := by
  intro hzero
  obtain ⟨before, rest, rfl, hrest⟩ := eq_append_true h
  obtain ⟨between, after, rfl, hafter⟩ := eq_append_true hrest
  have hfalse := eq_replicate_false (List.count_eq_zero.mp hafter)
  have hone : shiftIn (shifts between (shiftIn 0 true)) true =
      shiftChecksum (shifts (between + 1) 1 ^^^ 1) := by
    rw [shifts_succ]
    rfl
  rw [hfalse, List.foldl_append, List.foldl_cons, List.foldl_append, List.foldl_cons,
    foldl_shiftIn_false, foldl_shiftIn_false, foldl_shiftIn_false, shifts_zero, hone] at hzero
  have hmeet := eq_zero_of_shiftChecksum (eq_zero_of_shifts hzero)
  rw [UInt16.xor_eq_zero_iff] at hmeet
  refine shifts_one_ne_one (Nat.succ_pos between) ?_ hmeet
  simp only [List.length_append, List.length_cons, List.length_replicate] at hlen
  omega

/-! ## Frames with errors -/

theorem checksumByte_xor (a b : UInt16) (x y : UInt8) :
    checksumByte (a ^^^ b) (x ^^^ y) = checksumByte a x ^^^ checksumByte b y := by
  have hword : (a ^^^ b) ^^^ (x ^^^ y).toUInt16 = (a ^^^ x.toUInt16) ^^^ (b ^^^ y.toUInt16) := by
    rw [UInt8.toUInt16_xor]
    ac_rfl
  exact (congrArg (shifts 8) hword).trans (shifts_xor 8 _ _)

theorem foldl_zipWith_xor {bytes pattern : Bytes} (h : pattern.length = bytes.length)
    (a b : UInt16) :
    (List.zipWith (· ^^^ ·) bytes pattern).foldl checksumByte (a ^^^ b) =
      bytes.foldl checksumByte a ^^^ pattern.foldl checksumByte b := by
  induction bytes generalizing pattern a b with
  | nil =>
    rw [List.length_eq_zero_iff.mp h]
    rfl
  | cons byte bytes ih =>
    cases pattern with
    | nil => simp at h
    | cons flips pattern =>
      rw [List.zipWith_cons_cons, List.foldl_cons, checksumByte_xor,
        ih (Nat.succ.inj h), List.foldl_cons, List.foldl_cons]

/-- An error leaves a trace in the register that does not depend on the frame. -/
theorem checksum_zipWith_xor (frame : Frame) {pattern : Bytes}
    (h : pattern.length = frame.wire.length) :
    checksum (List.zipWith (· ^^^ ·) frame.wire pattern) =
      (Bits.unpackAll pattern).foldl shiftIn 0 := by
  rw [checksum, ← UInt16.xor_zero (a := 0xFFFF), foldl_zipWith_xor h, ← checksum, Frame.wire,
    checksum_append_checksumBytes, UInt16.zero_xor, foldl_checksumByte]

/-- Where the register is not left empty, the bytes do not carry their own checksum. -/
theorem ofWire_of_checksum_ne_zero {bytes : Bytes} (hlen : 4 ≤ bytes.length)
    (h : checksum bytes ≠ 0) :
    ∃ received computed, Frame.ofWire bytes = .error (.checksum received computed) := by
  obtain ⟨unit, code, data, low, high, rfl⟩ := Frame.exists_eq_append_pair hlen
  rw [Frame.ofWire_append_pair]
  split
  · next hcheck =>
    have hown : [low, high] = checksumBytes (unit :: code :: data) := by
      rw [checksumBytes, ← hcheck, wordBytes_word]
      rfl
    rw [hown, checksum_append_checksumBytes] at h
    exact absurd rfl h
  · exact ⟨_, _, rfl⟩

theorem true_mem_unpackAll {pattern : Bytes} {byte : UInt8} (hbyte : byte ∈ pattern)
    (h : byte ≠ 0) : true ∈ Bits.unpackAll pattern := by
  refine List.mem_flatMap.mpr ⟨byte, hbyte, ?_⟩
  have hne : byte.toNat ≠ 0 := fun hzero => h (UInt8.toNat_inj.mp hzero)
  obtain ⟨i, hi⟩ := Nat.exists_testBit_of_ne_zero hne
  refine List.mem_map.mpr ⟨i, List.mem_range.mpr ?_, hi⟩
  refine Nat.lt_of_not_le fun hle => ?_
  have hpow : 2 ^ 8 ≤ 2 ^ i := Nat.pow_le_pow_right (by decide) hle
  rw [Nat.testBit_lt_two_pow (Nat.lt_of_lt_of_le byte.toNat_lt hpow)] at hi
  cases hi

namespace Frame

/-- A frame is read back as it was. With an odd number of bits flipped, or with bits flipped that
lie within sixteen places of each other in the order of the line, or with two bits flipped and no
more than the line carries in one frame, its checksum fails. -/
theorem checksum_detects (unit : UInt8) {pdu : Bytes} (hpdu : pdu ≠ []) {pattern : Bytes}
    (hlen : pattern.length = (wire ⟨unit, pdu⟩).length) (hpattern : ∃ byte ∈ pattern, byte ≠ 0) :
    let adu := wire ⟨unit, pdu⟩
    let flips := Bits.unpackAll pattern
    ofWire adu = .ok ⟨unit, pdu⟩ ∧
    (flips.count true % 2 = 1 ∨
        (∃ first, ∀ i : Nat, flips[i]? = some true → first ≤ i ∧ i < first + 16) ∨
        (flips.count true = 2 ∧ adu.length ≤ 256) →
      ∃ received computed,
        ofWire (List.zipWith (· ^^^ ·) adu pattern) = .error (.checksum received computed)) := by
  intro adu flips
  refine ⟨ofWire_wire hpdu, fun hclass => ?_⟩
  have htrace := checksum_zipWith_xor ⟨unit, pdu⟩ hlen
  apply ofWire_of_checksum_ne_zero
  · have hpos := List.length_pos_iff.mpr hpdu
    rw [List.length_zipWith, hlen, length_wire, Nat.min_self, overhead]
    change 4 ≤ pdu.length + 3
    omega
  rw [htrace]
  rcases hclass with hodd | ⟨first, hburst⟩ | ⟨htwo, hmax⟩
  · exact foldl_ne_zero_of_odd hodd
  · obtain ⟨byte, hbyte, hne⟩ := hpattern
    exact foldl_ne_zero_of_burst (true_mem_unpackAll hbyte hne) hburst
  · apply foldl_ne_zero_of_two htwo
    rw [Bits.length_unpackAll, hlen]
    change 8 * adu.length ≤ 2048
    omega

theorem checksum_detects_burst_at_end :
    let pattern : Bytes := [0, 0, 0, 0, 0, 0x80, 0xFF, 0x7F]
    wire ⟨1, [3, 0, 0, 0, 2]⟩ = [1, 3, 0, 0, 0, 2, 0xC4, 0x0B] ∧
    (Bits.unpackAll pattern).count true = 16 ∧
    ∃ received computed, ofWire [1, 3, 0, 0, 0, 0x82, 0x3B, 0x74] =
      .error (.checksum received computed) := by
  intro pattern
  have hwire : wire ⟨1, [3, 0, 0, 0, 2]⟩ = [1, 3, 0, 0, 0, 2, 0xC4, 0x0B] := by decide +kernel
  have hburst : ∀ i : Nat, (Bits.unpackAll pattern)[i]? = some true → 47 ≤ i ∧ i < 47 + 16 := by
    intro i hi
    have hlt : i < (Bits.unpackAll pattern).length := (List.getElem?_eq_some_iff.mp hi).1
    have hall : ∀ j < 64, (Bits.unpackAll pattern)[j]? = some true → 47 ≤ j ∧ j < 47 + 16 := by
      decide +kernel
    exact hall i hlt hi
  have hpdu : ([3, 0, 0, 0, 2] : Bytes) ≠ [] := List.cons_ne_nil _ _
  have hlen : pattern.length = (wire ⟨1, [3, 0, 0, 0, 2]⟩).length := by
    rw [hwire]
    rfl
  obtain ⟨-, hdetected⟩ := checksum_detects 1 hpdu hlen ⟨0x80, by decide, by decide⟩
  rw [hwire] at hdetected
  exact ⟨hwire, by decide +kernel, hdetected (.inr (.inl ⟨47, hburst⟩))⟩

end Frame

end Modbus.Serial
