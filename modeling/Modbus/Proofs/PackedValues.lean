import Mathlib.Data.Nat.Bitwise
import Modbus.Proofs.AnswerForm
import Modbus.Proofs.BlockPlaces

/-! Values and the bytes that hold them, place by place. Coil `i` is bit
`i % 8` of byte `i / 8` (`bit?`), whichever way it is packed or looked up: all
coils at once or one by one, by a shift of the byte or by a mask. Packing is
done in place, so a target that is too small is left as it was. Words are in
pairs of bytes, and no pair is without its word. -/

namespace Modbus

open Checked Places

namespace Bits

/-- The bit of the coil with an index, if there is a byte for it. -/
def bit? (bytes : Bytes) (index : Nat) : Option Bool :=
  bytes[index / 8]?.map (·.toNat.testBit (index % 8))

theorem bit?_of_lt {bytes : Bytes} {index : Nat} (h : index < 8 * bytes.length) :
    bit? bytes index = some ((bytes.getD (index / 8) 0).toNat.testBit (index % 8)) := by
  have hbyte : index / 8 < bytes.length := by omega
  simp [bit?, hbyte]

theorem bit?_of_le {bytes : Bytes} {index : Nat} (h : 8 * bytes.length ≤ index) :
    bit? bytes index = none := by
  have hbyte : bytes.length ≤ index / 8 := by omega
  simp [bit?, hbyte]

theorem bit?_append {bytes : Bytes} {index : Nat} (h : index < 8 * bytes.length) (more : Bytes) :
    bit? (bytes ++ more) index = bit? bytes index := by
  have hbyte : index / 8 < bytes.length := by omega
  rw [bit?, bit?, List.getElem?_append_left hbyte]

theorem bit?_take {bytes : Bytes} {index length : Nat} (h : index < 8 * length) :
    bit? (bytes.take length) index = bit? bytes index := by
  have hbyte : index / 8 < length := by omega
  rw [bit?, bit?, List.getElem?_take_of_lt hbyte]

theorem getElem?_unpackAll (bytes : Bytes) (index : Nat) :
    (unpackAll bytes)[index]? = bit? bytes index := by
  by_cases h : index < 8 * bytes.length
  · have hindex : index < (unpackAll bytes).length := by rwa [length_unpackAll]
    rw [List.getElem?_eq_getElem hindex, getElem_unpackAll, bit?_of_lt h]
  · have hindex : (unpackAll bytes).length ≤ index := by
      rw [length_unpackAll]
      exact Nat.le_of_not_lt h
    rw [List.getElem?_eq_none hindex, bit?_of_le (Nat.le_of_not_lt h)]

theorem getElem?_take_unpackAll (bytes : Bytes) (count index : Nat) :
    ((unpackAll bytes).take count)[index]? =
      if index < count then bit? bytes index else none := by
  rw [List.getElem?_take, getElem?_unpackAll]

/-- The coils are packed in order, and those that fill up the last byte are off. -/
theorem bit?_pack {coils : List Bool} {index : Nat}
    (h : index < 8 * packedLength coils.length) :
    bit? (pack coils) index = some (coils.getD index false) := by
  rw [← length_pack] at h
  rw [bit?_of_lt h, testBit_pack h]

/-- What is unpacked is given by its bits. -/
theorem unpack?_eq_ok_iff {bytes : Bytes} {count : Nat} {coils : List Bool} :
    unpack? bytes count = .ok coils ↔
      coils.length = count ∧ ∀ index < count, bit? bytes index = coils[index]? := by
  have hroom : packedLength count ≤ bytes.length ↔ count ≤ 8 * bytes.length := by
    rw [packedLength]
    omega
  constructor
  · intro h
    unfold unpack? at h
    split at h
    · cases h
    · next hlength =>
      cases h
      have hcount := hroom.mp (Nat.le_of_not_lt hlength)
      refine ⟨by rw [List.length_take, length_unpackAll, Nat.min_eq_left hcount], ?_⟩
      intro index hindex
      rw [getElem?_take_unpackAll, if_pos hindex]
  · rintro ⟨hcoils, hbits⟩
    have hcount : count ≤ 8 * bytes.length := by
      refine Nat.le_of_not_lt fun hshort => ?_
      -- the coil behind the last byte would have a bit
      have hnone := bit?_of_le (Nat.le_refl (8 * bytes.length))
      rw [hbits _ hshort, List.getElem?_eq_none_iff] at hnone
      omega
    rw [unpack?, if_neg (Nat.not_lt.mpr (hroom.mpr hcount))]
    congr 1
    apply List.ext_getElem?
    intro index
    rw [getElem?_take_unpackAll]
    split
    · next hindex => exact hbits index hindex
    · next hindex =>
      rw [List.getElem?_eq_none]
      omega

/-! ## Packing in place -/

/-- The coils that go into one byte each, the last ones maybe fewer. -/
def chunks (coils : List Bool) : List (List Bool) :=
  (List.range (packedLength coils.length)).map fun index => (coils.drop (8 * index)).take 8

/-- Puts chunks into the bytes of a target one after the other. The target is what it is in the
end, in whichever way that comes. -/
def packChunks : List (List Bool) → Bytes → Except ProtocolError Unit × Bytes
  | chunk :: rest, byte :: target =>
    match packByte? chunk with
    | .error cause => (.error cause, byte :: target)
    | .ok packed =>
      let (outcome, target) := packChunks rest target
      (outcome, packed :: target)
  | _, target => (.ok (), target)

def packOnto (coils : List Bool) (target : Bytes) : Except ProtocolError Nat × Bytes :=
  let length := packedLength coils.length
  if target.length < length then (.error .bufferSize, target)
  else
    let (outcome, target) := packChunks (chunks coils) target
    (outcome.map fun _ => length, target)

theorem packChunks_eq {chunks : List (List Bool)} {target : Bytes}
    (hsmall : ∀ chunk ∈ chunks, chunk.length ≤ 8) (hroom : chunks.length ≤ target.length) :
    packChunks chunks target = (.ok (), chunks.map packByte ++ target.drop chunks.length) := by
  induction chunks generalizing target with
  | nil => rfl
  | cons chunk chunks ih =>
    obtain ⟨hfirst, hrest⟩ := List.forall_mem_cons.mp hsmall
    cases target with
    | nil => simp at hroom
    | cons byte target =>
      have hpacked : packByte? chunk = .ok (packByte chunk) := if_neg (Nat.not_lt.mpr hfirst)
      simp only [packChunks, hpacked, ih hrest (Nat.le_of_succ_le_succ hroom)]
      rfl

theorem map_packByte_chunks (coils : List Bool) : (chunks coils).map packByte = pack coils := by
  apply List.ext_getElem?
  intro index
  by_cases h : index < packedLength coils.length
  · rw [pack, getElem?_packBytes h]
    simp [chunks, h]
  · have hlength := length_pack coils
    rw [List.getElem?_eq_none, List.getElem?_eq_none]
    · omega
    · simp only [chunks, List.length_map, List.length_range]
      omega

/-- Packing in place comes to the same. -/
theorem packOnto_eq (coils : List Bool) (target : Bytes) :
    packOnto coils target = packInto coils target := by
  have hlength : (chunks coils).length = packedLength coils.length := by simp [chunks]
  rw [packOnto, packInto]
  by_cases hroom : packedLength coils.length ≤ target.length
  · have hsmall : ∀ chunk ∈ chunks coils, chunk.length ≤ 8 := by
      intro chunk hmem
      obtain ⟨index, -, rfl⟩ := List.mem_map.mp hmem
      exact List.length_take_le _ _
    rw [if_neg (Nat.not_lt.mpr hroom), packChunks_eq hsmall (hlength.symm ▸ hroom),
      map_packByte_chunks, overwrite_ok (length_pack coils ▸ hroom), hlength, length_pack]
    rfl
  · have hshort := Nat.lt_of_not_le hroom
    rw [if_pos hshort, overwrite_error (length_pack coils ▸ hshort)]

/-- A target with coils in its front. -/
structure PackedInto (coils : List Bool) (target packed : Bytes) : Prop where
  length : packed.length = target.length
  coil : ∀ index (h : index < coils.length), bit? packed index = some coils[index]
  clear : ∀ index, coils.length ≤ index → index < 8 * packedLength coils.length →
    bit? packed index = some false
  behind : packed.drop (packedLength coils.length) = target.drop (packedLength coils.length)

theorem packedInto_pack {coils : List Bool} {target : Bytes}
    (hroom : packedLength coils.length ≤ target.length) :
    PackedInto coils target (pack coils ++ target.drop (packedLength coils.length)) := by
  have hlength := length_pack coils
  have hbit : ∀ index < 8 * packedLength coils.length,
      bit? (pack coils ++ target.drop (packedLength coils.length)) index =
        some (coils.getD index false) := by
    intro index h
    rw [bit?_append (by rwa [hlength]), bit?_pack h]
  have hfits : coils.length ≤ 8 * packedLength coils.length := by
    rw [packedLength]
    omega
  constructor
  · rw [List.length_append, hlength, List.length_drop, Nat.add_sub_cancel' hroom]
  · intro index h
    rw [hbit index (Nat.lt_of_lt_of_le h hfits)]
    simp [h]
  · intro index h hlt
    rw [hbit index hlt]
    simp [h]
  · rw [← hlength, List.drop_left]

theorem PackedInto.unpack? {coils : List Bool} {target packed : Bytes}
    (h : PackedInto coils target packed) : unpack? packed coils.length = .ok coils := by
  refine unpack?_eq_ok_iff.mpr ⟨rfl, fun index hindex => ?_⟩
  rw [h.coil index hindex, List.getElem?_eq_getElem hindex]

end Bits

/-! ## Looking coils up -/

namespace Places

/-- The bit at a place of a byte, by a shift of the byte. -/
def shiftedBit (byte : UInt8) (place : Nat) : Bool := decide (0 < byte >>> place.toUInt8 &&& 1)

/-- The bit at a place of a byte, by a mask with one bit. -/
def maskedBit (byte : UInt8) (place : Nat) : Bool := decide (byte &&& 1 <<< place.toUInt8 ≠ 0)

/-- The first coils of bytes that have to hold them. -/
def unpackCoils (bytes : Bytes) (count : Nat) : Checked (List Bool) :=
  if bytes.length < Bits.packedLength count then throw .bufferSize
  else (List.range count).mapM fun index => do
    return shiftedBit (← byteAt bytes (index / 8)) (index % 8)

/-- The coils of a block that is known to be in the bytes. -/
def coilsAt (bytes : Bytes) (count : Nat) : Checked (List Bool) :=
  (List.range count).mapM fun index => do
    return maskedBit (← byteAt bytes (index / 8)) (index % 8)

/-- One coil of a block that is known to be in the bytes. -/
def coilAt (bytes : Bytes) (count index : Nat) : Checked (Option Bool) :=
  if count ≤ index then return none
  else return some (maskedBit (← byteAt bytes (index / 8)) (index % 8))

variable {byte : UInt8} {place : Nat} {bytes : Bytes} {count : Nat}

theorem toNat_toUInt8_mod (h : place < 8) : place.toUInt8.toNat % 8 = place := by
  rw [toNat_toUInt8 (by omega), Nat.mod_eq_of_lt h]

theorem shiftedBit_eq (h : place < 8) : shiftedBit byte place = byte.toNat.testBit place := by
  have hbit : (byte >>> place.toUInt8 &&& 1).toNat = 1 &&& byte.toNat >>> place := by
    rw [UInt8.toNat_and, UInt8.toNat_shiftRight, toNat_toUInt8_mod h, Nat.and_comm]
    rfl
  have hset : 0 < byte >>> place.toUInt8 &&& 1 ↔ 1 &&& byte.toNat >>> place ≠ 0 := by
    rw [UInt8.lt_iff_toNat_lt, hbit]
    exact Nat.pos_iff_ne_zero
  simp [shiftedBit, Nat.testBit, hset]

theorem maskedBit_eq (h : place < 8) : maskedBit byte place = byte.toNat.testBit place := by
  have hpow : 2 ^ place < 2 ^ 8 := Nat.pow_lt_pow_right (by decide) h
  have hmask : (1 <<< place.toUInt8 : UInt8).toNat = 2 ^ place := by
    rw [UInt8.toNat_shiftLeft, toNat_toUInt8_mod h]
    change 1 <<< place % 2 ^ 8 = 2 ^ place
    rw [Nat.one_shiftLeft, Nat.mod_eq_of_lt hpow]
  have hbit : (byte &&& 1 <<< place.toUInt8).toNat =
      (byte.toNat.testBit place).toNat * 2 ^ place := by
    rw [UInt8.toNat_and, hmask, Nat.and_two_pow]
  have hclear : byte &&& 1 <<< place.toUInt8 = 0 ↔ byte.toNat.testBit place = false := by
    rw [← UInt8.toNat_inj, hbit]
    simp
  simp [maskedBit, hclear]

/-- The byte that holds a coil is there. -/
theorem byteAt_eq_getD {index : Nat} (h : index < 8 * bytes.length) :
    byteAt bytes (index / 8) = pure (bytes.getD (index / 8) 0) := by
  have hbyte : index / 8 < bytes.length := by omega
  rw [byteAt_of_lt hbyte]
  simp [hbyte]

/-- Each way to look coils up finds the same, and none looks behind the bytes. -/
theorem mapM_look {look : UInt8 → Nat → Bool}
    (hlook : ∀ {byte place}, place < 8 → look byte place = byte.toNat.testBit place)
    (h : Bits.packedLength count ≤ bytes.length) :
    ((List.range count).mapM fun index => do
        return look (← byteAt bytes (index / 8)) (index % 8) : Checked (List Bool)) =
      pure ((Bits.unpackAll bytes).take count) := by
  have hcount : count ≤ 8 * bytes.length := by
    rw [Bits.packedLength] at h
    omega
  rw [Master.take_unpackAll_eq_bitsOf hcount]
  refine mapM_eq fun index hmem => ?_
  have hindex : index < 8 * bytes.length :=
    Nat.lt_of_lt_of_le (List.mem_range.mp hmem) hcount
  rw [byteAt_eq_getD hindex, pure_bind, hlook (Nat.mod_lt _ (by decide))]

theorem unpackCoils_eq (bytes : Bytes) (count : Nat) :
    unpackCoils bytes count = within (Bits.unpack? bytes count) := by
  rw [unpackCoils, Bits.unpack?]
  split
  · rfl
  · next h => exact mapM_look shiftedBit_eq (Nat.le_of_not_lt h)

theorem coilsAt_eq (h : Bits.packedLength count ≤ bytes.length) :
    coilsAt bytes count = pure ((Bits.unpackAll bytes).take count) := mapM_look maskedBit_eq h

theorem coilAt_eq (h : Bits.packedLength count ≤ bytes.length) (index : Nat) :
    coilAt bytes count index = pure ((Bits.unpackAll bytes).take count)[index]? := by
  rw [coilAt, Bits.getElem?_take_unpackAll]
  by_cases hindex : index < count
  · have hbit : index < 8 * bytes.length := by
      rw [Bits.packedLength] at h
      omega
    rw [if_neg (Nat.not_le.mpr hindex), if_pos hindex, Bits.bit?_of_lt hbit, byteAt_eq_getD hbit,
      pure_bind, maskedBit_eq (Nat.mod_lt _ (by decide))]
  · rw [if_pos (Nat.le_of_not_lt hindex), if_neg hindex]

end Places

namespace Coils

/-- The block of the first coils in bytes that may be more than it needs. -/
def ofFront (bytes : Bytes) (count : Nat) (h : Bits.packedLength count ≤ bytes.length) : Coils :=
  ⟨bytes.take (Bits.packedLength count), count, by rw [List.length_take, Nat.min_eq_left h]⟩

theorem toList_ofFront {bytes : Bytes} {count : Nat}
    (h : Bits.packedLength count ≤ bytes.length) :
    (ofFront bytes count h).toList = (Bits.unpackAll bytes).take count := by
  apply List.ext_getElem?
  intro index
  rw [toList, Bits.getElem?_take_unpackAll, Bits.getElem?_take_unpackAll]
  split
  · next hindex =>
    have hfront : index < 8 * Bits.packedLength count := by
      change index < count at hindex
      rw [Bits.packedLength]
      omega
    exact (Bits.bit?_take hfront).trans (if_pos hindex).symm
  · next hindex => exact (if_neg hindex).symm

/-- The coils one by one are those of the list. -/
theorem get?_eq (coils : Coils) (index : Nat) : coils.get? index = coils.toList[index]? := by
  rw [toList, Bits.getElem?_take_unpackAll, get?]
  split
  · next hindex =>
    have hbyte := place_lt hindex
    rw [Bits.bit?, List.getElem?_eq_getElem hbyte, Option.map_some]
  · rfl

end Coils

/-! ## Words -/

namespace Words

theorem bytes_ofPairs : {bytes : Bytes} → bytes.length % 2 = 0 → Words.bytes (ofPairs bytes) = bytes
  | [], _ => rfl
  | [_], h => absurd h (by simp)
  | high :: low :: rest, h => by
    have hrest : rest.length % 2 = 0 := by
      simp only [List.length_cons] at h
      omega
    rw [ofPairs, Words.bytes, List.flatMap_cons, wordBytes_word, ← Words.bytes, bytes_ofPairs hrest]
    rfl

theorem ofBytes?_of_even {bytes : Bytes} (h : bytes.length % 2 = 0) :
    ofBytes? bytes = .ok (ofPairs bytes) := if_neg (not_not_intro h)

theorem ofBytes?_bytes (words : List UInt16) : ofBytes? (Words.bytes words) = .ok words := by
  have heven : (Words.bytes words).length % 2 = 0 := by
    rw [length_bytes]
    omega
  rw [ofBytes?_of_even heven, ofPairs_bytes]

end Words

namespace Registers

theorem ofBytes?_eq (registers : Registers) :
    Words.ofBytes? registers.bytes = .ok registers.toList := by
  have heven : registers.bytes.length % 2 = 0 := by
    rw [registers.length_bytes]
    omega
  exact Words.ofBytes?_of_even heven

/-- The words one by one are those of the list. -/
theorem get?_eq (registers : Registers) (index : Nat) :
    registers.get? index = registers.toList[index]? := by
  rw [toList, Master.ofPairs_eq_wordsOf registers.length_bytes, Master.wordsOf, List.getElem?_map,
    get?]
  split
  · next hindex =>
    have hlow : 2 * index + 1 < registers.bytes.length := by
      rw [registers.length_bytes]
      omega
    have hhigh : 2 * index < registers.bytes.length := Nat.lt_of_succ_lt hlow
    simp [hindex, hlow, hhigh, Master.word_eq_toUInt16]
  · next hindex => simp [hindex]

end Registers

/-- Packing puts every coil into its place, clears the places that fill up the last byte and leaves
the bytes behind it alone; a target without room is left as it was. All ways to look coils up find
them in these places, in whatever bytes, and find none behind the last. The bytes of words, and the
words of an even number of bytes, are those that lead back to them. -/
theorem packed_values_found :
    (∀ (coils : List Bool) (target : Bytes),
      let length := Bits.packedLength coils.length
      if length ≤ target.length then
        ∃ packed, Bits.packInto coils target = (.ok length, packed) ∧
          Bits.packOnto coils target = (.ok length, packed) ∧
          Bits.PackedInto coils target packed ∧
          Bits.unpack? packed coils.length = .ok coils
      else
        Bits.packInto coils target = (.error .bufferSize, target) ∧
          Bits.packOnto coils target = (.error .bufferSize, target)) ∧
    (∀ (bytes : Bytes) (count : Nat) (h : Bits.packedLength count ≤ bytes.length),
      ∃ coils : List Bool, coils.length = count ∧
        (∀ index < count, coils[index]? = Bits.bit? bytes index) ∧
        Bits.unpack? bytes count = .ok coils ∧
        (Coils.ofFront bytes count h).toList = coils ∧
        (∀ index, (Coils.ofFront bytes count h).get? index = coils[index]?) ∧
        (Places.unpackCoils bytes count).run = some (.ok coils) ∧
        (Places.coilsAt bytes count).run = some (.ok coils) ∧
        ∀ index, (Places.coilAt bytes count index).run = some (.ok coils[index]?)) ∧
    (∀ (words : List UInt16) (target : Bytes),
      Words.ofBytes? (Words.bytes words) = .ok words ∧
      if 2 * words.length ≤ target.length then
        ∃ registers, Registers.packInto words target = .ok registers ∧
          (Registers.packIntoAt words target).run = some (.ok registers) ∧
          registers.bytesAt.run = some (.ok (Words.bytes words)) ∧ registers.toList = words
      else
        Registers.packInto words target = .error .bufferSize) ∧
    (∀ bytes : Bytes, bytes.length % 2 = 0 →
      ∃ words, Words.ofBytes? bytes = .ok words ∧ Words.bytes words = bytes) ∧
    ∀ registers : Registers, Words.ofBytes? registers.bytes = .ok registers.toList ∧
      registers.listAt.run = some (.ok registers.toList) ∧
      ∀ index, registers.get? index = registers.toList[index]? ∧
        (registers.getAt index).run = some (.ok registers.toList[index]?) := by
  refine ⟨?_, ?_, ?_, ?_, ?_⟩
  · intro coils target length
    split
    · next hroom =>
      have hpacked : Bits.packInto coils target =
          (.ok length, Bits.pack coils ++ target.drop length) := by
        rw [Bits.packInto, overwrite_ok (by rwa [Bits.length_pack]), Bits.length_pack]
      have hholds := Bits.packedInto_pack hroom
      refine ⟨_, hpacked, ?_, hholds, hholds.unpack?⟩
      rw [Bits.packOnto_eq, hpacked]
    · next hroom =>
      have hrefused : Bits.packInto coils target = (.error .bufferSize, target) := by
        rw [Bits.packInto, overwrite_error]
        rw [Bits.length_pack]
        exact Nat.lt_of_not_le hroom
      exact ⟨hrefused, by rw [Bits.packOnto_eq, hrefused]⟩
  · intro bytes count h
    have hunpacked : Bits.unpack? bytes count = .ok ((Bits.unpackAll bytes).take count) :=
      if_neg (Nat.not_lt.mpr h)
    obtain ⟨hlength, hbits⟩ := Bits.unpack?_eq_ok_iff.mp hunpacked
    have hblock := Coils.toList_ofFront h
    refine ⟨_, hlength, fun index hindex => (hbits index hindex).symm, hunpacked, hblock, ?_, ?_,
      ?_, ?_⟩
    · intro index
      rw [Coils.get?_eq, hblock]
    · rw [Places.unpackCoils_eq, hunpacked]
      rfl
    · rw [Places.coilsAt_eq h]
      rfl
    · intro index
      rw [Places.coilAt_eq h]
      rfl
  · intro words target
    refine ⟨Words.ofBytes?_bytes words, ?_⟩
    split
    · next hroom =>
      have hpacked := Registers.packInto_ok hroom
      refine ⟨_, hpacked, ?_, ?_, Registers.toList_ofList words⟩
      · rw [Registers.packIntoAt_eq, hpacked]
        rfl
      · rw [Registers.bytesAt_eq]
        rfl
    · next hroom =>
      have hshort : target.length < (Words.bytes words).length := by
        rw [Words.length_bytes]
        exact Nat.lt_of_not_le hroom
      rw [Registers.packInto, overwrite_error hshort]
      rfl
  · intro bytes heven
    exact ⟨_, Words.ofBytes?_of_even heven, Words.bytes_ofPairs heven⟩
  · intro registers
    refine ⟨registers.ofBytes?_eq, ?_, fun index => ⟨registers.get?_eq index, ?_⟩⟩
    · rw [registers.listAt_eq]
      rfl
    · rw [registers.getAt_eq, registers.get?_eq]
      rfl

theorem packed_values_found_nine_coils :
    let coils := [true, false, true, true, false, false, false, true, true]
    Bits.packOnto coils [9, 9, 9, 9] = (.ok 2, [0x8D, 0x01, 9, 9]) ∧
      Bits.packOnto coils [9] = (.error .bufferSize, [9]) ∧
      (Places.coilsAt [0x8D, 0xFF, 9] 9).run = some (.ok coils) ∧
      ∃ words, Words.ofBytes? [1, 2, 3, 4] = .ok words ∧ Words.bytes words = [1, 2, 3, 4] := by
  intro coils
  obtain ⟨hpack, hfind, -, heven, -⟩ := packed_values_found
  have hlength : Bits.packedLength coils.length = 2 := by decide
  have hroom := hpack coils [9, 9, 9, 9]
  have hshort := hpack coils [9]
  rw [hlength] at hroom hshort
  rw [if_pos (by decide)] at hroom
  rw [if_neg (by decide)] at hshort
  obtain ⟨packed, hpacked, honto, -⟩ := hroom
  obtain ⟨found, -, -, hfound, -, -, -, hlisted, -⟩ := hfind [0x8D, 0xFF, 9] 9 (by decide)
  have hbytes : Bits.packInto coils [9, 9, 9, 9] = (.ok 2, [0x8D, 0x01, 9, 9]) := by decide
  obtain ⟨-, rfl⟩ := Prod.mk.inj (hbytes.symm.trans hpacked)
  obtain rfl : coils = found := Except.ok.inj hfound
  exact ⟨honto, hshort.2, hlisted, heven [1, 2, 3, 4] rfl⟩

end Modbus
