import Modbus.Proofs.FrameReading

/-! Finding a frame behind noise. Leading bytes that begin no frame are skipped,
and the frame behind them is found. Bytes that do begin one are waited for,
because the rest of it may still come; that can hold up a frame behind them, but
for no longer than the longest frame takes. If the rest does come, what is found
is the frame that begins in the noise, which may cover the one behind. -/

namespace Modbus.Serial

/-- The PDUs of a direction whose fields tell their length. -/
def Direction.Delimits : Direction → Bytes → Prop
  | .request => Delimited
  | .response => DelimitedResponse

theorem Direction.Delimits.tells {direction : Direction} {pdu : Bytes}
    (h : direction.Delimits pdu) : direction.Tells pdu := by
  cases direction with
  | request => exact Delimited.tells h
  | response => exact DelimitedResponse.tells h

/-- The bytes begin a unit, a PDU that tells its length and two bytes for its checksum, but they
are not all of it. -/
def Begins (direction : Direction) (bytes : Bytes) : Prop :=
  ∃ (unit : UInt8) (pdu check more : Bytes), direction.Delimits pdu ∧ check.length = 2 ∧
    more ≠ [] ∧ bytes ++ more = unit :: (pdu ++ check)

/-! ## What is told of a length -/

namespace LengthRule

/-- Neither the fixed lengths nor the fields that tell one reach beyond a few bytes. -/
def Small : LengthRule → Prop
  | .fixed length => 2 ≤ length ∧ length ≤ 5
  | .counted index => index ≤ 4
  | .unknown _ => True

theorem bounds_of_apply {rule : LengthRule} (hrule : rule.Small) {fields : Bytes} {length : Nat}
    (h : rule.apply fields = .ok (some length)) : 2 ≤ length ∧ length ≤ 261 := by
  cases rule with
  | fixed known =>
    cases h
    have hsmall : 2 ≤ length ∧ length ≤ 5 := hrule
    omega
  | counted index =>
    have hsmall : index ≤ 4 := hrule
    obtain ⟨count, -, hcount⟩ := Option.map_eq_some_iff.mp (Except.ok.inj h)
    have := count.toNat_lt
    omega
  | unknown => cases h

/-- The longest PDU of which the rule can tell the length. -/
def longest : LengthRule → Nat
  | .fixed length => length
  | .counted index => index + 257
  | .unknown _ => 0

theorem le_longest {rule : LengthRule} {fields : Bytes} {length : Nat}
    (h : rule.apply fields = .ok (some length)) : length ≤ rule.longest := by
  cases rule with
  | fixed => cases h; exact Nat.le_refl _
  | counted index =>
    obtain ⟨count, -, hlength⟩ := Option.map_eq_some_iff.mp (Except.ok.inj h)
    have hlength : index + 2 + count.toNat = length := hlength
    have := count.toNat_lt
    rw [longest]
    omega
  | unknown => cases h

/-- A length that is told stays the same, whatever comes behind. -/
theorem apply_append {rule : LengthRule} {fields : Bytes} {length : Nat}
    (h : rule.apply fields = .ok (some length)) (more : Bytes) :
    rule.apply (fields ++ more) = .ok (some length) := by
  cases rule with
  | fixed => exact h
  | counted index =>
    obtain ⟨count, hcount, -⟩ := Option.map_eq_some_iff.mp (Except.ok.inj h)
    rw [apply, List.getElem?_append_left (List.getElem?_eq_some_iff.mp hcount).1]
    exact h
  | unknown => cases h

/-- The field that is missing may be a zero. -/
theorem apply_eq_none {rule : LengthRule} {fields : Bytes} (h : rule.apply fields = .ok none) :
    ∃ more length, rule.apply (fields ++ more) = .ok (some length) ∧
      fields.length < length ∧ (fields ++ more).length ≤ length := by
  cases rule with
  | fixed => cases h
  | counted index =>
    have hmissing := Option.map_eq_none_iff.mp (Except.ok.inj h)
    have hlen := List.getElem?_eq_none_iff.mp hmissing
    refine ⟨List.replicate (index + 1 - fields.length) 0, index + 2, ?_, by omega, ?_⟩
    · rw [apply, List.getElem?_append_right hlen, List.getElem?_replicate, if_pos (by omega)]
      rfl
    · rw [List.length_append, List.length_replicate]
      omega
  | unknown => cases h

theorem length_of_fixed {known length : Nat} {fields : Bytes}
    (h : (fixed known).apply fields = .ok (some length)) : length = known := by
  cases h
  rfl

/-- The field that tells the length of a PDU is one of its own. -/
theorem split_of_counted {index : Nat} {fields check : Bytes}
    (h : (counted index).apply (fields ++ check) = .ok (some (fields.length + 1))) :
    ∃ before count values, fields = before ++ count :: values ∧ before.length = index ∧
      values.length = count.toNat := by
  obtain ⟨count, hcount, hlength⟩ := Option.map_eq_some_iff.mp (Except.ok.inj h)
  have hlength : index + 2 + count.toNat = fields.length + 1 := hlength
  have hindex : index < fields.length := by omega
  rw [List.getElem?_append_left hindex] at hcount
  obtain ⟨_, rfl⟩ := List.getElem?_eq_some_iff.mp hcount
  refine ⟨fields.take index, fields[index], fields.drop (index + 1), ?_, ?_, ?_⟩
  · rw [← List.drop_eq_getElem_cons hindex, List.take_append_drop]
  · rw [List.length_take]
    omega
  · rw [List.length_drop]
    omega

end LengthRule

theorem Direction.small_rule (direction : Direction) (code : UInt8) :
    (direction.rule code).Small := by
  cases direction with
  | request =>
    simp only [rule]
    repeat' split
    all_goals simp [LengthRule.Small]
  | response =>
    simp only [rule]
    repeat' split
    all_goals simp [LengthRule.Small]

/-- The longest PDU of which the fields can tell the length. -/
def Direction.longestPdu : Direction → Nat
  | .request => 261
  | .response => 257

theorem Direction.longest_rule_le (direction : Direction) (code : UInt8) :
    (direction.rule code).longest ≤ direction.longestPdu := by
  cases direction
  all_goals
    simp only [rule]
    repeat' split
    all_goals simp [LengthRule.longest, longestPdu]

theorem Direction.Delimits.length_le {direction : Direction} {pdu : Bytes}
    (h : direction.Delimits pdu) : pdu.length ≤ direction.longestPdu := by
  have hlength := h.tells 0 []
  match pdu with
  | [] => exact Nat.zero_le _
  | code :: fields =>
    rw [List.append_nil, Direction.pduLength_cons] at hlength
    exact Nat.le_trans (LengthRule.le_longest hlength) (direction.longest_rule_le code)

theorem Direction.delimits_of_rule {direction : Direction} {code : UInt8} {fields check : Bytes}
    (h : (direction.rule code).apply (fields ++ check) = .ok (some (fields.length + 1))) :
    direction.Delimits (code :: fields) := by
  cases direction with
  | request =>
    simp only [rule] at h
    split at h
    · next hplain => exact Delimited.plain hplain (Nat.succ.inj (LengthRule.length_of_fixed h))
    · split at h
      · next hcounted =>
        obtain ⟨before, count, values, rfl, hbefore, hvalues⟩ := LengthRule.split_of_counted h
        rcases before with _ | ⟨a1, _ | ⟨a0, _ | ⟨q1, _ | ⟨q0, _ | ⟨_, _⟩⟩⟩⟩⟩
        case cons.cons.cons.cons.nil => exact Delimited.counted hcounted hvalues
        all_goals
          simp only [List.length_cons, List.length_nil] at hbefore
          omega
      · split at h
        · next hrecord =>
          obtain ⟨before, count, values, rfl, hbefore, hvalues⟩ := LengthRule.split_of_counted h
          rw [List.length_eq_zero_iff.mp hbefore, hrecord]
          exact Delimited.record hvalues
        · cases h
  | response =>
    simp only [rule] at h
    split at h
    · next hcounted =>
      obtain ⟨before, count, values, rfl, hbefore, hvalues⟩ := LengthRule.split_of_counted h
      rw [List.length_eq_zero_iff.mp hbefore]
      exact DelimitedResponse.counted hcounted hvalues
    · split at h
      · next hplain =>
        exact DelimitedResponse.plain hplain (Nat.succ.inj (LengthRule.length_of_fixed h))
      · split at h
        · next hexception =>
          have hlen : fields.length = 1 := Nat.succ.inj (LengthRule.length_of_fixed h)
          obtain ⟨cause, rfl⟩ := List.length_eq_one_iff.mp hlen
          exact DelimitedResponse.exception hexception
        · cases h

/-! ## What a position of a buffer begins -/

/-- The beginning of a frame is waited for. -/
theorem Begins.frameAt {direction : Direction} {bytes : Bytes} (h : Begins direction bytes)
    (start : Nat) : frameAt direction start bytes = .ok none := by
  obtain ⟨unit, pdu, check, more, hpdu, hcheck, hmore, heq⟩ := h
  have hlen := congrArg List.length heq
  have hpos := List.length_pos_iff.mpr hmore
  simp only [List.length_append, List.length_cons, hcheck] at hlen
  have hlength : direction.pduLength (bytes ++ more) = .ok (some pdu.length) := by
    rw [heq]
    exact hpdu.tells unit check
  rcases direction.pduLength_prefix hlength with hnone | hsome
  · simp only [Serial.frameAt, hnone]
  · have hne : bytes.isEmpty = false := by
      cases bytes with
      | nil => cases direction <;> cases hsome
      | cons => rfl
    have hfront : Frame.ofFront bytes pdu.length = .ok none := by
      rw [Frame.ofFront, hne, if_neg Bool.false_ne_true, if_pos]
      rw [Frame.overhead]
      omega
    simp only [Serial.frameAt, hsome, hfront]
    rfl

/-- Bytes begin a frame if more of them tell a length that they do not reach. -/
theorem begins_of_rule {direction : Direction} {unit code : UInt8} {fields : Bytes} {length : Nat}
    (h : (direction.rule code).apply fields = .ok (some length)) {bytes more : Bytes}
    (hbytes : bytes ++ more = unit :: code :: fields) (hlen : bytes.length < length + 3)
    (hfields : fields.length ≤ length + 1) : Begins direction bytes := by
  have hbounds := LengthRule.bounds_of_apply (direction.small_rule code) h
  -- zeros in place of all that is missing make it a whole frame, but for the checksum
  obtain ⟨zeros, hzeros⟩ : ∃ zeros : Bytes, zeros.length = length + 1 - fields.length :=
    ⟨List.replicate _ 0, List.length_replicate⟩
  have hfill := LengthRule.apply_append h zeros
  have hfilled : (fields ++ zeros).length = length + 1 := by
    rw [List.length_append]
    omega
  have htake : ((fields ++ zeros).take (length - 1)).length + 1 = length := by
    rw [List.length_take]
    omega
  rw [← List.take_append_drop (length - 1) (fields ++ zeros)] at hfill
  refine ⟨unit, code :: (fields ++ zeros).take (length - 1), (fields ++ zeros).drop (length - 1),
    more ++ zeros, Direction.delimits_of_rule (hfill.trans (by rw [htake])), ?_, ?_, ?_⟩
  · rw [List.length_drop]
    omega
  · have htotal := congrArg List.length hbytes
    simp only [List.length_append, List.length_cons] at htotal
    rw [← List.length_pos_iff, List.length_append]
    omega
  · rw [← List.append_assoc, hbytes, List.cons_append, List.cons_append, List.cons_append,
      List.take_append_drop]

theorem Direction.exists_fixed (direction : Direction) :
    ∃ code, direction.rule code = .fixed 5 := by
  cases direction with
  | request => exact ⟨0x01, rfl⟩
  | response => exact ⟨0x05, rfl⟩

/-- Only the beginning of a frame is waited for. -/
theorem begins_of_frameAt {direction : Direction} {start : Nat} {bytes : Bytes}
    (h : frameAt direction start bytes = .ok none) : Begins direction bytes := by
  obtain ⟨plain, hplain⟩ := direction.exists_fixed
  have hrule : (direction.rule plain).apply [] = .ok (some 5) := by rw [hplain]; rfl
  rcases bytes with _ | ⟨unit, _ | ⟨code, fields⟩⟩
  · exact begins_of_rule hrule (List.nil_append [0, plain]) (by decide) (by decide)
  · exact begins_of_rule hrule (List.singleton_append ..) (by simp) (by decide)
  · rcases frameAt_eq_none h with hnone | ⟨length, hlength, hlen⟩
    · rw [Direction.pduLength_cons] at hnone
      obtain ⟨more, length, hlength, hlen, hmore⟩ := LengthRule.apply_eq_none hnone
      refine begins_of_rule hlength (List.cons_append ..) ?_ (by omega)
      simp only [List.length_cons]
      omega
    · rw [Direction.pduLength_cons] at hlength
      refine begins_of_rule hlength (List.append_nil _) hlen ?_
      rw [Frame.overhead, List.length_cons, List.length_cons] at hlen
      omega

/-- All but one byte of the longest frame may have come. -/
theorem Begins.length_le {direction : Direction} {bytes : Bytes} (h : Begins direction bytes) :
    bytes.length ≤ direction.longestPdu + 2 := by
  obtain ⟨unit, pdu, check, more, hpdu, hcheck, hmore, heq⟩ := h
  have hlongest := hpdu.length_le
  have hpos := List.length_pos_iff.mpr hmore
  have hlen := congrArg List.length heq
  simp only [List.length_append, List.length_cons, hcheck] at hlen
  omega

theorem Begins.length_lt {direction : Direction} {bytes : Bytes} (h : Begins direction bytes) :
    bytes.length < 264 := by
  have hlen := h.length_le
  have hlongest : direction.longestPdu ≤ 261 := by cases direction <;> decide
  omega

/-! ## The scan -/

theorem scan_of_ok {direction : Direction} {start : Nat} {bytes : Bytes} (hlen : 2 ≤ bytes.length)
    {found : Option Located} (h : frameAt direction start bytes = .ok found) :
    scan direction start bytes = .ok found := by
  match bytes, hlen with
  | first :: second :: rest, _ => rw [scan, h]

theorem scan_of_error {direction : Direction} {start : Nat} {byte : UInt8} {bytes : Bytes}
    (hne : bytes ≠ []) (hstart : start < 255) {cause : ProtocolError}
    (h : frameAt direction start (byte :: bytes) = .error cause) :
    scan direction start (byte :: bytes) = scan direction (start + 1) bytes := by
  have hmax : ¬ maxFrameLength ≤ start + 1 := by
    rw [maxFrameLength]
    omega
  match bytes, hne with
  | next :: rest, _ => simp only [scan, h, if_neg hmax]

/-- A scan stops at the first position that is no garbage, if there is one early enough. -/
theorem scan_stops {direction : Direction} {noise front : Bytes} {start : Nat}
    (hstart : start + noise.length ≤ 255) (hlen : 2 ≤ front.length) {found : Option Located}
    (hfront : frameAt direction (start + noise.length) front = .ok found) :
    ∃ offset stopped, offset ≤ noise.length ∧
      scan direction start (noise ++ front) = .ok stopped ∧
      frameAt direction (start + offset) ((noise ++ front).drop offset) = .ok stopped ∧
      ∀ earlier < offset, ∃ cause,
        frameAt direction (start + earlier) ((noise ++ front).drop earlier) = .error cause := by
  induction noise generalizing start with
  | nil => exact ⟨0, found, Nat.le_refl 0, scan_of_ok hlen hfront, hfront, nofun⟩
  | cons byte noise ih =>
    rw [List.length_cons] at hstart
    rw [List.length_cons, Nat.add_comm noise.length 1, ← Nat.add_assoc] at hfront
    have hbehind : 2 ≤ (noise ++ front).length := by
      rw [List.length_append]
      omega
    cases hfirst : frameAt direction start (byte :: (noise ++ front)) with
    | ok stopped =>
      have hlonger : 2 ≤ (byte :: (noise ++ front)).length := Nat.le_succ_of_le hbehind
      exact ⟨0, stopped, Nat.zero_le _, scan_of_ok hlonger hfirst, hfirst, nofun⟩
    | error cause =>
      obtain ⟨offset, stopped, hle, hscan, hstopped, hearlier⟩ := ih (by omega) hfront
      refine ⟨offset + 1, stopped, Nat.succ_le_succ hle, ?_, ?_, ?_⟩
      · have hne : noise ++ front ≠ [] := List.ne_nil_of_length_pos (by omega)
        rw [List.cons_append, scan_of_error hne (by omega) hfirst]
        exact hscan
      · rw [Nat.add_comm offset 1, ← Nat.add_assoc, Nat.add_comm 1 offset]
        exact hstopped
      · intro earlier hlt
        cases earlier with
        | zero => exact ⟨cause, hfirst⟩
        | succ earlier =>
          rw [Nat.add_comm earlier 1, ← Nat.add_assoc, Nat.add_comm 1 earlier]
          exact hearlier earlier (by omega)

theorem decode_eq_scan {direction : Direction} {buffer : Bytes} (h : 2 ≤ buffer.length) :
    decode direction buffer = scan direction 0 buffer := by
  have hne : buffer.isEmpty = false := by
    match buffer, h with
    | _ :: _, _ => rfl
  rw [decode, if_neg (Nat.not_lt.mpr h), find, hne, if_neg Bool.false_ne_true]

/-- What is found in a buffer that has a frame behind noise: that frame, or one that begins within
the noise. -/
structure FoundBehind (noise : Bytes) (frame : Frame) (buffer : Bytes) (found : Located) :
    Prop where
  start_le : found.start ≤ noise.length
  within : found.Within buffer
  own : found.start = noise.length → found = ⟨frame, noise.length, frame.wire.length⟩

/-- A frame behind noise is found, or another one before it, or the decoder waits for the rest of
one that begins within the noise. -/
theorem decode_noise {direction : Direction} {noise : Bytes} (hnoise : noise.length ≤ 255)
    {frame : Frame} (hframe : direction.Delimits frame.pdu) (more : Bytes) :
    let buffer := noise ++ (frame.wire ++ more)
    (∃ found, decode direction buffer = .ok (some found) ∧ FoundBehind noise frame buffer found ∧
      ∀ offset < noise.length, Begins direction (buffer.drop offset) → found.start < offset) ∨
    (decode direction buffer = .ok none ∧
      ∃ offset < noise.length, Begins direction (buffer.drop offset)) := by
  intro buffer
  have hlen : 2 ≤ (frame.wire ++ more).length := by
    rw [List.length_append, Frame.length_wire, Frame.overhead]
    omega
  have hbuffer : 2 ≤ buffer.length := by
    rw [List.length_append]
    omega
  have hfront := frameAt_append hframe.tells (0 + noise.length) more
  obtain ⟨offset, stopped, hle, hscan, hstopped, hearlier⟩ := scan_stops (by omega) hlen hfront
  have hdecode := (decode_eq_scan hbuffer).trans hscan
  rw [hdecode]
  cases stopped with
  | some found =>
    have hstart : found.start = offset := by
      rw [(within_of_frameAt hstopped).1, Nat.zero_add]
    refine .inl ⟨found, rfl, ⟨hstart ▸ hle, within_of_decode hdecode, fun hown => ?_⟩,
      fun later hlt hbegins => ?_⟩
    · rw [hstart] at hown
      rw [hown, List.drop_left, hfront] at hstopped
      cases hstopped
      rw [Nat.zero_add]
    · rw [hstart]
      refine Nat.lt_of_not_le fun hge => ?_
      rcases Nat.lt_or_eq_of_le hge with hbefore | rfl
      · obtain ⟨cause, herror⟩ := hearlier later hbefore
        cases (hbegins.frameAt (0 + later)).symm.trans herror
      · cases (hbegins.frameAt (0 + later)).symm.trans hstopped
  | none =>
    have hbegins := begins_of_frameAt hstopped
    refine .inr ⟨rfl, offset, ?_, hbegins⟩
    refine Nat.lt_of_le_of_ne hle fun hat => ?_
    rw [hat, List.drop_left] at hstopped
    cases hfront.symm.trans hstopped

/-- A frame behind noise is found, or a frame that begins within the noise is, unless a longer frame
begins within the noise with none found before; then the decoder waits. It waits no longer than the
longest frame takes, and then again it finds the frame behind the noise, or one that begins within
the noise. -/
theorem decode_behind_noise (direction : Direction) {noise : Bytes} (hnoise : noise.length ≤ 255)
    {frame : Frame} (hframe : direction.Delimits frame.pdu) :
    let buffer := noise ++ frame.wire
    ((∃ found, decode direction buffer = .ok (some found) ∧ FoundBehind noise frame buffer found ∧
        ∀ offset < noise.length, Begins direction (buffer.drop offset) → found.start < offset) ∨
      (decode direction buffer = .ok none ∧
        ∃ offset < noise.length, Begins direction (buffer.drop offset))) ∧
    ∀ more : Bytes, 263 ≤ (frame.wire ++ more).length →
      ∃ found, decode direction (buffer ++ more) = .ok (some found) ∧
        FoundBehind noise frame (buffer ++ more) found := by
  intro buffer
  constructor
  · have hdecode := decode_noise hnoise hframe []
    rw [List.append_nil] at hdecode
    exact hdecode
  · intro more hmore
    have hdecode := decode_noise hnoise hframe more
    rw [← List.append_assoc] at hdecode
    rcases hdecode with ⟨found, hfound, hbehind, -⟩ | ⟨-, offset, hlt, hbegins⟩
    · exact ⟨found, hfound, hbehind⟩
    · have hshort := hbegins.length_lt
      rw [List.append_assoc, List.length_drop, List.length_append] at hshort
      omega

theorem decode_behind_noise_of_zero :
    let frame : Frame := ⟨0x10, [3, 0, 0, 0, 2]⟩
    Begins .request ([0] ++ frame.wire) ∧
    ∃ found, decode .request ([0] ++ frame.wire ++ List.replicate 255 0) = .ok (some found) ∧
      FoundBehind [0] frame ([0] ++ frame.wire ++ List.replicate 255 0) found := by
  intro frame
  have hframe : Direction.request.Delimits frame.pdu := Delimited.plain (by decide) rfl
  have hnone : decode .request ([0] ++ frame.wire) = .ok none := by cbv
  have hnoise : ([0] : Bytes).length ≤ 255 := by decide
  obtain ⟨hdecode, hmore⟩ := decode_behind_noise .request hnoise hframe
  refine ⟨?_, hmore _ ?_⟩
  · rcases hdecode with ⟨found, hfound, -⟩ | ⟨-, offset, hlt, hbegins⟩
    · cases hnone.symm.trans hfound
    · rw [Nat.lt_one_iff.mp hlt] at hbegins
      exact hbegins
  · rw [List.length_append, Frame.length_wire, List.length_replicate]
    decide

/-- A single byte of noise makes the decoder wait behind a request for one unit, because the same
bytes begin a longer request for all units. When the rest of that comes, it covers the other. -/
theorem decode_waits_behind_zero :
    let frame : Frame := ⟨0x10, [3, 0, 0, 0, 2]⟩
    let longer : Frame := ⟨0, [0x10, 3, 0, 0, 0, 2, 0xC7, 0x4A]⟩
    (Direction.request.Delimits frame.pdu ∧
      ¬ ∃ found, decode .request ([0] ++ frame.wire) = .ok (some found) ∧ found.start ≤ 1) ∧
    Direction.request.Delimits longer.pdu ∧ longer.wire.take 9 = [0] ++ frame.wire ∧
    decode .request longer.wire = .ok (some ⟨longer, 0, longer.wire.length⟩) := by
  intro frame longer
  have hnone : decode .request ([0] ++ frame.wire) = .ok none := by cbv
  refine ⟨⟨Delimited.plain (by decide) rfl, ?_⟩, Delimited.counted (.inr rfl) rfl, ?_, by cbv⟩
  · rintro ⟨found, hfound, -⟩
    cases hnone.symm.trans hfound
  · decide +kernel

end Modbus.Serial
