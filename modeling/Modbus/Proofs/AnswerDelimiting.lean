import Modbus.Proofs.AnswerForm
import Modbus.Proofs.Resynchronisation

/-! Which answers of a device a serial line delimits. A frame that comes alone
is found if and only if its PDU tells its length, or has a function code of
which no length is known, so that the checksum alone closes it. All answers are
of these two kinds but for those to writing a record of a file, which hold what
the service gave back and are found if that begins with its own length. -/

namespace Modbus

namespace Serial

theorem pduLength_of_frameAt {direction : Direction} {start : Nat} {bytes : Bytes}
    {found : Located} (h : frameAt direction start bytes = .ok (some found)) :
    (∃ length, direction.pduLength bytes = .ok (some length) ∧
      found.size = length + Frame.overhead) ∨
    ∃ cause, direction.pduLength bytes = .error cause := by
  unfold frameAt at h
  split at h
  · cases h
  · next length hlength =>
    cases hfront : Frame.ofFront bytes length with
    | error cause => rw [hfront] at h; cases h
    | ok frame? =>
      rw [hfront] at h
      cases frame? with
      | none => cases h
      | some frame => cases h; exact .inl ⟨length, hlength, rfl⟩
  · next cause herror => exact .inr ⟨cause, herror⟩

theorem frameAt_of_scan {direction : Direction} {start : Nat} {bytes : Bytes} {found : Located}
    (h : scan direction start bytes = .ok (some found)) (hstart : found.start = start) :
    frameAt direction start bytes = .ok (some found) := by
  match bytes with
  | [] | [_] => cases h
  | byte :: next :: rest =>
    rw [scan] at h
    split at h
    · next hfront => rw [hfront, h]
    · split at h
      · cases h
      · obtain ⟨offset, hbehind, -⟩ := within_of_scan h
        omega

theorem Direction.rule_of_error {direction : Direction} {code : UInt8} {fields : Bytes}
    {cause : ProtocolError} (h : (direction.rule code).apply fields = .error cause) :
    direction.rule code = .unknown code := by
  cases direction with
  | request =>
    simp only [rule] at h ⊢
    repeat' split
    all_goals simp_all [LengthRule.apply]
  | response =>
    simp only [rule] at h ⊢
    repeat' split
    all_goals simp_all [LengthRule.apply]

/-- A frame that comes alone is found if its PDU tells its length, or if no length is known of its
function, and not otherwise. -/
theorem decode_wire_iff {direction : Direction} {unit code : UInt8} {data : Bytes} :
    decode direction (Frame.wire ⟨unit, code :: data⟩) =
        .ok (some ⟨⟨unit, code :: data⟩, 0, (code :: data).length + Frame.overhead⟩) ↔
      direction.Delimits (code :: data) ∨ direction.rule code = .unknown code := by
  let frame : Frame := ⟨unit, code :: data⟩
  have hwire : frame.wire = unit :: code :: (data ++ checksumBytes (unit :: code :: data)) := rfl
  have hlen : frame.wire.length = (code :: data).length + Frame.overhead := frame.length_wire
  have htwo : 2 ≤ frame.wire.length := by
    rw [hlen, Frame.overhead]
    omega
  change decode direction frame.wire = .ok (some ⟨frame, 0, _⟩) ↔ _
  constructor
  · intro h
    rw [decode_eq_scan htwo] at h
    rcases pduLength_of_frameAt (frameAt_of_scan h rfl) with
      ⟨length, hlength, hsize⟩ | ⟨cause, herror⟩
    · have hsize : data.length + 1 = length := Nat.add_right_cancel hsize
      rw [hwire, Direction.pduLength_cons, ← hsize] at hlength
      exact .inl (Direction.delimits_of_rule hlength)
    · rw [hwire, Direction.pduLength_cons] at herror
      exact .inr (Direction.rule_of_error herror)
  · rintro (hdelimits | hunknown)
    · have htells : direction.Tells frame.pdu := hdelimits.tells
      have hfound := decode_append htells []
      rw [List.append_nil, hlen] at hfound
      exact hfound
    · apply decode_of_frameAt htwo
      have herror : direction.pduLength frame.wire = .error (.functionCode code) := by
        rw [hwire, Direction.pduLength_cons, hunknown]
        rfl
      have hpdu : frame.pdu ≠ [] := List.cons_ne_nil code data
      simp only [frameAt, herror, Frame.ofWire_wire hpdu, hlen]

end Serial

namespace Device

open Serial

variable {σ : Type}

/-- The first byte is the number of the bytes behind it. -/
def LeadsWithLength (data : Bytes) : Prop :=
  ∃ (count : UInt8) (values : Bytes), data = count :: values ∧ values.length = count.toNat

theorem delimitedResponse_record_iff {data : Bytes} :
    DelimitedResponse (0x15 :: data) ↔ LeadsWithLength data := by
  constructor
  · intro h
    cases h with
    | counted _ hlen => exact ⟨_, _, rfl, hlen⟩
    | plain hcode => exact absurd hcode (by decide)
    | exception hcode => exact absurd hcode (by decide)
  · rintro ⟨count, values, rfl, hlen⟩
    exact .counted (.inr rfl) hlen

theorem rule_response_unknown {code : UInt8} (hlow : code < 0x80) (hcode : code ∉ valueCodes)
    (hrecord : code ≠ 0x15) : Direction.response.rule code = .unknown code := by
  simp only [valueCodes, List.mem_cons, List.not_mem_nil, or_false, not_or, ← UInt8.toNat_inj,
    ne_eq, UInt8.lt_iff_toNat_lt, UInt8.reduceToNat] at hlow hcode hrecord
  rw [Direction.rule, if_neg, if_neg, if_neg]
  all_goals
    simp only [← UInt8.toNat_inj, UInt8.le_iff_toNat_le, UInt8.reduceToNat]
    omega

/-- An exception has two bytes, and one for function zero is closed by its checksum alone. -/
theorem exception_delimits (code cause : UInt8) :
    Direction.response.Delimits [code ||| 0x80, cause] ∨
      Direction.response.rule (code ||| 0x80) = .unknown (code ||| 0x80) := by
  have hhigh : 0x80 ≤ code ||| 0x80 := UInt8.right_le_or
  generalize code ||| 0x80 = marked at hhigh
  by_cases hzero : marked = 0x80
  · rw [hzero]
    exact .inr rfl
  · refine .inl (DelimitedResponse.exception ?_)
    simp only [← UInt8.toNat_inj, UInt8.le_iff_toNat_le, UInt8.reduceToNat] at hhigh hzero ⊢
    omega

/-- A response that fulfils its request is delimited, unless the service gave back data for a
record of a file that does not begin with its length. -/
theorem Fulfils.delimits_iff {service : Service σ} {unit : UInt8} {s : σ} {code : UInt8}
    {data response : Bytes} (h : Fulfils service unit s (code :: data) response)
    (hlow : code < 0x80) :
    ∃ back, response = code :: back ∧
      ((Direction.response.Delimits (code :: back) ∨
          Direction.response.rule code = .unknown code) ↔
        (code = 0x15 → LeadsWithLength back)) := by
  cases h with
  | bits hcall hlen hcount hpacked =>
    have hread : code = 1 ∨ code = 2 := hcall.imp And.left And.left
    refine ⟨_, rfl, iff_of_true (.inl (.counted (.inl ?_) ?_)) ?_⟩
    · rcases hread with rfl | rfl <;> decide
    · rw [hpacked.1, hlen, hcount]
    · rcases hread with rfl | rfl <;> exact fun hcode => absurd hcode (by decide)
  | words hcall hlen hcount =>
    have hread : code = 3 ∨ code = 4 := hcall.imp And.left And.left
    refine ⟨_, rfl, iff_of_true (.inl (.counted (.inl ?_) ?_)) ?_⟩
    · rcases hread with rfl | rfl <;> decide
    · rw [hcount, ← hlen]
      exact Words.length_bytes _
    · rcases hread with rfl | rfl <;> exact fun hcode => absurd hcode (by decide)
  | echo hwrite hlen =>
    refine ⟨data.take 4, rfl, iff_of_true (.inl (.plain hwrite ?_)) ?_⟩
    · exact List.length_take_of_le hlen
    · rintro rfl
      exact absurd hwrite (by decide)
  | function hcode hcall hlen =>
    refine ⟨_, rfl, ?_⟩
    by_cases hrecord : code = 0x15
    · subst hrecord
      have hrule : Direction.response.rule 0x15 ≠ .unknown 0x15 := nofun
      simp only [hrule, or_false, true_implies]
      exact delimitedResponse_record_iff
    · exact iff_of_true (.inr (rule_response_unknown hlow hcode hrecord)) fun h =>
        absurd h hrecord

/-- Only a record of a file is answered with its function code, and then with what the service
gave back for it. -/
theorem Fulfils.record {service : Service σ} {unit : UInt8} {s : σ} {request back : Bytes}
    (h : Fulfils service unit s request (0x15 :: back)) :
    ∃ sent, request = 0x15 :: sent ∧
      ((service.handle (.function unit 0x15 sent)).run s).1 = .value (some back) := by
  generalize hresponse : (0x15 :: back : Bytes) = response at h
  cases h with
  | bits hcall =>
    cases hresponse
    rcases hcall with ⟨hcode, -⟩ | ⟨hcode, -⟩ <;> cases hcode
  | words hcall =>
    cases hresponse
    rcases hcall with ⟨hcode, -⟩ | ⟨hcode, -⟩ <;> cases hcode
  | echo hcode =>
    obtain ⟨rfl, -⟩ := List.cons.inj hresponse
    exact absurd hcode (by decide)
  | function hcode hcall =>
    obtain ⟨rfl, rfl⟩ := List.cons.inj hresponse
    exact ⟨_, rfl, hcall⟩

/-- On a serial line the frame of an answer is found, whole and alone, unless the answer is to
writing a record of a file and the service gave back data that do not begin with their length. -/
theorem decode_answer_iff (service : Service σ) (unit : UInt8) (pdu : Bytes) (s : σ)
    {response : Bytes} (h : ((answer service unit pdu).run s).1 = some response) :
    (decode .response (Frame.wire ⟨unit, response⟩) =
        .ok (some ⟨⟨unit, response⟩, 0, response.length + 3⟩) ↔
      ∀ back, response = 0x15 :: back → LeadsWithLength back) ∧
    ∀ back, response = 0x15 :: back → ∃ sent, pdu = 0x15 :: sent ∧
      ((service.handle (.function unit 0x15 sent)).run s).1 = .value (some back) := by
  cases pdu with
  | nil => cases h
  | cons code data =>
    have hlow : code < 0x80 := by
      refine UInt8.not_le.mp fun hhigh => ?_
      have hnone := (answer_eq_none_iff service unit _ s).mpr (.inr ⟨code, data, rfl, hhigh⟩)
      cases hnone.symm.trans h
    rcases (answer_cons_wellFormed service unit data hlow h).1 with
      ⟨exception, rfl⟩ | ⟨-, hfulfils⟩
    · have hmarked : code ||| 0x80 ≠ 0x15 := by
        intro heq
        have hhigh : 0x80 ≤ code ||| 0x80 := UInt8.right_le_or
        rw [heq] at hhigh
        exact absurd hhigh (by decide)
      constructor
      · refine iff_of_true (decode_wire_iff.mpr (exception_delimits code _)) fun back hback => ?_
        exact absurd (List.cons.inj hback).1 hmarked
      · exact fun back hback => absurd (List.cons.inj hback).1 hmarked
    · obtain ⟨back, rfl, hiff⟩ := hfulfils.delimits_iff hlow
      constructor
      · refine decode_wire_iff.trans (hiff.trans ⟨?_, fun hall hcode => ?_⟩)
        · intro hall other hother
          obtain ⟨rfl, rfl⟩ := List.cons.inj hother
          exact hall rfl
        · exact hall back (by rw [hcode])
      · intro other hother
        rw [hother] at hfulfils
        exact hfulfils.record

/-- A service that answers each record of a file with all the data of its request. -/
def echoing : Handlers Unit :=
  Handlers.register {} 0x15 fun _ data => pure (.value data)

theorem decode_answer_iff_record :
    let request : Bytes := [0x15, 9, 6, 0, 4, 0, 0, 0, 1, 10, 11]
    ((answer echoing.service 1 request).run ()).1 = some request ∧
      decode .response (Frame.wire ⟨1, request⟩) = .ok (some ⟨⟨1, request⟩, 0, 14⟩) := by
  intro request
  have hanswer : ((answer echoing.service 1 request).run ()).1 = some request := rfl
  obtain ⟨hdecode, -⟩ := decode_answer_iff echoing.service 1 request () hanswer
  refine ⟨hanswer, hdecode.mpr fun back hback => ?_⟩
  obtain ⟨-, rfl⟩ := List.cons.inj hback
  exact ⟨9, _, rfl, rfl⟩

/-- A service that confirms each record of a file without any data. -/
def silent : Handlers Unit :=
  Handlers.register {} 0x15 fun _ _ => pure (.value [])

/-- The answer without any data is not found: its checksum is taken for a length. -/
theorem decode_answer_empty_record :
    let request : Bytes := [0x15, 9, 6, 0, 4, 0, 0, 0, 1, 10, 11]
    ((answer silent.service 1 request).run ()).1 = some [0x15] ∧
      decode .response (Frame.wire ⟨1, [0x15]⟩) = .ok none ∧
      decode .response (Frame.wire ⟨1, [0x15]⟩) ≠ .ok (some ⟨⟨1, [0x15]⟩, 0, 4⟩) := by
  intro request
  have hnone : decode .response (Frame.wire ⟨1, [0x15]⟩) = .ok none := by cbv
  refine ⟨rfl, hnone, fun hfound => ?_⟩
  cases hnone.symm.trans hfound

end Device

end Modbus
