import Modbus.Proofs.FrameSearch
import Modbus.Proofs.SerialReception

/-! A port takes the first frame that the bytes received so far show. A response
of a user defined function does not tell its length, so nothing but its checksum
ends it, and what counts is whether some of its reads show a frame before the
last one has come. If none does it is received as it was sent, in whatever reads
it comes; else the frame that is shown first is taken in its place. -/

namespace Modbus

theorem Stream.await_pieces {α : Type} {decode : Bytes → Except ProtocolError (Option α)}
    {deadline : Nat} {received : Bytes} {reads : List Arrival} {pieces : List Bytes}
    (now : Nat) (rest : List Arrival) (hreads : reads.map Arrival.read = pieces.map .data)
    (hdue : ∀ arrival ∈ reads, arrival.due ≤ deadline) {n : Nat} (hn : n < pieces.length)
    (hbefore : ∀ m < n, decode (received ++ (pieces.take (m + 1)).flatten) = .ok none)
    {verdict : Except ProtocolError α}
    (hverdict : decode (received ++ (pieces.take (n + 1)).flatten) = verdict.map some) :
    (await decode deadline now received (reads ++ rest)).outcome = verdict.mapError .protocol := by
  induction pieces generalizing n now received reads with
  | nil => simp at hn
  | cons piece pieces ih =>
    cases reads with
    | nil => cases hreads
    | cons arrival reads =>
      obtain ⟨due, read⟩ := arrival
      obtain ⟨rfl, hrest⟩ := List.cons.inj hreads
      obtain ⟨hfirst, hdue⟩ := List.forall_mem_cons.mp hdue
      cases n with
      | zero =>
        have hpiece : decode (received ++ piece) = verdict.map some := by simpa using hverdict
        rw [List.cons_append, Brings.await_decided hfirst hpiece]
      | succ n =>
        have hpiece : decode (received ++ piece) = .ok none := by
          simpa using hbefore 0 (Nat.succ_pos n)
        rw [List.cons_append, await, if_neg (Nat.not_lt.mpr hfirst)]
        simp only [hpiece]
        refine ih _ hrest hdue (Nat.lt_of_succ_lt_succ hn) (fun m hm => ?_) ?_
        · simpa using hbefore (m + 1) (Nat.succ_lt_succ hm)
        · simpa using hverdict

/-- Where every piece brings something, fewer pieces are fewer bytes. -/
theorem length_flatten_take_lt {pieces : List Bytes} (h : [] ∉ pieces) {n : Nat}
    (hn : n < pieces.length) : (pieces.take n).flatten.length < pieces.flatten.length := by
  have hne : pieces[n] ≠ [] := fun hnil => h (hnil ▸ List.getElem_mem hn)
  have hpos := List.length_pos_iff.mpr hne
  have hsplit : pieces.flatten.length =
      (pieces.take n).flatten.length + (pieces.drop n).flatten.length := by
    rw [← List.length_append, ← List.flatten_append, List.take_append_drop]
  rw [List.drop_eq_getElem_cons hn, List.flatten_cons, List.length_append] at hsplit
  omega

namespace Serial

/-- What a port that waits for a unit makes of a frame. -/
def Frame.pduFrom (unit : UInt8) (frame : Frame) : Except ProtocolError Bytes :=
  if frame.unit = unit then .ok frame.pdu else .error (.unitMismatch unit frame.unit)

theorem response_of_firstFrame {bytes : Bytes} {offset : Nat} {frame : Frame}
    (h : FirstFrame .response bytes offset frame) (hoffset : offset < maxFrameLength)
    (unit : UInt8) : response unit bytes = (frame.pduFrom unit).map some := by
  have hfound : decode .response bytes = .ok (some ⟨frame, offset, frame.wire.length⟩) :=
    decode_eq_some_iff.mpr ⟨h, hoffset, rfl⟩
  rw [response, hfound, Frame.pduFrom]
  by_cases hunit : frame.unit = unit
  · rw [if_pos hunit]
    exact if_neg (not_not_intro hunit)
  · rw [if_neg hunit]
    exact if_pos hunit

theorem response_of_no_frame {bytes : Bytes} (hlen : bytes.length ≤ maxFrameLength)
    (h : ∀ offset frame, ¬ FirstFrame .response bytes offset frame) (unit : UInt8) :
    response unit bytes = .ok none := by
  rw [response, (decode_eq_none_iff hlen).mpr h]
  rfl

namespace Port

section Reading

variable {port : Port} {line : Stream} {reads rest : List Arrival} {pieces : List Bytes}

/-- The outcome of waiting for a response is what the frame that is shown first makes of it. -/
theorem receive_first (hline : port.line = some line) (hincoming : line.incoming = reads ++ rest)
    (hreads : reads.map Arrival.read = pieces.map .data)
    (hdue : ∀ arrival ∈ reads, arrival.due ≤ line.now + port.timing.response)
    (hlen : pieces.flatten.length ≤ maxFrameLength) {n offset : Nat} {frame : Frame}
    (hn : n ≤ pieces.length)
    (hbefore : ∀ m < n, ∀ offset frame,
      ¬ FirstFrame .response (pieces.take m).flatten offset frame)
    (hfirst : FirstFrame .response (pieces.take n).flatten offset frame) (unit : UInt8) :
    (port.receive unit).1 = (frame.pduFrom unit).mapError .protocol := by
  have hshort : ∀ m, (pieces.take m).flatten.length ≤ maxFrameLength := by
    intro m
    rw [← List.take_append_drop m pieces, List.flatten_append, List.length_append] at hlen
    omega
  have hinside := hfirst.offset_lt
  rw [Frame.length_wire, Frame.overhead] at hinside
  have hoffset : offset < maxFrameLength := by
    have := hshort n
    omega
  cases n with
  | zero => simp at hinside
  | succ n =>
    have hwaits : ∀ m < n, response unit ([] ++ (pieces.take (m + 1)).flatten) = .ok none :=
      fun m hm => response_of_no_frame (hshort _) (hbefore _ (Nat.succ_lt_succ hm)) unit
    have hawait := Stream.await_pieces line.now rest hreads hdue hn hwaits
      (response_of_firstFrame hfirst hoffset unit)
    rw [← hincoming] at hawait
    cases hpdu : frame.pduFrom unit with
    | ok pdu =>
      rw [hpdu] at hawait
      simp only [receive, hline, hawait]
      rfl
    | error cause =>
      rw [hpdu] at hawait
      simp only [receive, hline, hawait]
      rfl

/-- The response of a user defined function is received as it was sent, if and only if no frame
shows in what has come with any of its reads but the last. Otherwise the first frame to show is
taken in its place. -/
theorem receive_user_iff {unit code : UInt8} {data : Bytes} (hline : port.line = some line)
    (hincoming : line.incoming = reads ++ rest) (hlow : code < 0x80)
    (hcode : code ∉ Device.valueCodes) (hrecord : code ≠ 0x15) (hdata : data.length ≤ 252)
    (hreads : reads.map Arrival.read = pieces.map .data)
    (hdue : ∀ arrival ∈ reads, arrival.due ≤ line.now + port.timing.response)
    (hpieces : [] ∉ pieces) (hwhole : pieces.flatten = Frame.wire ⟨unit, code :: data⟩) :
    ((port.receive unit).1 = .ok (code :: data) ↔
      ∀ n < pieces.length, ∀ offset frame,
        ¬ FirstFrame .response (pieces.take n).flatten offset frame) ∧
    ∀ n < pieces.length, ∀ offset frame,
      FirstFrame .response (pieces.take n).flatten offset frame →
      (∀ m < n, ∀ offset other, ¬ FirstFrame .response (pieces.take m).flatten offset other) →
      (port.receive unit).1 = (frame.pduFrom unit).mapError .protocol := by
  have hlength : pieces.flatten.length = data.length + 4 := by
    rw [hwhole, Frame.length_wire]
    rfl
  have hlen : pieces.flatten.length ≤ maxFrameLength := by
    rw [hlength, maxFrameLength]
    omega
  have hfirst : ∀ n < pieces.length, ∀ offset frame,
      FirstFrame .response (pieces.take n).flatten offset frame →
      (∀ m < n, ∀ offset other, ¬ FirstFrame .response (pieces.take m).flatten offset other) →
      (port.receive unit).1 = (frame.pduFrom unit).mapError .protocol :=
    fun n hn offset frame hframe hbefore =>
      receive_first hline hincoming hreads hdue hlen (Nat.le_of_lt hn) hbefore hframe unit
  refine ⟨⟨fun hok => ?_, fun hnone => ?_⟩, hfirst⟩
  · intro n
    -- where no frame has shown before, the one that shows now decides, and it is too short
    induction n using Nat.strongRecOn with
    | ind n ih =>
      intro hn offset frame hframe
      have houtcome := hfirst n hn offset frame hframe fun m hm => ih m hm (Nat.lt_trans hm hn)
      rw [hok] at houtcome
      have hpdu : frame.pdu = code :: data := by
        unfold Frame.pduFrom at houtcome
        split at houtcome
        · exact (Except.ok.inj houtcome).symm
        · cases houtcome
      have hinside := hframe.offset_lt
      rw [Frame.length_wire, hpdu, Frame.overhead, List.length_cons] at hinside
      have hpart := length_flatten_take_lt hpieces hn
      omega
  · have hall : (pieces.take pieces.length).flatten = Frame.wire ⟨unit, code :: data⟩ := by
      rw [List.take_length, hwhole]
    have hfront : FirstFrame .response (pieces.take pieces.length).flatten 0
        ⟨unit, code :: data⟩ := by
      rw [hall]
      exact .here (.closed (Device.rule_response_unknown hlow hcode hrecord))
    rw [receive_first hline hincoming hreads hdue hlen (Nat.le_refl _) hnone hfront unit,
      Frame.pduFrom, if_pos rfl]
    rfl

end Reading

/-- A response whose data are a response themselves, an exception of the same unit. -/
def nested : Frame := ⟨0x11, [0x41, 0x11, 0x83, 0x02, 0xC1, 0x34]⟩

theorem wire_nested : nested.wire = [0x11, 0x41, 0x11, 0x83, 0x02, 0xC1, 0x34, 0x31, 0x10] := by
  decide +kernel

def nestedPieces (first : Nat) : List Bytes := [nested.wire.take first, nested.wire.drop first]

def nestedReads (first : Nat) : List Arrival :=
  [⟨1, .data (nested.wire.take first)⟩, ⟨2, .data (nested.wire.drop first)⟩]

/-- The inner response shows only if the first read ends with it. -/
theorem receive_user_iff_nested :
    let outcome (first : Nat) :=
      (receive 0x11 { line := some { incoming := nestedReads first } }).1
    ((∀ n < 2, ∀ offset frame,
        ¬ FirstFrame .response ((nestedPieces 4).take n).flatten offset frame) ∧
      outcome 4 = .ok nested.pdu) ∧
    FirstFrame .response ((nestedPieces 7).take 1).flatten 2 ⟨0x11, [0x83, 0x02]⟩ ∧
      outcome 7 = .ok [0x83, 0x02] := by
  intro outcome
  have hnothing : decode .response [] = .ok none := rfl
  have hpart : decode .response (nested.wire.take 4) = .ok none := by
    rw [wire_nested]
    cbv
  have hinner : decode .response (nested.wire.take 7) =
      .ok (some ⟨⟨0x11, [0x83, 0x02]⟩, 2, 5⟩) := by
    rw [wire_nested]
    cbv
  have hnothing : ∀ n < 1, ∀ offset frame,
      ¬ FirstFrame .response ((nestedPieces 7).take n).flatten offset frame := by
    intro n hn
    rw [Nat.lt_one_iff.mp hn]
    exact (decode_eq_none_iff (by decide)).mp rfl
  have hundecided : ∀ n < 2, ∀ offset frame,
      ¬ FirstFrame .response ((nestedPieces 4).take n).flatten offset frame := by
    intro n hn
    obtain rfl | rfl : n = 0 ∨ n = 1 := by omega
    · exact (decode_eq_none_iff (by decide)).mp rfl
    · rw [show ((nestedPieces 4).take 1).flatten = nested.wire.take 4 from List.append_nil _]
      exact (decode_eq_none_iff (by decide)).mp hpart
  have hshown : FirstFrame .response ((nestedPieces 7).take 1).flatten 2 ⟨0x11, [0x83, 0x02]⟩ := by
    rw [show ((nestedPieces 7).take 1).flatten = nested.wire.take 7 from List.append_nil _]
    exact (decode_eq_some_iff.mp hinner).1
  -- both ports meet the hypotheses in the same way
  have hline : ∀ first, (Port.mk {} (some { incoming := nestedReads first })).line =
      some { incoming := nestedReads first } := fun _ => rfl
  have hincoming : ∀ first, nestedReads first = nestedReads first ++ [] :=
    fun _ => (List.append_nil _).symm
  have hreads : ∀ first, (nestedReads first).map Arrival.read = (nestedPieces first).map .data :=
    fun _ => rfl
  have hdue : ∀ first, ∀ arrival ∈ nestedReads first, arrival.due ≤ 1000 := by simp [nestedReads]
  have hwhole : ∀ first, (nestedPieces first).flatten = nested.wire := by simp [nestedPieces]
  obtain ⟨hiff, -⟩ := receive_user_iff (hline 4) (hincoming 4) (by decide) (by decide) (by decide)
    (by decide) (hreads 4) (hdue 4) (by rw [nestedPieces, wire_nested]; decide) (hwhole 4)
  obtain ⟨-, hfirst⟩ := receive_user_iff (hline 7) (hincoming 7) (by decide) (by decide) (by decide)
    (by decide) (hreads 7) (hdue 7) (by rw [nestedPieces, wire_nested]; decide) (hwhole 7)
  exact ⟨⟨hundecided, hiff.mpr hundecided⟩, hshown,
    hfirst 1 (by decide) 2 ⟨0x11, [0x83, 0x02]⟩ hshown hnothing⟩

/-- The same response in other reads is not received as it was sent. -/
theorem receive_inner_of_nested :
    nested = ⟨0x11, 0x41 :: [0x11, 0x83, 0x02, 0xC1, 0x34]⟩ ∧
    (nestedPieces 7).flatten = nested.wire ∧ [] ∉ nestedPieces 7 ∧
    (nestedReads 7).map Arrival.read = (nestedPieces 7).map .data ∧
    (∀ arrival ∈ nestedReads 7, arrival.due ≤ 1000) ∧
    (receive 0x11 { line := some { incoming := nestedReads 7 } }).1 ≠ .ok nested.pdu := by
  have hoption : (receive 0x11 { line := some { incoming := nestedReads 7 } }).1.toOption =
      some [0x83, 0x02] := by decide +kernel
  refine ⟨rfl, by simp [nestedPieces], by rw [nestedPieces, wire_nested]; decide, rfl,
    by simp [nestedReads], fun hsame => ?_⟩
  rw [hsame] at hoption
  cases hoption

end Port

end Serial

end Modbus
