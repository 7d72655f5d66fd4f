import Modbus.Proofs.Passes
import Modbus.Proofs.SearchOutcome

/-! How much a station holds back. A search waits only on a frame that has begun
at one of the places that it tries, and no length that a frame can tell reaches
far behind them. So a buffer that is long enough is never waited on, the loop
that takes the requests off a buffer ends after a few passes, and what is kept
for the next read is bounded, whatever comes on the line. -/

namespace Modbus.Serial

variable {σ : Type} {direction : Direction}

/-! ## Waiting -/

/-- No buffer is waited on that is longer than the noise before a frame and the frame can be. -/
theorem length_le_of_find_none {buffer : Bytes} (h : find direction buffer = .ok none) :
    buffer.length ≤ direction.longestPdu + 257 := by
  by_cases hne : buffer = []
  · simp [hne]
  · rw [find_eq_scan hne] at h
    obtain ⟨offset, hbound, hbegins, -⟩ := scan_eq_none (by decide) h
    have hlen := hbegins.length_le
    rw [maxFrameLength] at hbound
    rw [List.length_drop] at hlen
    omega

theorem length_le_of_decode_none {buffer : Bytes} (h : decode direction buffer = .ok none) :
    buffer.length ≤ direction.longestPdu + 257 := by
  by_cases hne : buffer = []
  · simp [hne]
  · rw [← find_eq_decode hne] at h
    exact length_le_of_find_none h

/-! ## The loop -/

/-- One pass of the loop over a buffer: what it leaves of it behind a request that it takes off. It
is the last one if there is none. -/
def pass (buffer : Bytes) : Option Bytes :=
  match decode .request buffer with
  | .ok (some found) => some (buffer.drop found.stop)
  | .ok none | .error _ => none

theorem pass_eq_some {buffer rest : Bytes} (h : pass buffer = some rest) :
    ∃ found, decode .request buffer = .ok (some found) ∧ rest = buffer.drop found.stop := by
  unfold pass at h
  split at h
  · next found hfound => exact ⟨found, hfound, (Option.some.inj h).symm⟩
  · cases h
  · cases h

/-- A request is taken off with a unit, a function code and a checksum at least. -/
theorem length_pass {buffer rest : Bytes} (h : pass buffer = some rest) :
    rest.length + 4 ≤ buffer.length := by
  obtain ⟨found, hfound, rfl⟩ := pass_eq_some h
  obtain ⟨hpdu, hsize, before, behind, rfl, hstart⟩ := within_of_decode hfound
  have hpos := List.length_pos_iff.mpr hpdu
  rw [List.length_drop, Located.stop, hstart, hsize, List.length_append, List.length_append,
    Frame.length_wire, Frame.overhead]
  omega

/-- What is left behind the last pass is kept, or thrown away if the decoder has given up. -/
theorem takeRequests_of_pass_none {buffer : Bytes} (h : pass buffer = none) :
    (takeRequests buffer).1 = [] ∧
      ((takeRequests buffer).2 = buffer ∨ (takeRequests buffer).2 = []) := by
  cases hdecode : decode .request buffer with
  | error cause =>
    rw [takeRequests_error hdecode]
    exact ⟨rfl, .inr rfl⟩
  | ok found =>
    cases found with
    | none =>
      rw [takeRequests_none hdecode]
      exact ⟨rfl, .inl rfl⟩
    | some found => simp [pass, hdecode] at h

/-- Every pass but the last takes one request. -/
theorem takeRequests_passes {count : Nat} {first last : Bytes}
    (h : Passes pass count first last) :
    (takeRequests first).1.length = count + (takeRequests last).1.length ∧
      (takeRequests first).2 = (takeRequests last).2 := by
  induction h with
  | refl => simp
  | next hpass _ ih =>
    obtain ⟨found, hfound, rfl⟩ := pass_eq_some hpass
    rw [takeRequests_some hfound]
    refine ⟨?_, ih.2⟩
    rw [List.length_cons, ih.1]
    omega

/-- What is kept is waited on. -/
theorem decode_takeRequests (buffer : Bytes) :
    decode .request (takeRequests buffer).2 = .ok none := by
  fun_induction takeRequests buffer with
  | case1 => rfl
  | case2 buffer hnone => exact hnone
  | case3 buffer found hfound frames left htaken ih =>
    rw [htaken] at ih
    exact ih

/-- A read that completes nothing is kept whole. -/
theorem takeAll_cons_none {received bytes : Bytes}
    (h : decode .request (received ++ bytes) = .ok none) (rest : List Bytes) :
    takeAll received (bytes :: rest) = takeAll (received ++ bytes) rest := by
  rw [takeAll, takeRequests_none h]
  simp

theorem decode_takeAll (reads : List Bytes) {received : Bytes}
    (h : decode .request received = .ok none) :
    decode .request (takeAll received reads).2 = .ok none := by
  induction reads generalizing received with
  | nil => exact h
  | cons bytes reads ih => exact ih (decode_takeRequests _)

namespace Station

variable {station : Station σ} {acceptance : Acceptance}

/-- A station that goes on listening after a read holds what its loop has left. -/
theorem next_listening {received bytes left : Bytes} {s : σ}
    (h : ((station.next acceptance received (.data bytes)).run s).1.2 = .listening left) :
    left = (takeRequests (received ++ bytes)).2 := by
  obtain ⟨⟨sent, written⟩, s', hreplies⟩ :
      ∃ sent s', (station.replyAll acceptance (takeRequests (received ++ bytes)).1).run s =
        (sent, s') := ⟨_, _, rfl⟩
  rw [next, StateT.run_bind, hreplies] at h
  cases written with
  | done => exact (Phase.listening.inj h).symm
  | failed fault => cases h
  | stalled => cases h

theorem run_listening (reads : List Bytes) {received left : Bytes} {s : σ}
    (h : ((station.run acceptance (.listening received) (reads.map .data)).run s).1.2 =
      .listening left) : left = (takeAll received reads).2 := by
  -- an answer that cannot be written ends the station, so it never changes what is held
  induction reads generalizing received s with
  | nil => exact (Phase.listening.inj h).symm
  | cons bytes reads ih =>
    obtain ⟨⟨sent, phase⟩, s', hnext⟩ :
        ∃ sent s', (station.next acceptance received (.data bytes)).run s = (sent, s') :=
      ⟨_, _, rfl⟩
    rw [List.map_cons, run, StateT.run_bind, hnext] at h
    cases phase with
    | listening kept =>
      have hkept : kept = (takeRequests (received ++ bytes)).2 :=
        next_listening (congrArg (·.1.2) hnext)
      rw [takeAll, ← hkept]
      exact ih h
    | ended outcome => cases reads <;> cases h
    | heldUp => cases reads <;> cases h

/-- No candidate for a frame is waited on for long. A buffer of 519 bytes holds enough of requests
for a verdict, and one of 515 bytes enough of responses. The loop over a buffer ends: all its passes
but the last hand over a request and take at least four bytes with it. So whatever comes on a line,
and in whatever reads, a station that waits for more holds at most 518 bytes, the last that have
come, and all bytes before them have been taken or thrown away. -/
theorem run_holds_little (station : Station σ) (acceptance : Acceptance) :
    (∀ buffer : Bytes, 519 ≤ buffer.length → find .request buffer ≠ .ok none) ∧
    (∀ buffer : Bytes, 515 ≤ buffer.length → find .response buffer ≠ .ok none) ∧
    (∀ buffer rest : Bytes, pass buffer = some rest → rest.length + 4 ≤ buffer.length) ∧
    (∀ buffer : Bytes, ∃ count last, Passes pass count buffer last ∧ pass last = none ∧
      4 * count + last.length ≤ buffer.length ∧ (takeRequests buffer).1.length = count ∧
      ((takeRequests buffer).2 = last ∨ (takeRequests buffer).2 = [])) ∧
    ∀ (reads : List Bytes) (s : σ) (held : Bytes),
      ((station.run acceptance (.listening []) (reads.map .data)).run s).1.2 = .listening held →
        held.length ≤ 518 ∧ held <:+ reads.flatten := by
  refine ⟨fun buffer hlen h => ?_, fun buffer hlen h => ?_, fun _ _ => length_pass,
    fun buffer => ?_, fun reads s held h => ?_⟩
  · have := length_le_of_find_none h
    rw [Direction.longestPdu] at this
    omega
  · have := length_le_of_find_none h
    rw [Direction.longestPdu] at this
    omega
  · obtain ⟨count, last, hpasses, hlast⟩ :=
      Passes.exists_last List.length (by decide) length_pass buffer
    obtain ⟨hcount, hleft⟩ := takeRequests_passes hpasses
    obtain ⟨hnone, hkept⟩ := takeRequests_of_pass_none hlast
    rw [hnone] at hcount
    exact ⟨count, last, hpasses, hlast, hpasses.size_le _ length_pass, hcount, hleft ▸ hkept⟩
  · -- what is held does not depend on the service or on what is written
    rw [run_listening reads h]
    obtain ⟨used, hused, -⟩ := takeAll_standIn reads []
    rw [List.nil_append] at hused
    exact ⟨length_le_of_decode_none (decode_takeAll reads rfl), used, hused.symm⟩

section Longest

/-- As much noise as is ever skipped, and a request but for its last byte that tells the greatest
length, in reads of at most 256 bytes. -/
private def longNoise : Bytes := List.replicate 256 1

private def longFields : Bytes := [0x10, 0, 0, 0, 0, 255] ++ List.replicate 250 0

private def longTail : Bytes := List.replicate 6 0

private theorem takeAll_longest :
    takeAll [] [longNoise, longFields, longTail] =
      ([], longNoise ++ longFields ++ longTail) := by
  have hnoise : decode .request ([] ++ longNoise) = .ok none :=
    eq_ok_of_toOption (by decide +kernel)
  have hfields : decode .request ([] ++ longNoise ++ longFields) = .ok none :=
    eq_ok_of_toOption (by decide +kernel)
  have htail : decode .request ([] ++ longNoise ++ longFields ++ longTail) = .ok none :=
    eq_ok_of_toOption (by decide +kernel)
  rw [takeAll_cons_none hnoise, takeAll_cons_none hfields, takeAll_cons_none htail]
  rfl

private theorem length_longest : (longNoise ++ longFields ++ longTail).length = 518 := by
  decide +kernel

end Longest

/-- The bound is reached. -/
theorem run_holds_little_longest :
    let noise : Bytes := List.replicate 256 1
    let fields : Bytes := [0x10, 0, 0, 0, 0, 255] ++ List.replicate 250 0
    let reads : List Bytes := [noise, fields, List.replicate 6 0]
    ∃ held, ((Station.mk 1 Device.Service.bare).run .all (.listening [])
        (reads.map .data)).run () = (([], .listening held), ()) ∧
      held.length = 518 ∧ held <:+ reads.flatten := by
  intro noise fields reads
  have hwrite : ∀ bytes, Acceptance.all.write bytes = (bytes, .done) := fun _ => rfl
  have hrun := run_eq_takeAll (Station.mk 1 (Device.Service.bare (σ := Unit))) hwrite reads []
  have htaken : takeAll [] reads = ([], noise ++ fields ++ List.replicate 6 0) := takeAll_longest
  rw [htaken] at hrun
  refine ⟨_, congrArg (·.run ()) hrun, length_longest, ?_⟩
  obtain ⟨-, -, -, -, hheld⟩ := run_holds_little (Station.mk 1 Device.Service.bare) .all
  refine (hheld reads () _ ?_).2
  rw [hrun]
  rfl

end Station

end Modbus.Serial
