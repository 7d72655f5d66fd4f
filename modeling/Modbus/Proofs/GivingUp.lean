import Modbus.Proofs.Resynchronisation
import Modbus.Proofs.SerialSoundness

/-! What a station loses when it gives up. The decoder fails only where it has
tried as many positions as the longest frame has bytes, and no request stands
at any of them. The station then throws away all that it holds, and a request
that stands behind these positions is lost. -/

namespace Modbus.Serial

/-- A request whose fields tell its length stands whole at the front of the bytes. -/
def RequestInFront (bytes : Bytes) : Prop :=
  ∃ (request : Frame) (rest : Bytes), Delimited request.pdu ∧ bytes = request.wire ++ rest

theorem RequestInFront.frameAt {bytes : Bytes} (h : RequestInFront bytes) (start : Nat) :
    ∃ found, frameAt .request start bytes = .ok (some found) := by
  obtain ⟨request, rest, hpdu, rfl⟩ := h
  exact ⟨_, frameAt_append hpdu.tells start rest⟩

/-! ## The decoder -/

/-- A scan gives up at the last position that it may try, and all of them have failed. -/
theorem scan_eq_error {direction : Direction} {start : Nat} {bytes : Bytes}
    {cause : ProtocolError} (h : scan direction start bytes = .error cause) :
    maxFrameLength < start + bytes.length ∧
      ∀ offset, start + offset < maxFrameLength → ∃ cause,
        frameAt direction (start + offset) (bytes.drop offset) = .error cause := by
  fun_induction scan direction start bytes with
  | case1 => cases h
  | case2 => cases h
  | case3 => cases h
  | case4 start byte next rest last hlast hmax =>
    simp only [List.length_cons]
    refine ⟨by omega, fun offset hoffset => ?_⟩
    obtain rfl : offset = 0 := by omega
    exact ⟨last, hlast⟩
  | case5 start byte next rest first hfirst hmax ih =>
    obtain ⟨hlen, hbehind⟩ := ih h
    rw [List.length_cons]
    refine ⟨by omega, fun offset hoffset => ?_⟩
    cases offset with
    | zero => exact ⟨first, hfirst⟩
    | succ offset =>
      rw [Nat.add_comm offset 1, ← Nat.add_assoc, Nat.add_comm 1 offset]
      exact hbehind offset (by omega)

theorem decode_eq_error {direction : Direction} {buffer : Bytes} {cause : ProtocolError}
    (h : decode direction buffer = .error cause) :
    maxFrameLength < buffer.length ∧ ∀ offset < maxFrameLength, ∃ cause,
      frameAt direction offset (buffer.drop offset) = .error cause := by
  have hlen : 2 ≤ buffer.length := by
    refine Nat.le_of_not_lt fun hshort => ?_
    rw [decode, if_pos hshort] at h
    cases h
  rw [decode_eq_scan hlen] at h
  simpa using scan_eq_error h

/-- No request is among the bytes that the decoder has tried. -/
theorem not_requestInFront_of_error {buffer : Bytes} {cause : ProtocolError}
    (h : decode .request buffer = .error cause) {offset : Nat} (hoffset : offset < maxFrameLength) :
    ¬ RequestInFront (buffer.drop offset) := by
  intro hfront
  obtain ⟨failed, herror⟩ := (decode_eq_error h).2 offset hoffset
  obtain ⟨found, hfound⟩ := hfront.frameAt offset
  cases herror.symm.trans hfound

/-! ## The station -/

theorem takeRequests_error {buffer : Bytes} {cause : ProtocolError}
    (h : decode .request buffer = .error cause) : takeRequests buffer = ([], []) := by
  rw [takeRequests]
  split <;> simp_all

/-- What a buffer still holds, behind the requests that are taken off it, when the decoder gives
up. -/
def givenUp (buffer : Bytes) : Option Bytes :=
  match _h : decode .request buffer with
  | .error _ => some buffer
  | .ok none => none
  | .ok (some found) => givenUp (buffer.drop found.stop)
termination_by buffer.length
decreasing_by
  have := size_pos_of_decode _h
  simp [Located.stop]; omega

theorem givenUp_none {buffer : Bytes} (h : decode .request buffer = .ok none) :
    givenUp buffer = none := by
  rw [givenUp]
  split <;> simp_all

theorem givenUp_error {buffer : Bytes} {cause : ProtocolError}
    (h : decode .request buffer = .error cause) : givenUp buffer = some buffer := by
  rw [givenUp]
  split <;> simp_all

/-- What the decoder gives up on is lost, and nothing else is: all other bytes come before it, as
requests that are taken or around them, or are kept. -/
theorem takeRequests_givenUp (buffer : Bytes) :
    (∃ used, StandIn (takeRequests buffer).1 used ∧
      buffer = used ++ (givenUp buffer).getD [] ++ (takeRequests buffer).2) ∧
    ∀ lost ∈ givenUp buffer, (takeRequests buffer).2 = [] ∧
      ∃ cause, decode .request lost = .error cause := by
  fun_induction givenUp buffer with
  | case1 buffer cause herror =>
    rw [takeRequests_error herror]
    refine ⟨⟨[], .nil [], (List.append_nil buffer).symm⟩, fun lost hlost => ?_⟩
    cases hlost
    exact ⟨rfl, cause, herror⟩
  | case2 buffer hnone =>
    rw [takeRequests_none hnone]
    exact ⟨⟨[], .nil [], rfl⟩, nofun⟩
  | case3 buffer found hfound ih =>
    obtain ⟨⟨used, hstand, hrest⟩, hlost⟩ := ih
    obtain ⟨hpdu, hsize, before, rest, hbuffer, hstart⟩ := within_of_decode hfound
    have hstop : found.stop = (before ++ found.frame.wire).length := by
      rw [Located.stop, hstart, hsize, List.length_append]
    rw [takeRequests_some hfound]
    refine ⟨⟨before ++ found.frame.wire ++ used, .cons before hpdu hstand, ?_⟩, hlost⟩
    have hdrop : buffer.drop found.stop = rest := by rw [hstop, hbuffer, List.drop_left]
    rw [List.append_assoc, List.append_assoc, ← List.append_assoc used, ← hrest, hdrop, hbuffer]

/-- All that a station gives up on, one read after the other. -/
def allGivenUp (received : Bytes) : List Bytes → List Bytes
  | [] => []
  | bytes :: rest =>
    (givenUp (received ++ bytes)).toList ++ allGivenUp (takeRequests (received ++ bytes)).2 rest

theorem infix_of_mem_allGivenUp {reads : List Bytes} {received lost : Bytes}
    (h : lost ∈ allGivenUp received reads) :
    lost <:+: received ++ reads.flatten ∧ ∃ cause, decode .request lost = .error cause := by
  induction reads generalizing received with
  | nil => cases h
  | cons bytes reads ih =>
    obtain ⟨⟨used, -, hsplit⟩, hlost⟩ := takeRequests_givenUp (received ++ bytes)
    rw [List.flatten_cons, ← List.append_assoc, hsplit]
    rcases List.mem_append.mp h with hfirst | hlater
    · have hgiven := Option.mem_toList.mp hfirst
      refine ⟨?_, (hlost lost hgiven).2⟩
      rw [Option.mem_def.mp hgiven, Option.getD_some]
      exact ⟨used, (takeRequests (received ++ bytes)).2 ++ reads.flatten, by simp⟩
    · obtain ⟨hinside, herror⟩ := ih hlater
      refine ⟨hinside.trans ?_, herror⟩
      rw [List.append_assoc]
      exact List.infix_append_right

/-- Whatever comes on a line, what a station gives up on is longer than any frame, and a request
in it has as many bytes before it as the longest frame has. -/
theorem length_before_request_givenUp (reads : List Bytes) {lost : Bytes}
    (h : lost ∈ allGivenUp [] reads) :
    lost <:+: reads.flatten ∧ maxFrameLength < lost.length ∧
      ∀ offset, RequestInFront (lost.drop offset) → maxFrameLength ≤ offset := by
  obtain ⟨hinside, cause, herror⟩ := infix_of_mem_allGivenUp h
  refine ⟨hinside, (decode_eq_error herror).1, fun offset hfront => ?_⟩
  exact Nat.le_of_not_lt fun hoffset => not_requestInFront_of_error herror hoffset hfront

/-- Outcomes that are there can be compared as options, so that evaluation decides them. -/
theorem eq_ok_of_toOption {α : Type} {outcome : Except ProtocolError α} {value : α}
    (h : outcome.toOption = some value) : outcome = .ok value := by
  cases outcome with
  | error cause => cases h
  | ok found => exact congrArg _ (Option.some.inj h)

section Noise

/-- A request of two registers, and bytes before it that all look like the function code of a read
and begin no frame. -/
private def late : Frame := ⟨1, [3, 0, 0, 0, 2]⟩

private def noise : Bytes := List.replicate 256 1

/-- The noise is kept, because its last bytes may begin a request. -/
private theorem decode_noise_none : decode .request noise = .ok none :=
  eq_ok_of_toOption (by decide +kernel)

private theorem decode_noise_late :
    ∃ cause, decode .request (noise ++ late.wire) = .error cause := by
  have hdecode : (decode .request (noise ++ late.wire)).toOption = none := by decide +kernel
  cases h : decode .request (noise ++ late.wire) with
  | error cause => exact ⟨cause, rfl⟩
  | ok found => rw [h] at hdecode; cases hdecode

private theorem takeAll_noise_late : takeAll [] [noise, late.wire] = ([], []) := by
  obtain ⟨cause, herror⟩ := decode_noise_late
  simp [takeAll, takeRequests_none decode_noise_none, takeRequests_error herror]

private theorem allGivenUp_noise_late :
    allGivenUp [] [noise, late.wire] = [noise ++ late.wire] := by
  obtain ⟨cause, herror⟩ := decode_noise_late
  simp [allGivenUp, takeRequests_none decode_noise_none, givenUp_none decode_noise_none,
    givenUp_error herror]

end Noise

theorem length_before_request_givenUp_noise :
    let request : Frame := ⟨1, [3, 0, 0, 0, 2]⟩
    let noise : Bytes := List.replicate 256 1
    noise ++ request.wire ∈ allGivenUp [] [noise, request.wire] ∧
      maxFrameLength < (noise ++ request.wire).length ∧
      ¬ RequestInFront ((noise ++ request.wire).drop 255) := by
  intro request noise
  have hgiven : allGivenUp [] [noise, request.wire] = [noise ++ request.wire] :=
    allGivenUp_noise_late
  have hlost : noise ++ request.wire ∈ allGivenUp [] [noise, request.wire] := by
    rw [hgiven]
    exact List.mem_singleton_self _
  obtain ⟨-, hlen, hbefore⟩ := length_before_request_givenUp _ hlost
  exact ⟨hlost, hlen, fun hfront => absurd (hbefore 255 hfront) (by decide)⟩

/-- A request behind 256 bytes of noise is thrown away with the noise, and no station answers it or
hands it to its service. -/
theorem request_givenUp_behind_noise :
    let request : Frame := ⟨1, [3, 0, 0, 0, 2]⟩
    let noise : Bytes := List.replicate 256 1
    (∀ bytes ∈ [noise, request.wire], bytes ≠ [] ∧ bytes.length ≤ 256) ∧
      noise ++ request.wire ∈ allGivenUp [] [noise, request.wire] ∧
      RequestInFront ((noise ++ request.wire).drop 256) ∧
      ∀ (station : Station Device.Memory),
        station.run .all (.listening []) [.data noise, .data request.wire] =
          pure ([], .listening []) := by
  intro request noise
  have hgiven : allGivenUp [] [noise, request.wire] = [noise ++ request.wire] :=
    allGivenUp_noise_late
  refine ⟨?_, ?_, ?_, fun station => ?_⟩
  · rw [List.forall_mem_cons, List.forall_mem_singleton]
    exact ⟨⟨List.cons_ne_nil _ _, Nat.le_of_eq List.length_replicate⟩, by decide⟩
  · rw [hgiven]
    exact List.mem_singleton_self _
  · refine ⟨request, [], .plain (by decide) rfl, ?_⟩
    rw [List.drop_left' List.length_replicate, List.append_nil]
  · have hwrite : ∀ bytes, Acceptance.all.write bytes = (bytes, .done) := fun _ => rfl
    have hrun := station.run_eq_takeAll hwrite [noise, request.wire] []
    have htaken : takeAll [] [noise, request.wire] = ([], []) := takeAll_noise_late
    rw [htaken] at hrun
    exact hrun

end Modbus.Serial
