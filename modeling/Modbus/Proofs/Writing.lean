import Modbus.Stream

/-! What is known of a write, however the far end takes it. What goes out is
the front of what was to be written, and all of it if the write is done. -/

namespace Modbus

namespace Acceptance

theorem writeTurns_front (turns : List Turn) (bytes : Bytes) :
    (writeTurns turns bytes).1 <+: bytes := by
  fun_induction writeTurns turns bytes with
  | case1 | case2 => exact List.prefix_rfl
  | case3 | case5 | case6 => exact List.nil_prefix
  | case4 count turns bytes hbytes hcount sent written hrest ih =>
    rw [hrest] at ih
    have hwhole := (List.prefix_append_right_inj (bytes.take count)).mpr ih
    rwa [List.take_append_drop] at hwhole

theorem writeTurns_done {turns : List Turn} {bytes sent : Bytes}
    (h : writeTurns turns bytes = (sent, .done)) : sent = bytes := by
  fun_induction writeTurns turns bytes generalizing sent with
  | case1 | case2 => cases h; rfl
  | case3 | case5 | case6 => cases h
  | case4 count turns bytes hbytes hcount sent' written hrest ih =>
    cases h
    rw [ih hrest, List.take_append_drop]

/-- Turns that each take something take all. -/
theorem writeTurns_takes {turns : List Turn} (h : ∀ turn ∈ turns, ∃ n, turn = .takes (n + 1))
    (bytes : Bytes) : writeTurns turns bytes = (bytes, .done) := by
  fun_induction writeTurns turns bytes with
  | case1 | case2 => rfl
  | case3 | case5 | case6 =>
    obtain ⟨n, hturn⟩ := h _ List.mem_cons_self
    cases hturn
  | case4 count turns bytes hbytes hcount sent written hrest ih =>
    have hdone := ih fun turn hturn => h turn (List.mem_cons_of_mem _ hturn)
    rw [hrest] at hdone
    obtain ⟨rfl, rfl⟩ := Prod.mk.inj hdone
    rw [List.take_append_drop]

/-- Frames are taken whole, in whatever parts. -/
def TakesAll (acceptance : Acceptance) : Prop :=
  ∀ bytes, acceptance.writeAll bytes = (bytes, .done)

theorem takesAll_all : all.TakesAll := fun _ => rfl

/-- What both ways of writing keep to. -/
structure Writes (write : Acceptance → Bytes → Bytes × Written) : Prop where
  front : ∀ acceptance bytes, (write acceptance bytes).1 <+: bytes
  whole : ∀ acceptance bytes sent, write acceptance bytes = (sent, .done) → sent = bytes

theorem writes_writeAll : Writes writeAll where
  front acceptance bytes := writeTurns_front acceptance.turns bytes
  whole _ _ _ h := writeTurns_done h

theorem writes_write : Writes write where
  front acceptance bytes := by
    have hfront := writes_writeAll.front acceptance bytes
    rw [write]
    split
    · next hall =>
      rwa [hall] at hfront
    · exact hfront
  whole acceptance bytes sent h := by
    rw [write] at h
    split at h
    · next hall =>
      obtain ⟨rfl, -⟩ := Prod.mk.inj h
      exact writes_writeAll.whole _ _ _ hall
    · next hbroken => exact absurd h (hbroken _)

end Acceptance

theorem Stream.transmit_ok {write : Acceptance → Bytes → Bytes × Written} {frame : Bytes}
    {stream : Stream} {left : List Arrival}
    (hdrain : drain stream.now stream.incoming = (.ok (), left))
    (hwrite : write stream.acceptance frame = (frame, .done)) :
    stream.transmit write frame = (frame, .ok { stream with incoming := left }) := by
  simp only [transmit, hdrain, hwrite]

/-- A frame that is transmitted goes out whole behind what was ready, or the stream is lost. -/
theorem Stream.transmit_cases {write : Acceptance → Bytes → Bytes × Written}
    (h : Acceptance.Writes write) (frame : Bytes) (stream : Stream) :
    (∃ left, stream.transmit write frame = (frame, .ok { stream with incoming := left })) ∨
    ∃ sent cause, stream.transmit write frame = (sent, .error cause) ∧ sent <+: frame := by
  have hfront := h.front stream.acceptance frame
  unfold transmit
  split
  · exact .inr ⟨[], _, rfl, List.nil_prefix⟩
  · next left hdrain =>
    split
    · next sent hdone =>
      obtain rfl := h.whole _ _ _ hdone
      exact .inl ⟨left, rfl⟩
    · next sent fault hfailed => exact .inr ⟨sent, _, rfl, by rwa [hfailed] at hfront⟩
    · next sent hstalled => exact .inr ⟨sent, _, rfl, by rwa [hstalled] at hfront⟩

end Modbus
