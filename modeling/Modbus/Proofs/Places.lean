import Modbus.Pdu.Values

/-! Bytes that are found, and written, by their places. Such code is `Checked`:
besides giving a result or an error it may look for a place that is not there.
What is `within` its bytes never does. A block of values is made only of bytes
that hold it, and then all its values are there. -/

namespace Modbus

/-- What comes of code that looks for bytes by their places, if they all are there. -/
abbrev Checked (α : Type) := ExceptT ProtocolError Option α

namespace Checked

variable {α β : Type}

/-- There is no such place. -/
def outside : Checked α := ExceptT.mk none

/-- A result or an error, and no place that is not there. -/
def within (outcome : Except ProtocolError α) : Checked α := ExceptT.mk (some outcome)

@[simp] theorem within_ok (a : α) : within (.ok a) = pure a := rfl

@[simp] theorem within_error (cause : ProtocolError) :
    (within (.error cause) : Checked α) = throw cause := rfl

@[simp] theorem throw_bind (cause : ProtocolError) (f : α → Checked β) :
    (throw cause >>= f) = throw cause := rfl

theorem within_bind (outcome : Except ProtocolError α) {f : α → Except ProtocolError β}
    {g : α → Checked β} (h : ∀ a, g a = within (f a)) :
    within outcome >>= g = within (outcome >>= f) := by
  cases outcome with
  | ok a => exact h a
  | error => rfl

theorem within_map (outcome : Except ProtocolError α) (f : α → β) :
    (within outcome >>= fun a => pure (f a)) = within (outcome >>= fun a => pure (f a)) :=
  within_bind outcome fun _ => rfl

theorem within_ite {p : Prop} [Decidable p] (outcome other : Except ProtocolError α) :
    within (if p then outcome else other) = if p then within outcome else within other := by
  split <;> rfl

/-- The outcome of code, whichever it is. -/
def attempt (code : Checked α) : Checked (Except ProtocolError α) :=
  ExceptT.mk (code.run.map .ok)

@[simp] theorem attempt_within (outcome : Except ProtocolError α) :
    attempt (within outcome) = pure outcome := rfl

@[simp] theorem attempt_throw (cause : ProtocolError) :
    attempt (throw cause : Checked α) = pure (.error cause) := rfl

end Checked

namespace Places

open Checked

/-- The byte at a place. -/
def byteAt (bytes : Bytes) (place : Nat) : Checked UInt8 :=
  match bytes[place]? with
  | some byte => pure byte
  | none => outside

/-- The bytes from a place on and before another. -/
def slice (bytes : Bytes) (first last : Nat) : Checked Bytes :=
  if first ≤ last ∧ last ≤ bytes.length then pure ((bytes.take last).drop first) else outside

/-- The bytes from a place on. -/
def sliceFrom (bytes : Bytes) (first : Nat) : Checked Bytes := slice bytes first bytes.length

/-- The bytes before a place, and the others. -/
def splitAt (bytes : Bytes) (place : Nat) : Checked (Bytes × Bytes) :=
  if place ≤ bytes.length then pure (bytes.take place, bytes.drop place) else outside

/-- A difference that is not negative. -/
def minus (whole part : Nat) : Checked Nat := if part ≤ whole then pure (whole - part) else outside

/-- The word in the first two bytes, high byte first. -/
def readWord : Bytes → Checked UInt16
  | high :: low :: _ => pure (word high low)
  | _ => outside

/-- The word in the first two bytes, low byte first. -/
def readWordReversed : Bytes → Checked UInt16
  | low :: high :: _ => pure (word high low)
  | _ => outside

def setByte (buffer : Bytes) (place : Nat) (byte : UInt8) : Checked Bytes :=
  if place < buffer.length then pure (buffer.set place byte) else outside

/-- Puts bytes in place of as many others. -/
def copyTo (buffer : Bytes) (first last : Nat) (bytes : Bytes) : Checked Bytes :=
  if first ≤ last ∧ last ≤ buffer.length ∧ bytes.length = last - first then
    pure (buffer.take first ++ bytes ++ buffer.drop last)
  else outside

variable {byte : UInt8} {bytes buffer done : Bytes} {first last place : Nat}

@[simp] theorem byteAt_zero : byteAt (byte :: bytes) 0 = pure byte := rfl

@[simp] theorem byteAt_succ : byteAt (byte :: bytes) (place + 1) = byteAt bytes place := rfl

theorem byteAt_of_lt (h : place < bytes.length) : byteAt bytes place = pure bytes[place] := by
  simp [byteAt, h]

theorem slice_of_le (hfirst : first ≤ last) (hlast : last ≤ bytes.length) :
    slice bytes first last = pure ((bytes.take last).drop first) := if_pos ⟨hfirst, hlast⟩

@[simp] theorem slice_zero : slice bytes 0 0 = pure [] :=
  slice_of_le (Nat.le_refl 0) (Nat.zero_le _)

@[simp] theorem slice_succ :
    slice (byte :: bytes) (first + 1) (last + 1) = slice bytes first last := by
  simp [slice]

@[simp] theorem slice_zero_succ :
    slice (byte :: bytes) 0 (last + 1) = (byte :: ·) <$> slice bytes 0 last := by
  by_cases h : last ≤ bytes.length
  · rw [slice_of_le (Nat.zero_le _) (Nat.succ_le_succ h), slice_of_le (Nat.zero_le _) h]
    rfl
  · simp [slice, h]
    rfl

theorem slice_append (bytes more : Bytes) : slice (bytes ++ more) 0 bytes.length = pure bytes := by
  have hlength : bytes.length ≤ (bytes ++ more).length := by simp
  rw [slice_of_le (Nat.zero_le _) hlength, List.take_left, List.drop_zero]

theorem slice_length : slice bytes 0 bytes.length = pure bytes := by
  simpa using slice_append bytes []

@[simp] theorem sliceFrom_zero : sliceFrom bytes 0 = pure bytes := slice_length

@[simp] theorem sliceFrom_succ : sliceFrom (byte :: bytes) (first + 1) = sliceFrom bytes first :=
  slice_succ

theorem sliceFrom_of_le (h : first ≤ bytes.length) :
    sliceFrom bytes first = pure (bytes.drop first) := by
  rw [sliceFrom, slice_of_le h (Nat.le_refl _), List.take_length]

@[simp] theorem readWord_cons {high low : UInt8} :
    readWord (high :: low :: bytes) = pure (word high low) := rfl

@[simp] theorem readWordReversed_cons {low high : UInt8} :
    readWordReversed (low :: high :: bytes) = pure (word high low) := rfl

/-- A buffer whose first bytes are written. -/
def front (done buffer : Bytes) : Bytes := done ++ buffer.drop done.length

theorem front_nil (buffer : Bytes) : front [] buffer = buffer := rfl

theorem length_front (h : done.length ≤ buffer.length) :
    (front done buffer).length = buffer.length := by
  rw [front, List.length_append, List.length_drop, Nat.add_sub_cancel' h]

/-- The bytes behind those that are written already. -/
theorem copyTo_front {next : Bytes} (h : done.length + next.length ≤ buffer.length)
    (hfirst : first = done.length) (hlast : last = done.length + next.length) :
    copyTo (front done buffer) first last next = pure (front (done ++ next) buffer) := by
  have hlength := length_front (Nat.le_trans (Nat.le_add_right _ _) h)
  rw [copyTo, if_pos, hfirst, hlast]
  · congr 1
    rw [front, front, List.take_left, List.drop_append, List.drop_drop, List.length_append,
      List.drop_of_length_le (Nat.le_add_right _ _), Nat.add_sub_cancel_left, List.nil_append]
  · refine ⟨?_, ?_, ?_⟩ <;> omega

theorem setByte_front (h : done.length < buffer.length) (hplace : place = done.length) :
    setByte (front done buffer) place byte = pure (front (done ++ [byte]) buffer) := by
  have hlength := length_front (Nat.le_of_lt h)
  rw [setByte, if_pos (by omega), hplace]
  congr 1
  rw [front, front, List.set_append_right _ _ (Nat.le_refl _), Nat.sub_self,
    List.drop_eq_getElem_cons h, List.set_cons_zero, List.length_append, List.length_singleton,
    List.append_assoc, List.singleton_append]

end Places

/-! ## Writing -/

/-- Code that writes to a buffer by its places. The buffer is what it is in the end, in whichever
way that comes. -/
abbrev Writing (α : Type) := ExceptT ProtocolError (StateT Bytes Option) α

namespace Writing

open Places

variable {α β : Type}

def onto (code : Writing α) (buffer : Bytes) : Option (Except ProtocolError α × Bytes) :=
  code.run.run buffer

/-- A single write, which changes nothing if it fails. -/
def put (write : Bytes → Checked Bytes) : Writing Unit :=
  ExceptT.mk fun buffer => (write buffer).run.map fun
    | .ok written => (.ok (), written)
    | .error cause => (.error cause, buffer)

/-- Code that leaves the buffer alone. -/
def lookUp (code : Checked α) : Writing α := ExceptT.mk fun buffer => code.run.map (·, buffer)

@[simp] theorem lookUp_pure (a : α) : lookUp (pure a) = pure a := rfl

theorem onto_bind {code : Writing α} {next : α → Writing β} {buffer after : Bytes} {a : α}
    (h : code.onto buffer = some (.ok a, after)) :
    (code >>= next).onto buffer = (next a).onto after := by
  change (code.onto buffer >>= fun ran => _) = _
  rw [h]
  rfl

theorem put_onto {write : Bytes → Checked Bytes} {buffer after : Bytes}
    (h : write buffer = pure after) : (put write).onto buffer = some (.ok (), after) := by
  change (write buffer).run.map _ = _
  rw [h]
  rfl

variable {byte : UInt8} {buffer done next : Bytes} {first last place : Nat}

theorem copyTo_onto (h : done.length + next.length ≤ buffer.length) (hfirst : first = done.length)
    (hlast : last = done.length + next.length) :
    (put (copyTo · first last next)).onto (front done buffer) =
      some (.ok (), front (done ++ next) buffer) :=
  put_onto (copyTo_front h hfirst hlast)

theorem copyTo_bind_onto {code : Unit → Writing α} (h : done.length + next.length ≤ buffer.length)
    (hfirst : first = done.length) (hlast : last = done.length + next.length) :
    (put (copyTo · first last next) >>= code).onto (front done buffer) =
      (code ()).onto (front (done ++ next) buffer) :=
  onto_bind (copyTo_onto h hfirst hlast)

theorem setByte_bind_onto {code : Unit → Writing α} (h : done.length < buffer.length)
    (hplace : place = done.length) :
    (put (setByte · place byte) >>= code).onto (front done buffer) =
      (code ()).onto (front (done ++ [byte]) buffer) :=
  onto_bind (put_onto (setByte_front h hplace))

end Writing

end Modbus
