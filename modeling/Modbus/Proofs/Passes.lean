/-! Loops that make one pass after the other. A pass leads to what the next one
works on, or to nothing if it is the last. Where every pass but the last takes
something off, there are no more passes than there is to take. -/

namespace Modbus

variable {α : Type} {pass : α → Option α}

/-- A number of passes lead from one state of a loop to another. -/
inductive Passes (pass : α → Option α) : Nat → α → α → Prop where
  | refl (first : α) : Passes pass 0 first first
  | next {count : Nat} {first second last : α} (hpass : pass first = some second)
    (hrest : Passes pass count second last) : Passes pass (count + 1) first last

namespace Passes

variable {count : Nat} {first last : α}

/-- What one pass keeps, all of them keep. -/
theorem keep (Kept : α → Prop) (h : Passes pass count first last)
    (hpass : ∀ {first second}, pass first = some second → Kept first → Kept second)
    (hfirst : Kept first) : Kept last := by
  induction h with
  | refl => exact hfirst
  | next hnext _ ih => exact ih (hpass hnext hfirst)

variable (size : α → Nat) {least : Nat}

theorem size_le (h : Passes pass count first last)
    (hpass : ∀ {first second}, pass first = some second → size second + least ≤ size first) :
    least * count + size last ≤ size first := by
  induction h with
  | refl => simp
  | next hnext _ ih =>
    have := hpass hnext
    rw [Nat.mul_succ]
    omega

/-- A loop ends, from wherever it starts. -/
theorem exists_last (hleast : 0 < least)
    (hpass : ∀ {first second}, pass first = some second → size second + least ≤ size first)
    (first : α) : ∃ count last, Passes pass count first last ∧ pass last = none := by
  induction hsize : size first using Nat.strongRecOn generalizing first with
  | ind n ih =>
    cases hnext : pass first with
    | none => exact ⟨0, first, .refl first, hnext⟩
    | some second =>
      have := hpass hnext
      obtain ⟨count, last, hrest, hlast⟩ := ih (size second) (by omega) second rfl
      exact ⟨count + 1, last, .next hnext hrest, hlast⟩

end Passes

end Modbus
