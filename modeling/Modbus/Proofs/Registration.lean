import Modbus.Device.Handlers

/-! Handlers are registered one after the other. Each registration fills one
slot, and the last one for a slot is the handler that is found there. What a
device supports and how it handles a call is told by one slot, that of the
function or of the call. -/

namespace Modbus.Device

variable {σ : Type}

/-- Where a handler is found. Writing a single value and writing several have one slot. -/
inductive Slot where
  | readCoils
  | readDiscreteInputs
  | readHoldingRegisters
  | readInputRegisters
  | writeCoils
  | writeHoldingRegisters
  | function (code : UInt8)
  deriving DecidableEq, Repr

/-- The slot of the function with this code. -/
def Slot.ofCode (code : UInt8) : Slot :=
  if code = 1 then .readCoils
  else if code = 2 then .readDiscreteInputs
  else if code = 3 then .readHoldingRegisters
  else if code = 4 then .readInputRegisters
  else if code = 5 ∨ code = 15 then .writeCoils
  else if code = 6 ∨ code = 16 then .writeHoldingRegisters
  else .function code

def Call.slot : Call → Slot
  | .readCoils .. => .readCoils
  | .readDiscreteInputs .. => .readDiscreteInputs
  | .readHoldingRegisters .. => .readHoldingRegisters
  | .readInputRegisters .. => .readInputRegisters
  | .writeCoils .. => .writeCoils
  | .writeHoldingRegisters .. => .writeHoldingRegisters
  | .function _ code _ => .function code

/-- A handler, and what it is registered for. -/
inductive Registration (σ : Type) where
  | readCoils (f : Reader σ Bool)
  | readDiscreteInputs (f : Reader σ Bool)
  | readHoldingRegisters (f : Reader σ UInt16)
  | readInputRegisters (f : Reader σ UInt16)
  | writeCoils (f : Writer σ Bool)
  | writeHoldingRegisters (f : Writer σ UInt16)
  | function (code : UInt8) (f : UserFunction σ)

/-- A handler that has run: its place in the order of registration, and its call. -/
structure Run where
  place : Nat
  call : Call
  deriving DecidableEq, Repr

/-- Performs the action of a handler and notes its run. -/
def running {α : Type} (run : Run) (action : StateM σ α) : StateM (σ × List Run) α :=
  fun (state, runs) =>
    let (answer, state) := action state
    (answer, state, runs ++ [run])

namespace Registration

def slot : Registration σ → Slot
  | .readCoils _ => .readCoils
  | .readDiscreteInputs _ => .readDiscreteInputs
  | .readHoldingRegisters _ => .readHoldingRegisters
  | .readInputRegisters _ => .readInputRegisters
  | .writeCoils _ => .writeCoils
  | .writeHoldingRegisters _ => .writeHoldingRegisters
  | .function code _ => .function code

/-- The same handler, which notes its runs under this place. -/
def placed (place : Nat) : Registration σ → Registration (σ × List Run)
  | .readCoils f => .readCoils fun unit address count =>
    running ⟨place, .readCoils unit address count⟩ (f unit address count)
  | .readDiscreteInputs f => .readDiscreteInputs fun unit address count =>
    running ⟨place, .readDiscreteInputs unit address count⟩ (f unit address count)
  | .readHoldingRegisters f => .readHoldingRegisters fun unit address count =>
    running ⟨place, .readHoldingRegisters unit address count⟩ (f unit address count)
  | .readInputRegisters f => .readInputRegisters fun unit address count =>
    running ⟨place, .readInputRegisters unit address count⟩ (f unit address count)
  | .writeCoils f => .writeCoils fun unit address coils =>
    running ⟨place, .writeCoils unit address coils⟩ (f unit address coils)
  | .writeHoldingRegisters f => .writeHoldingRegisters fun unit address words =>
    running ⟨place, .writeHoldingRegisters unit address words⟩ (f unit address words)
  | .function code f => .function code fun unit data =>
    running ⟨place, .function unit code data⟩ (f unit data)

theorem slot_placed (place : Nat) (r : Registration σ) : (r.placed place).slot = r.slot := by
  cases r <;> rfl

end Registration

namespace Handlers

/-- Registers a handler, in place of the one that was there. -/
def put (handlers : Handlers σ) : Registration σ → Handlers σ
  | .readCoils f => { handlers with readCoils := some f }
  | .readDiscreteInputs f => { handlers with readDiscreteInputs := some f }
  | .readHoldingRegisters f => { handlers with readHoldingRegisters := some f }
  | .readInputRegisters f => { handlers with readInputRegisters := some f }
  | .writeCoils f => { handlers with writeCoils := some f }
  | .writeHoldingRegisters f => { handlers with writeHoldingRegisters := some f }
  | .function code f => handlers.register code f

/-- What has been registered one after the other, the first one first. -/
def ofRegistrations (registrations : List (Registration σ)) : Handlers σ :=
  registrations.foldl put {}

/-- The same, with handlers that note their runs under their places. -/
def ofPlaced (registrations : List (Registration σ)) : Handlers (σ × List Run) :=
  ofRegistrations (registrations.mapIdx Registration.placed)

/-- What is found in a slot. -/
def at? (handlers : Handlers σ) : Slot → Option (Registration σ)
  | .readCoils => handlers.readCoils.map .readCoils
  | .readDiscreteInputs => handlers.readDiscreteInputs.map .readDiscreteInputs
  | .readHoldingRegisters => handlers.readHoldingRegisters.map .readHoldingRegisters
  | .readInputRegisters => handlers.readInputRegisters.map .readInputRegisters
  | .writeCoils => handlers.writeCoils.map .writeCoils
  | .writeHoldingRegisters => handlers.writeHoldingRegisters.map .writeHoldingRegisters
  | .function code => (handlers.functions code).map (.function code)

theorem at?_empty (slot : Slot) : ({} : Handlers σ).at? slot = none := by
  cases slot <;> rfl

/-- A registration fills its slot and leaves the others alone. -/
theorem at?_put (handlers : Handlers σ) (r : Registration σ) (slot : Slot) :
    (handlers.put r).at? slot = if r.slot = slot then some r else handlers.at? slot := by
  cases r with
  | function code f =>
    cases slot with
    -- the only slots that are told apart by more than their kind
    | function other =>
      by_cases hcode : other = code
      · subst hcode
        simp [put, register, at?, Registration.slot]
      · have hslot : ¬ code = other := fun h => hcode h.symm
        simp [put, register, at?, Registration.slot, hcode, hslot]
    | _ => rfl
  | _ => cases slot <;> rfl

theorem at?_put_of_ne {handlers : Handlers σ} {r : Registration σ} {slot : Slot}
    (h : r.slot ≠ slot) : (handlers.put r).at? slot = handlers.at? slot := by
  rw [at?_put, if_neg h]

/-- Registrations for other slots leave a slot as it is. -/
theorem at?_foldl_put {registrations : List (Registration σ)} {slot : Slot}
    (h : ∀ r ∈ registrations, r.slot ≠ slot) (handlers : Handlers σ) :
    (registrations.foldl put handlers).at? slot = handlers.at? slot := by
  induction registrations generalizing handlers with
  | nil => rfl
  | cons r registrations ih =>
    obtain ⟨hr, hrest⟩ := List.forall_mem_cons.mp h
    rw [List.foldl_cons, ih hrest, at?_put_of_ne hr]

theorem at?_ofRegistrations_none {registrations : List (Registration σ)} {slot : Slot}
    (h : ∀ r ∈ registrations, r.slot ≠ slot) : (ofRegistrations registrations).at? slot = none := by
  rw [ofRegistrations, at?_foldl_put h, at?_empty]

/-- The last registration for a slot is found there. -/
theorem at?_ofRegistrations_last (before : List (Registration σ)) {r : Registration σ}
    {after : List (Registration σ)} {slot : Slot} (hr : r.slot = slot)
    (hafter : ∀ later ∈ after, later.slot ≠ slot) :
    (ofRegistrations (before ++ r :: after)).at? slot = some r := by
  rw [ofRegistrations, List.foldl_append, List.foldl_cons, at?_foldl_put hafter, at?_put, if_pos hr]

theorem ofRegistrations_concat (registrations : List (Registration σ)) (r : Registration σ) :
    ofRegistrations (registrations ++ [r]) = (ofRegistrations registrations).put r := by
  rw [ofRegistrations, List.foldl_append]
  rfl

theorem ofPlaced_concat (registrations : List (Registration σ)) (r : Registration σ) :
    ofPlaced (registrations ++ [r]) =
      (ofPlaced registrations).put (r.placed registrations.length) := by
  rw [ofPlaced, List.mapIdx_concat, ofRegistrations_concat, ofPlaced]

/-- Registrations that are placed are for the slots that they were for. -/
theorem slot_ne_of_mem_mapIdx {registrations : List (Registration σ)} {slot : Slot}
    (h : ∀ r ∈ registrations, r.slot ≠ slot) (place : Nat → Nat) :
    ∀ r ∈ registrations.mapIdx fun index => Registration.placed (place index), r.slot ≠ slot := by
  intro r hr
  obtain ⟨index, hindex, rfl⟩ := List.mem_mapIdx.mp hr
  rw [Registration.slot_placed]
  exact h _ (List.getElem_mem hindex)

theorem at?_ofPlaced_none {registrations : List (Registration σ)} {slot : Slot}
    (h : ∀ r ∈ registrations, r.slot ≠ slot) : (ofPlaced registrations).at? slot = none :=
  at?_ofRegistrations_none (slot_ne_of_mem_mapIdx h id)

theorem at?_ofPlaced_last (before : List (Registration σ)) {r : Registration σ}
    {after : List (Registration σ)} {slot : Slot} (hr : r.slot = slot)
    (hafter : ∀ later ∈ after, later.slot ≠ slot) :
    (ofPlaced (before ++ r :: after)).at? slot = some (r.placed before.length) := by
  have hsplit : (before ++ r :: after).mapIdx Registration.placed =
      before.mapIdx Registration.placed ++ r.placed before.length ::
        after.mapIdx fun index => Registration.placed (index + 1 + before.length) := by
    rw [List.mapIdx_append, List.mapIdx_cons, Nat.zero_add]
  rw [ofPlaced, hsplit]
  exact at?_ofRegistrations_last _ ((Registration.slot_placed _ r).trans hr)
    (slot_ne_of_mem_mapIdx hafter _)

/-- How a call is handled is told by its slot. -/
theorem handle_congr {handlers handlers' : Handlers σ} {call : Call}
    (h : handlers.at? call.slot = handlers'.at? call.slot) :
    handlers.handle call = handlers'.handle call := by
  cases call
  all_goals
    have hfield := (Option.map_inj_right fun _ _ heq => by cases heq; rfl).mp h
    simp only [handle, hfield]

/-- With nothing in its slot, a call is handled as if there were no handlers. -/
theorem handle_of_none {handlers : Handlers σ} {call : Call} (h : handlers.at? call.slot = none) :
    handlers.handle call = Service.bare.handle call := by
  rw [handle_congr (h.trans (at?_empty call.slot).symm)]
  cases call <;> rfl

/-- A handler that notes its runs does what it did before. -/
theorem handle_placed {handlers : Handlers σ} {noting : Handlers (σ × List Run)} {call : Call}
    {r : Registration σ} {place : Nat} (h : handlers.at? call.slot = some r)
    (hnoting : noting.at? call.slot = some (r.placed place)) :
    noting.handle call = running ⟨place, call⟩ (handlers.handle call) := by
  cases call
  all_goals
    obtain ⟨f, hf, rfl⟩ := Option.map_eq_some_iff.mp h
    obtain ⟨g, hg, hplaced⟩ := Option.map_eq_some_iff.mp hnoting
    cases hplaced
    simp only [handle, hf, hg]
    rfl

end Handlers

end Modbus.Device
