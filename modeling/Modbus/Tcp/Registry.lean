import Modbus.Tcp.Session

/-!
The open connections of a device. Connections are numbered in the order in
which they were accepted, and no two of them have the same number.
-/

namespace Modbus.Tcp

/-- A connection, with the address of its far end and the time of its last activity. -/
structure Entry where
  id : UInt64
  peer : String
  phase : Phase
  lastActivity : Nat
  deriving DecidableEq, Repr

/-- Closing a connection is no activity on it. -/
def Entry.setPhase (entry : Entry) (phase : Phase) (now : Nat) : Entry :=
  { entry with phase, lastActivity := if phase = .closed then entry.lastActivity else now }

@[simp] theorem Entry.setPhase_id (entry : Entry) (phase : Phase) (now : Nat) :
    (entry.setPhase phase now).id = entry.id := rfl

/-- Entries are found by their numbers, and kept in no particular order. -/
@[ext] structure Registry where
  nextId : UInt64 := 0
  entries : List Entry := []
  distinct : entries.Pairwise (·.id ≠ ·.id) := by decide
  deriving DecidableEq, Repr

namespace Registry

/-- The next number, which nobody else gets. -/
def number (registry : Registry) : UInt64 × Registry :=
  (registry.nextId, { registry with nextId := registry.nextId + 1 })

def remove (registry : Registry) (id : UInt64) : Registry :=
  { registry with
    entries := registry.entries.filter (·.id ≠ id)
    distinct := registry.distinct.filter _ }

theorem ne_of_mem_remove {registry : Registry} {entry : Entry} {id : UInt64}
    (h : entry ∈ (registry.remove id).entries) : entry.id ≠ id :=
  of_decide_eq_true (List.mem_filter.mp h).2

/-- Lists a connection that has a number, in place of one that had it before. -/
def register (registry : Registry) (id : UInt64) (peer : String) (now : Nat) : Registry :=
  { registry with
    entries := ⟨id, peer, .idle, now⟩ :: (registry.remove id).entries
    distinct := .cons (fun _ h => (ne_of_mem_remove h).symm) (registry.remove id).distinct }

def setPhase (registry : Registry) (id : UInt64) (phase : Phase) (now : Nat) : Registry :=
  { registry with
    entries := registry.entries.map fun e => if e.id = id then e.setPhase phase now else e
    distinct := by
      refine List.pairwise_map.mpr (registry.distinct.imp fun {first second} h => ?_)
      have hkept : ∀ e : Entry, (if e.id = id then e.setPhase phase now else e).id = e.id := by
        intro e
        split <;> rfl
      rwa [hkept, hkept] }

/-- Adds a connection and tells its number. -/
def accept (registry : Registry) (peer : String) (now : Nat) : UInt64 × Registry :=
  let (id, registry) := registry.number
  (id, registry.register id peer now)

/-- The end of a connection, as its own task reports it. -/
def complete (registry : Registry) (id : UInt64) (now : Nat) : Registry :=
  (registry.setPhase id .closed now).remove id

def closeAll (registry : Registry) : Registry := { nextId := registry.nextId }

/-- All connections, in the order of their numbers. -/
def sessions (registry : Registry) : List Entry :=
  registry.entries.mergeSort fun first second => first.id ≤ second.id

def sessionCount (registry : Registry) : Nat := registry.entries.length

end Registry

end Modbus.Tcp
