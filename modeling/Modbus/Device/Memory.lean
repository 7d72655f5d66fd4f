import Modbus.Device.Handlers

/-!
The four tables of values in a device, each addressed from zero. A block that
is not completely inside its table is neither read nor written.
-/

namespace Modbus.Device

structure Memory where
  coils : List Bool := []
  discreteInputs : List Bool := []
  holdingRegisters : List UInt16 := []
  inputRegisters : List UInt16 := []
  deriving DecidableEq, Repr

namespace Memory

variable {α : Type}

/-- The values of a block, if they are all there. -/
def block? (values : List α) (address count : Nat) : Option (List α) :=
  if values.length < address + count then none else some ((values.drop address).take count)

/-- The table after a block has been written. -/
def write? (values : List α) (address : Nat) (block : List α) : Option (List α) :=
  if values.length < address + block.length then none
  else some (values.take address ++ block ++ values.drop (address + block.length))

def reader (table : Memory → List α) : Reader Memory α := fun _ address count memory =>
  match block? (table memory) address.toNat count.toNat with
  | some values => (.value values, memory)
  | none => (.exception .illegalDataAddress, memory)

def writer (table : Memory → List α) (store : Memory → List α → Memory) : Writer Memory α :=
  fun _ address block memory =>
    match write? (table memory) address.toNat block with
    | some values => (.value (), store memory values)
    | none => (.exception .illegalDataAddress, memory)

def readCoils : Reader Memory Bool := reader coils

def readDiscreteInputs : Reader Memory Bool := reader discreteInputs

def readHoldingRegisters : Reader Memory UInt16 := reader holdingRegisters

def readInputRegisters : Reader Memory UInt16 := reader inputRegisters

def writeCoils : Writer Memory Bool :=
  writer coils fun memory coils => { memory with coils }

def writeHoldingRegisters : Writer Memory UInt16 :=
  writer holdingRegisters fun memory holdingRegisters => { memory with holdingRegisters }

end Memory

end Modbus.Device
