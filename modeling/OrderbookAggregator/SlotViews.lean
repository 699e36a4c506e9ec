import OrderbookAggregator.AtomicSlot
import OrderbookAggregator.Library.Views

/-!
# The atomic slot under release and acquire

`src/atomic_slot.rs` again, now with what each half knows of the accesses of the other one to the
buffers. The state byte and the reference count are the atomic locations. Their loads are relaxed, so
that only the read-modify-writes hand over what is known.
-/

namespace OrderbookAggregator

open MemoryViews

/-- The atomic fields of the shared block. -/
inductive Atomic where
  | state
  | refcount
  deriving DecidableEq, Repr

/-- An access of a half to a buffer, with its place in the order of all accesses. -/
structure Access where
  half : Half
  buffer : UInt8
  place : Nat
  deriving DecidableEq, Repr

/-- The slot, the accesses so far and the views of the halves. -/
structure ViewedSlot (T : Type) where
  slot : Slot T
  accesses : List Access
  views : Views Half Atomic Access

namespace ViewedSlot

variable {T : Type}

def new : ViewedSlot T :=
  { slot := .new
    accesses := []
    views := .empty }

/-- The access that a step makes. -/
def access (v : ViewedSlot T) (label : SlotLabel T) : Option Access :=
  (v.slot.accessed label).map fun buffer => ⟨label.half, buffer, v.accesses.length⟩

/-- The read-modify-write of a step, with the ordering written in the code. -/
def swapped : SlotLabel T → Option (Atomic × MemoryOrder)
  | .sender .swap => some (.state, .release)
  | .receiver .swap => some (.state, .acquire)
  | .sender .drop | .receiver .drop => some (.refcount, .acqRel)
  | _ => none

/-- What a step does to the views. -/
def action (v : ViewedSlot T) (label : SlotLabel T) : Option (Action Half Atomic Access) :=
  match v.access label, swapped label with
  | some access, _ => some (.access label.half access)
  | none, some (location, ordering) => some (.readModifyWrite label.half location ordering)
  | none, none => none

def step (v : ViewedSlot T) (label : SlotLabel T) : Option (ViewedSlot T) :=
  (v.slot.step label).map fun slot =>
    { slot
      accesses := v.accesses ++ (v.access label).toList
      views := ((v.action label).map v.views.act).getD v.views }

/-- A half that accesses a buffer knows every earlier access of the other half to it. -/
def Informed (v : ViewedSlot T) (label : SlotLabel T) : Prop :=
  ∀ access ∈ v.access label, ∀ earlier ∈ v.accesses,
    earlier.buffer = access.buffer → earlier.half ≠ label.half → earlier ∈ v.views.thread label.half

end ViewedSlot

end OrderbookAggregator
