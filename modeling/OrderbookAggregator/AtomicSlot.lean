import OrderbookAggregator.Machine

/-!
# The atomic slot

`src/atomic_slot.rs`: a slot for one value, shared by a sender and a receiver. Each half goes through
the steps of `send` and `recv` one at a time; every step touches the shared block at most once, and
the steps of the two halves interleave in any order. The private index of a half is part of the
state, and so is what a half has read from the block and not used yet.

An index of a buffer is a `u8`. The accesses are not bounds checked, so the buffers are a function
of that `u8`.
-/

namespace OrderbookAggregator

/-- `DIRTY`: bit 0 of the state byte. -/
def dirty : UInt8 := 1

/-- Where the sending half stands: in `send`, behind the write to the back buffer or behind the swap
of the state byte, or in `drop_half`, behind the decrement of the reference count. -/
inductive SenderPc (T : Type) where
  | idle
  | wrote (value : T)
  | swapped (oldState : UInt8)
  | released (prev : UInt8)
  | gone
  deriving DecidableEq

/-- Where the receiving half stands: in `recv`, behind a load that saw the dirty flag, the swap of
the state byte or the update of the private index, or in `drop_half`. -/
inductive ReceiverPc where
  | idle
  | loaded
  | swapped (oldState : UInt8)
  | moved (newFront : UInt8)
  | released (prev : UInt8)
  | gone
  deriving DecidableEq

/-- The shared block, the private indices of the two halves and where these stand. -/
structure Slot (T : Type) where
  buffers : UInt8 → Option T
  state : UInt8
  refcount : UInt8
  back : UInt8
  front : UInt8
  sender : SenderPc T
  receiver : ReceiverPc
  frees : Nat

/-- The three accesses of `send`, `is_abandoned`, and the two accesses of `drop_half`. -/
inductive SenderOp (T : Type) where
  | write (value : T)
  | swap
  | setBack
  | isAbandoned
  | drop
  | endDrop
  deriving DecidableEq

/-- The four accesses of `recv`, which returns at the first if the slot is not dirty, `is_abandoned`,
and the two accesses of `drop_half`. -/
inductive ReceiverOp where
  | load
  | swap
  | setFront
  | take
  | isAbandoned
  | drop
  | endDrop
  deriving DecidableEq

inductive Half where
  | sender
  | receiver
  deriving DecidableEq, Repr

inductive SlotLabel (T : Type) where
  | sender (op : SenderOp T)
  | receiver (op : ReceiverOp)
  deriving DecidableEq

def SlotLabel.half {T : Type} : SlotLabel T → Half
  | .sender _ => .sender
  | .receiver _ => .receiver

namespace Slot

variable {T : Type}

/-- `slot()`: back 0, middle 1, front 2. -/
def new : Slot T :=
  { buffers := fun _ => none
    state := (1 : UInt8) <<< 1
    refcount := 2
    back := 0
    front := 2
    sender := .idle
    receiver := .idle
    frees := 0 }

def isDirty (s : Slot T) : Bool := s.state &&& dirty ≠ 0

/-- What `is_abandoned` returns, to either half. -/
def isAbandoned (s : Slot T) : Bool := s.refcount = 1

def senderStep (s : Slot T) : SenderOp T → Option (Slot T)
  | .write value =>
    match s.sender with
    | .idle =>
      some { s with buffers := Function.update s.buffers s.back (some value), sender := .wrote value }
    | _ => none
  | .swap =>
    match s.sender with
    | .wrote _ => some { s with state := (s.back <<< 1) ||| dirty, sender := .swapped s.state }
    | _ => none
  | .setBack =>
    match s.sender with
    | .swapped oldState => some { s with back := oldState >>> 1, sender := .idle }
    | _ => none
  | .isAbandoned =>
    match s.sender with
    | .idle => some s
    | _ => none
  | .drop =>
    match s.sender with
    | .idle => some { s with refcount := s.refcount - 1, sender := .released s.refcount }
    | _ => none
  | .endDrop =>
    match s.sender with
    | .released prev =>
      some { s with frees := if prev = 1 then s.frees + 1 else s.frees, sender := .gone }
    | _ => none

def receiverStep (s : Slot T) : ReceiverOp → Option (Slot T)
  | .load =>
    match s.receiver with
    | .idle => some { s with receiver := if s.isDirty then .loaded else .idle }
    | _ => none
  | .swap =>
    match s.receiver with
    | .loaded => some { s with state := s.front <<< 1, receiver := .swapped s.state }
    | _ => none
  | .setFront =>
    match s.receiver with
    | .swapped oldState =>
      some { s with front := oldState >>> 1, receiver := .moved (oldState >>> 1) }
    | _ => none
  | .take =>
    match s.receiver with
    | .moved newFront =>
      some { s with buffers := Function.update s.buffers newFront none, receiver := .idle }
    | _ => none
  | .isAbandoned =>
    match s.receiver with
    | .idle => some s
    | _ => none
  | .drop =>
    match s.receiver with
    | .idle => some { s with refcount := s.refcount - 1, receiver := .released s.refcount }
    | _ => none
  | .endDrop =>
    match s.receiver with
    | .released prev =>
      some { s with frees := if prev = 1 then s.frees + 1 else s.frees, receiver := .gone }
    | _ => none

def step (s : Slot T) : SlotLabel T → Option (Slot T)
  | .sender op => s.senderStep op
  | .receiver op => s.receiverStep op

/-- Everything a step can be. -/
inductive Step (s : Slot T) : SlotLabel T → Slot T → Prop
  | write {value} (hpc : s.sender = .idle) : Step s (.sender (.write value))
      { s with buffers := Function.update s.buffers s.back (some value), sender := .wrote value }
  | senderSwap {value} (hpc : s.sender = .wrote value) : Step s (.sender .swap)
      { s with state := (s.back <<< 1) ||| dirty, sender := .swapped s.state }
  | setBack {oldState} (hpc : s.sender = .swapped oldState) : Step s (.sender .setBack)
      { s with back := oldState >>> 1, sender := .idle }
  | senderIsAbandoned (hpc : s.sender = .idle) : Step s (.sender .isAbandoned) s
  | senderDrop (hpc : s.sender = .idle) : Step s (.sender .drop)
      { s with refcount := s.refcount - 1, sender := .released s.refcount }
  | senderEndDrop {prev} (hpc : s.sender = .released prev) : Step s (.sender .endDrop)
      { s with frees := if prev = 1 then s.frees + 1 else s.frees, sender := .gone }
  | load (hpc : s.receiver = .idle) : Step s (.receiver .load)
      { s with receiver := if s.isDirty then .loaded else .idle }
  | receiverSwap (hpc : s.receiver = .loaded) : Step s (.receiver .swap)
      { s with state := s.front <<< 1, receiver := .swapped s.state }
  | setFront {oldState} (hpc : s.receiver = .swapped oldState) : Step s (.receiver .setFront)
      { s with front := oldState >>> 1, receiver := .moved (oldState >>> 1) }
  | take {newFront} (hpc : s.receiver = .moved newFront) : Step s (.receiver .take)
      { s with buffers := Function.update s.buffers newFront none, receiver := .idle }
  | receiverIsAbandoned (hpc : s.receiver = .idle) : Step s (.receiver .isAbandoned) s
  | receiverDrop (hpc : s.receiver = .idle) : Step s (.receiver .drop)
      { s with refcount := s.refcount - 1, receiver := .released s.refcount }
  | receiverEndDrop {prev} (hpc : s.receiver = .released prev) : Step s (.receiver .endDrop)
      { s with frees := if prev = 1 then s.frees + 1 else s.frees, receiver := .gone }

theorem step_cases {s s' : Slot T} {label : SlotLabel T} (h : s.step label = some s') :
    Step s label s' := by
  rcases label with op | op
  · cases op <;> unfold step senderStep at h <;> dsimp only at h <;> split at h <;> cases h
    · exact .write ‹_›
    · exact .senderSwap ‹_›
    · exact .setBack ‹_›
    · exact .senderIsAbandoned ‹_›
    · exact .senderDrop ‹_›
    · exact .senderEndDrop ‹_›
  · cases op <;> unfold step receiverStep at h <;> dsimp only at h <;> split at h <;> cases h
    · exact .load ‹_›
    · exact .receiverSwap ‹_›
    · exact .setFront ‹_›
    · exact .take ‹_›
    · exact .receiverIsAbandoned ‹_›
    · exact .receiverDrop ‹_›
    · exact .receiverEndDrop ‹_›

/-- What `recv` returns, if it returns by this step. -/
def returned (s : Slot T) : ReceiverOp → Option (Option T)
  | .load => if s.isDirty then none else some none
  | .take =>
    match s.receiver with
    | .moved newFront => some (s.buffers newFront)
    | _ => none
  | _ => none

/-- The buffer that a step accesses with `get_unchecked`. -/
def accessed (s : Slot T) : SlotLabel T → Option UInt8
  | .sender (.write _) => some s.back
  | .receiver .take =>
    match s.receiver with
    | .moved newFront => some newFront
    | _ => none
  | _ => none

end Slot

end OrderbookAggregator
