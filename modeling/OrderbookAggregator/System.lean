import OrderbookAggregator.AtomicSlot
import OrderbookAggregator.Merger

/-!
# Producers, slots and the merger

One producer for each slot, and the merger thread that polls the slots in order. Every step of a
slot is a step of the system, so all interleavings of the threads are runs.

A slot does not look at what it carries. Here it carries the book together with its index among the
books of its producer, so that one can tell of a book that comes out which of the books that went in
it is.
-/

namespace OrderbookAggregator

/-- The payload of a slot: the index of a book among those of its producer, and the book. -/
abbrev Sent := Nat × OrderBook

structure System (k : Nat) where
  slots : Fin k → Slot Sent
  /-- In `try_send_book`: the check of `is_abandoned` is passed and the book is not yet sent. -/
  cleared : Fin k → Bool
  /-- How many books the producer has sent. -/
  sends : Fin k → Nat
  merger : Merger

inductive SystemLabel (k : Nat) where
  /-- A step of `try_send_book`, or of the drop of the sender. -/
  | producer (e : Fin k) (op : SenderOp Sent)
  /-- A step of the merger in `is_abandoned` or `recv`, or the drop of a receiver. -/
  | receiver (e : Fin k) (op : ReceiverOp)
  | isCancelled (cancelled : Bool)
  | publish (t0 t1 : Instant)
  deriving DecidableEq

namespace System

variable {k : Nat}

def start : System k :=
  { slots := fun _ => .new, cleared := fun _ => false, sends := fun _ => 0, merger := .start }

/-- What a producer may do now. It sends books of its own exchange, each right after the check. -/
def MayProduce (s : System k) (e : Fin k) : SenderOp Sent → Prop
  | .write (index, book) =>
    s.cleared e = true ∧ index = s.sends e ∧ book.exchangeId.toNat = e
  | .isAbandoned | .drop => s.cleared e = false
  | _ => True

instance (s : System k) (e : Fin k) : DecidablePred (s.MayProduce e)
  | .write (_, _) => inferInstanceAs (Decidable (_ ∧ _ ∧ _))
  | .isAbandoned | .drop => inferInstanceAs (Decidable (_ = _))
  | .swap | .setBack | .endDrop => .isTrue trivial

def produce (s : System k) (e : Fin k) (op : SenderOp Sent) (slot : Slot Sent) : System k :=
  { s with
    slots := Function.update s.slots e slot
    cleared := match op with
      | .isAbandoned => Function.update s.cleared e (!(s.slots e).isAbandoned)
      | .write _ => Function.update s.cleared e false
      | _ => s.cleared
    sends := match op with
      | .write _ => Function.update s.sends e (s.sends e + 1)
      | _ => s.sends }

/-- Where the merger has to stand for a step of a receiver. The receivers are dropped when the loop
is left. -/
def MayReceive (s : System k) (e : Fin k) : ReceiverOp → Prop
  | .isAbandoned => s.merger.pc = .checking e
  | .load | .swap | .setFront | .take => s.merger.pc = .polling e
  | .drop | .endDrop => ∃ reason, s.merger.pc = .exited reason

instance (s : System k) (e : Fin k) : DecidablePred (s.MayReceive e)
  | .isAbandoned | .load | .swap | .setFront | .take => inferInstanceAs (Decidable (_ = _))
  | .drop | .endDrop =>
    match h : s.merger.pc with
    | .exited reason => .isTrue ⟨reason, h⟩
    | .loopHead | .checking _ | .polling _ | .received _ _ =>
      .isFalse fun ⟨_, hreason⟩ => by rw [h] at hreason; cases hreason

/-- What the merger learns by a step of a receiver. -/
def learned (slot : Slot Sent) : ReceiverOp → Option MergerLabel
  | .isAbandoned => some (.isAbandoned slot.isAbandoned)
  | op => (slot.returned op).map fun result => .recv (result.map Prod.snd)

/-- The merger makes the step, if there is one. -/
def advance (merger : Merger) (k : Nat) : Option MergerLabel → Option Merger
  | none => some merger
  | some label => merger.step k label

def step (s : System k) : SystemLabel k → Option (System k)
  | .producer e op =>
    if s.MayProduce e op then ((s.slots e).senderStep op).map (s.produce e op) else none
  | .receiver e op =>
    if s.MayReceive e op then
      ((s.slots e).receiverStep op).bind fun slot =>
        (advance s.merger k (learned (s.slots e) op)).map fun merger =>
          { s with slots := Function.update s.slots e slot, merger }
    else none
  | .isCancelled cancelled =>
    (s.merger.step k (.isCancelled cancelled)).map fun merger => { s with merger }
  | .publish t0 t1 => (s.merger.step k (.publish t0 t1)).map fun merger => { s with merger }

/-- Everything a step can be. -/
inductive Step (s : System k) : SystemLabel k → System k → Prop
  | producer {e op slot} (hmay : s.MayProduce e op)
      (hslot : (s.slots e).senderStep op = some slot) :
      Step s (.producer e op) (s.produce e op slot)
  | receiver {e op slot merger} (hmay : s.MayReceive e op)
      (hslot : (s.slots e).receiverStep op = some slot)
      (hmerger : advance s.merger k (learned (s.slots e) op) = some merger) :
      Step s (.receiver e op) { s with slots := Function.update s.slots e slot, merger }
  | isCancelled {cancelled merger} (hmerger : s.merger.step k (.isCancelled cancelled) = some merger) :
      Step s (.isCancelled cancelled) { s with merger }
  | publish {t0 t1 merger} (hmerger : s.merger.step k (.publish t0 t1) = some merger) :
      Step s (.publish t0 t1) { s with merger }

theorem step_cases {s s' : System k} {label : SystemLabel k} (h : s.step label = some s') :
    Step s label s' := by
  cases label with
  | producer e op =>
      rw [step] at h
      split at h
      · rename_i hmay
        obtain ⟨slot, hslot, rfl⟩ := Option.map_eq_some_iff.mp h
        exact .producer hmay hslot
      · cases h
  | receiver e op =>
      rw [step] at h
      split at h
      · rename_i hmay
        obtain ⟨slot, hslot, h⟩ := Option.bind_eq_some_iff.mp h
        obtain ⟨merger, hmerger, rfl⟩ := Option.map_eq_some_iff.mp h
        exact .receiver hmay hslot hmerger
      · cases h
  | isCancelled cancelled =>
      obtain ⟨merger, hmerger, rfl⟩ := Option.map_eq_some_iff.mp h
      exact .isCancelled hmerger
  | publish t0 t1 =>
      obtain ⟨merger, hmerger, rfl⟩ := Option.map_eq_some_iff.mp h
      exact .publish hmerger

end System

end OrderbookAggregator
