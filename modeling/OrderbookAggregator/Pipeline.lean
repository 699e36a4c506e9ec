import OrderbookAggregator.Exchange.Binance
import OrderbookAggregator.Exchange.Bitstamp
import OrderbookAggregator.Exchange.WsLoop
import OrderbookAggregator.System

/-!
# The wired program

`src/main.rs`: for every exchange a thread that runs the reconnection loop and sends into the slot of
the exchange, the merger thread behind the slots, and the one token that cancels them all. A step of
the program is a step of one of the threads, or the cancellation.
-/

namespace OrderbookAggregator

structure Pipeline (k : Nat) (H : Fin k → Type) where
  loops : (e : Fin k) → WsLoop (H e)
  /-- In `process_text`: the book that is about to be sent. -/
  outbox : Fin k → Option OrderBook
  system : System k
  cancelled : Bool

inductive PipelineLabel (k : Nat) where
  /-- The shutdown signal. -/
  | cancel
  | loop (e : Fin k) (label : WsLabel)
  /-- A step of `send`, or the drop of the sender when the loop has returned. -/
  | sender (e : Fin k) (op : SenderOp Sent)
  | receiver (e : Fin k) (op : ReceiverOp)
  | isCancelled
  | publish (t0 t1 : Instant)
  deriving DecidableEq

/-- The book that a step of the loop sends, if it sends one. -/
def WsLoop.outgoing {H : Type} (ws : WsHandler H) (s : WsLoop H) : WsLabel → Option OrderBook
  | .read (.text frame abandoned) =>
    (ws.processText abandoned s.handler s.metrics frame).toOption.bind Handled.sent
  | _ => none

namespace Pipeline

variable {k : Nat} {H : Fin k → Type}

def start (handlers : (e : Fin k) → H e) : Pipeline k H :=
  { loops := fun e => .new (handlers e) .new false
    outbox := fun _ => none
    system := .start
    cancelled := false }

/-- The thread of the exchange is in `send`, or done with its sender. -/
def Busy (s : Pipeline k H) (e : Fin k) : Prop :=
  s.outbox e ≠ none ∨ (s.system.slots e).sender ≠ .idle

instance (s : Pipeline k H) (e : Fin k) : Decidable (s.Busy e) :=
  inferInstanceAs (Decidable (_ ∨ _))

/-- The loop goes on when nothing is left to send. A frame sees the slot as it is now; the token is
not cancelled by the loop itself. -/
def MayLoop (s : Pipeline k H) (e : Fin k) : WsLabel → Prop
  | .cancel => False
  | .read (.text _ abandoned) => abandoned = (s.system.slots e).isAbandoned ∧ ¬ s.Busy e
  | _ => ¬ s.Busy e

instance (s : Pipeline k H) (e : Fin k) : DecidablePred (s.MayLoop e)
  | .cancel => .isFalse not_false
  | .read (.text _ _) => inferInstanceAs (Decidable (_ ∧ _))
  | .read .cancelled | .read .other | .read .error | .read .ended | .start | .connect _
  | .subscribe _ | .backoff _ | .wake | .cutShort => inferInstanceAs (Decidable (¬ _))

/-- The sender is used for what `process_text` hands to it, and dropped when the loop returns. -/
def MaySend (s : Pipeline k H) (e : Fin k) : SenderOp Sent → Prop
  | .write (_, book) => s.outbox e = some book
  | .isAbandoned => False
  | .drop => (s.loops e).pc = .returned ∧ s.outbox e = none
  | .swap | .setBack | .endDrop => True

instance (s : Pipeline k H) (e : Fin k) : DecidablePred (s.MaySend e)
  | .write (_, _) => inferInstanceAs (Decidable (_ = _))
  | .isAbandoned => .isFalse not_false
  | .drop => inferInstanceAs (Decidable (_ ∧ _))
  | .swap | .setBack | .endDrop => .isTrue trivial

def setLoop (s : Pipeline k H) (e : Fin k) (loop : WsLoop (H e)) : Pipeline k H :=
  { s with loops := Function.update s.loops e loop }

/-- `send` is called with a book: the check of `is_abandoned` is passed. -/
def post (s : Pipeline k H) (e : Fin k) (book : OrderBook) : Option (Pipeline k H) :=
  (s.system.step (.producer e .isAbandoned)).map fun system =>
    { s with system, outbox := Function.update s.outbox e (some book) }

/-- The outbox after a step of the sender. -/
def sent (s : Pipeline k H) (e : Fin k) : SenderOp Sent → Fin k → Option OrderBook
  | .write _ => Function.update s.outbox e none
  | _ => s.outbox

variable (ws : (e : Fin k) → WsHandler (H e)) (symbol : Bytes)

def step (s : Pipeline k H) : PipelineLabel k → Option (Pipeline k H)
  | .cancel =>
    some { s with cancelled := true, loops := fun e => { s.loops e with cancelled := true } }
  | .loop e label =>
    if s.MayLoop e label then
      ((s.loops e).step (ws e) symbol label).bind fun loop =>
        match (s.loops e).outgoing (ws e) label with
        | none => some (s.setLoop e loop)
        | some book => (s.setLoop e loop).post e book
    else none
  | .sender e op =>
    if s.MaySend e op then
      (s.system.step (.producer e op)).map fun system => { s with system, outbox := s.sent e op }
    else none
  | .receiver e op => (s.system.step (.receiver e op)).map fun system => { s with system }
  | .isCancelled => (s.system.step (.isCancelled s.cancelled)).map fun system => { s with system }
  | .publish t0 t1 => (s.system.step (.publish t0 t1)).map fun system => { s with system }

/-- Everything a step can be. -/
inductive Step (s : Pipeline k H) : PipelineLabel k → Pipeline k H → Prop
  | cancel : Step s .cancel
      { s with cancelled := true, loops := fun e => { s.loops e with cancelled := true } }
  | loop {e label loop} (hmay : s.MayLoop e label)
      (hloop : (s.loops e).step (ws e) symbol label = some loop)
      (hbook : (s.loops e).outgoing (ws e) label = none) :
      Step s (.loop e label) (s.setLoop e loop)
  | post {e label loop book system} (hmay : s.MayLoop e label)
      (hloop : (s.loops e).step (ws e) symbol label = some loop)
      (hbook : (s.loops e).outgoing (ws e) label = some book)
      (hsystem : s.system.step (.producer e .isAbandoned) = some system) :
      Step s (.loop e label)
        { s.setLoop e loop with system, outbox := Function.update s.outbox e (some book) }
  | sender {e op system} (hmay : s.MaySend e op)
      (hsystem : s.system.step (.producer e op) = some system) :
      Step s (.sender e op) { s with system, outbox := s.sent e op }
  | receiver {e op system} (hsystem : s.system.step (.receiver e op) = some system) :
      Step s (.receiver e op) { s with system }
  | isCancelled {system} (hsystem : s.system.step (.isCancelled s.cancelled) = some system) :
      Step s .isCancelled { s with system }
  | publish {t0 t1 system} (hsystem : s.system.step (.publish t0 t1) = some system) :
      Step s (.publish t0 t1) { s with system }

variable {ws symbol}

theorem step_cases {s s' : Pipeline k H} {label : PipelineLabel k}
    (h : s.step ws symbol label = some s') : Step ws symbol s label s' := by
  cases label with
  | cancel =>
      cases h
      exact .cancel
  | loop e label =>
      rw [step] at h
      split_ifs at h with hmay
      obtain ⟨loop, hloop, h⟩ := Option.bind_eq_some_iff.mp h
      cases hbook : (s.loops e).outgoing (ws e) label with
      | none =>
          rw [hbook] at h
          cases h
          exact .loop hmay hloop hbook
      | some book =>
          rw [hbook] at h
          obtain ⟨system, hsystem, rfl⟩ := Option.map_eq_some_iff.mp h
          exact .post hmay hloop hbook hsystem
  | sender e op =>
      rw [step] at h
      split_ifs at h with hmay
      obtain ⟨system, hsystem, rfl⟩ := Option.map_eq_some_iff.mp h
      exact .sender hmay hsystem
  | receiver e op =>
      obtain ⟨system, hsystem, rfl⟩ := Option.map_eq_some_iff.mp h
      exact .receiver hsystem
  | isCancelled =>
      obtain ⟨system, hsystem, rfl⟩ := Option.map_eq_some_iff.mp h
      exact .isCancelled hsystem
  | publish t0 t1 =>
      obtain ⟨system, hsystem, rfl⟩ := Option.map_eq_some_iff.mp h
      exact .publish hsystem

end Pipeline

/-! ### The exchanges -/

def binance : Fin 2 := ⟨0, Nat.two_pos⟩

def bitstamp : Fin 2 := ⟨1, Nat.one_lt_two⟩

/-- The handlers, in the order in which `main` wires them. -/
def Adapter : Fin 2 → Type
  | 0 => Binance.Handler
  | 1 => Bitstamp.Handler

def adapters (memmem : Memmem) : (e : Fin 2) → WsHandler (Adapter e)
  | 0 => Binance.wsHandler memmem
  | 1 => Bitstamp.wsHandler memmem

/-- `BinanceHandler::new()` and `BitstampHandler::new()`. -/
def newAdapters : (e : Fin 2) → Adapter e
  | 0 => (⟨0⟩ : Binance.Handler)
  | 1 => (⟨0⟩ : Bitstamp.Handler)

/-- The program right after the threads are spawned. -/
def Pipeline.wired : Pipeline 2 Adapter := .start newAdapters

end OrderbookAggregator
