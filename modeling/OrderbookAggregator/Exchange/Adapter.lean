import OrderbookAggregator.Metrics
import OrderbookAggregator.Types

/-!
# Exchange adapters

`src/exchange/mod.rs`: what the two handlers share. A handler is fed text frames one by one. What it
sends to the slot is part of what a frame results in; the slot itself is modelled apart.
-/

namespace OrderbookAggregator

inductive HandleResult where
  | continue
  | reconnect
  | shutdown
  deriving DecidableEq, Repr

/-- A text frame, with the two clock readings taken while it is processed. -/
structure Frame where
  text : Bytes
  /-- When decoding started. -/
  start : Instant
  /-- When the decode latency was taken. -/
  decoded : Instant
  deriving DecidableEq

/-- Everything `process_text` leaves behind: its result, the handler and the metrics afterwards, and
the book it sent, if it sent one. -/
structure Handled (H : Type) where
  result : HandleResult
  handler : H
  metrics : ExchangeMetrics
  sent : Option OrderBook
  deriving DecidableEq

def Handled.map {H K : Type} (f : H → K) (out : Handled H) : Handled K :=
  { out with handler := f out.handler }

/-- `try_send_book`: whether the book was sent, and what was. -/
def trySendBook (abandoned : Bool) (book : OrderBook) : Bool × Option OrderBook :=
  if abandoned then (false, none) else (true, some book)

/-- The part of `process_text` on which the handlers agree word for word: drop a snapshot that is
stale or a duplicate, else remember its number, count it and send the book. `last` is the tracker of
the handler. -/
def handleSnapshot (exchangeId : ExchangeId) (abandoned : Bool) (frame : Frame) (last : Nat)
    (metrics : ExchangeMetrics) (seq : Nat) (bids asks : ArrayVec RawLevel depth) : Handled Nat :=
  if 0 < seq ∧ 0 < last ∧ seq ≤ last then
    { result := .continue
      handler := last
      metrics := { metrics with errors := fetchAddU64 metrics.errors 1 }
      sent := none }
  else
    let book : OrderBook := { exchangeId, bids, asks, decodeStart := frame.start }
    let metrics := { metrics with
      decodeLatency := metrics.decodeLatency.record (frame.decoded.since frame.start)
      messages := fetchAddU64 metrics.messages 1 }
    let (delivered, sent) := trySendBook abandoned book
    { result := if delivered then .continue else .shutdown, handler := seq, metrics, sent }

theorem handleSnapshot_metrics (exchangeId : ExchangeId) (abandoned : Bool) (frame : Frame)
    (last : Nat) (metrics : ExchangeMetrics) (seq : Nat) (bids asks : ArrayVec RawLevel depth) :
    (handleSnapshot exchangeId abandoned frame last metrics seq bids asks).metrics.connected
        = metrics.connected
      ∧ (handleSnapshot exchangeId abandoned frame last metrics seq bids asks).metrics.reconnections
        = metrics.reconnections := by
  rw [handleSnapshot]
  split <;> exact ⟨rfl, rfl⟩

/-- A frame that cannot be decoded is counted and skipped. -/
def handleParseError {H : Type} (handler : H) (metrics : ExchangeMetrics) : Handled H :=
  { result := .continue
    handler
    metrics := { metrics with errors := fetchAddU64 metrics.errors 1 }
    sent := none }

/-- `WsHandler`: what is specific to an exchange. The connection flag and the count of reconnections
are left to the loop that runs the handler. -/
structure WsHandler (H : Type) where
  subscribeMessage : H → (symbol : Bytes) → Option Bytes
  onConnected : H → H
  processText : (abandoned : Bool) → H → ExchangeMetrics → Frame → Exec (Handled H)
  metrics_processText : ∀ {abandoned handler metrics frame out},
    processText abandoned handler metrics frame = .ok out →
      out.metrics.connected = metrics.connected ∧ out.metrics.reconnections = metrics.reconnections

/-- The frames of a connection, one after the other, up to the first on which the code panics. -/
def runFrames {H : Type} (process : H → ExchangeMetrics → Frame → Exec (Handled H)) :
    H → ExchangeMetrics → List Frame → List (Handled H)
  | _, _, [] => []
  | handler, metrics, frame :: frames =>
    match process handler metrics frame with
    | .error _ => []
    | .ok out => out :: runFrames process out.handler out.metrics frames

end OrderbookAggregator
