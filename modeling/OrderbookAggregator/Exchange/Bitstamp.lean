import OrderbookAggregator.Exchange.Adapter
import OrderbookAggregator.JsonWalker

/-!
# Bitstamp

`src/exchange/bitstamp.rs`: the walk over an `order_book` message and the handler.
-/

namespace OrderbookAggregator.Bitstamp

def bidsKey : Bytes := bytes "\"bids\":"

def asksKey : Bytes := bytes "\"asks\":"

def eventKey : Bytes := bytes "\"event\":"

def microtimestampKey : Bytes := bytes "\"microtimestamp\":"

def parseU64.loop : Bytes → Nat → Option Nat
  | [], val => some val
  | byte :: rest, val =>
    if 9 < digitOf byte then none
    else (checkedMulU64 val 10).bind (checkedAddU64 · (digitOf byte)) |>.bind (loop rest)

/-- `str::parse::<u64>`: digits, after a plus sign or none. -/
def parseU64 (text : Bytes) : Option Nat :=
  let digits := if text.head? = some Ascii.plus then text.tail else text
  if digits = [] then none else parseU64.loop digits 0

/-- The readers of `walk`, in order. -/
def walkScan (memmem : Memmem) :
    Scan (Bytes × Nat × ArrayVec RawLevel depth × ArrayVec RawLevel depth) := do
  let hasData := (← Scan.attempt (Scanner.seek memmem microtimestampKey)).isSome
  let micro ← if hasData then do
      let text ← Scan.attempt Scanner.readString
      pure ((text.bind parseU64).getD 0)
    else do
      Scan.rewind
      pure 0
  let bids ← Scanner.readOptionalRawLevels depth memmem bidsKey
  let asks ← Scanner.readOptionalRawLevels depth memmem asksKey
  if hasData then
    return (bytes "data", micro, bids, asks)
  else
    Scan.rewind
    Scanner.seek memmem eventKey
    let event ← Scanner.readString
    return (event, micro, bids, asks)

def walk (memmem : Memmem) (json : Bytes) :
    Exec (Option (Bytes × Nat × ArrayVec RawLevel depth × ArrayVec RawLevel depth)) :=
  (walkScan memmem).eval json

structure Handler where
  lastMicro : Nat
  deriving DecidableEq

def Handler.onConnected (_ : Handler) : Handler := ⟨0⟩

def Handler.processText (memmem : Memmem) (abandoned : Bool) (handler : Handler)
    (metrics : ExchangeMetrics) (frame : Frame) : Exec (Handled Handler) := do
  match ← walk memmem frame.text with
  | none => return handleParseError handler metrics
  | some (event, micro, bids, asks) =>
    if event = bytes "data" then
      return (handleSnapshot bitstampId abandoned frame handler.lastMicro metrics micro bids asks).map
        Handler.mk
    else if event = bytes "bts:subscription_succeeded" then
      return { result := .continue, handler, metrics, sent := none }
    else if event = bytes "bts:error" then do
      -- the message is only logged
      let _ ← extractString memmem frame.text (bytes "\"message\":")
      return {
        result := .reconnect
        handler
        metrics := { metrics with errors := fetchAddU64 metrics.errors 1 }
        sent := none }
    else return { result := .continue, handler, metrics, sent := none }

def wsHandler (memmem : Memmem) : WsHandler Handler where
  subscribeMessage _ symbol :=
    some (bytes "\x7b\"event\":\"bts:subscribe\",\"data\":\x7b\"channel\":\"order_book_"
      ++ symbol ++ bytes "\"\x7d\x7d")
  onConnected := Handler.onConnected
  processText := Handler.processText memmem
  metrics_processText := by
    intro abandoned handler metrics frame out h
    rw [Handler.processText] at h
    cases hwalk : walk memmem frame.text with
    | error panic =>
        rw [hwalk] at h
        cases h
    | ok walked =>
        rw [hwalk] at h
        rcases walked with _ | ⟨event, micro, bids, asks⟩
        · cases h
          exact ⟨rfl, rfl⟩
        · rw [Exec.ok_bind] at h
          dsimp only at h
          split_ifs at h
          · cases h
            exact handleSnapshot_metrics bitstampId abandoned frame handler.lastMicro metrics _ _ _
          · cases h
            exact ⟨rfl, rfl⟩
          · cases hmessage : extractString memmem frame.text (bytes "\"message\":") with
            | error panic =>
                rw [hmessage] at h
                cases h
            | ok message =>
                rw [hmessage] at h
                cases h
                exact ⟨rfl, rfl⟩
          · cases h
            exact ⟨rfl, rfl⟩

/-- `parse_order_book_json`; `start` is the clock reading that it stamps the book with. -/
def parseOrderBookJson (memmem : Memmem) (start : Instant) (json : Bytes) :
    Exec (Option OrderBook) := do
  match ← walk memmem json with
  | none => return none
  | some (event, _, bids, asks) =>
    if event ≠ bytes "data" then return none
    else return some { exchangeId := bitstampId, bids, asks, decodeStart := start }

end OrderbookAggregator.Bitstamp
