import OrderbookAggregator.Exchange.Adapter
import OrderbookAggregator.JsonWalker

/-!
# Binance

`src/exchange/binance.rs`: the walk over a `depth20` snapshot and the handler.
-/

namespace OrderbookAggregator.Binance

def lastUpdateIdKey : Bytes := bytes "\"lastUpdateId\":"

def bidsKey : Bytes := bytes "\"bids\":"

def asksKey : Bytes := bytes "\"asks\":"

/-- The readers of `walk`, in order. -/
def walkScan (memmem : Memmem) :
    Scan (Nat × ArrayVec RawLevel depth × ArrayVec RawLevel depth) := do
  let seq ← match ← Scan.attempt (Scanner.seek memmem lastUpdateIdKey) with
    | some _ => Scan.total Scanner.readU64
    | none => do
      Scan.rewind
      pure 0
  Scanner.seek memmem bidsKey
  let bids ← Scanner.readRawLevels depth
  Scanner.seek memmem asksKey
  let asks ← Scanner.readRawLevels depth
  return (seq, bids, asks)

def walk (memmem : Memmem) (json : Bytes) :
    Exec (Option (Nat × ArrayVec RawLevel depth × ArrayVec RawLevel depth)) :=
  (walkScan memmem).eval json

structure Handler where
  lastSeq : Nat
  deriving DecidableEq

def Handler.onConnected (_ : Handler) : Handler := ⟨0⟩

def Handler.processText (memmem : Memmem) (abandoned : Bool) (handler : Handler)
    (metrics : ExchangeMetrics) (frame : Frame) : Exec (Handled Handler) := do
  match ← walk memmem frame.text with
  | none => return handleParseError handler metrics
  | some (seq, bids, asks) =>
    return (handleSnapshot binanceId abandoned frame handler.lastSeq metrics seq bids asks).map
      Handler.mk

def wsUrl (symbol : Bytes) : Bytes :=
  bytes "wss://stream.binance.com:9443/ws/" ++ symbol ++ bytes "@depth20@100ms"

/-- Binance takes the symbol from the URL. -/
def wsHandler (memmem : Memmem) : WsHandler Handler where
  subscribeMessage _ _ := none
  onConnected := Handler.onConnected
  processText := Handler.processText memmem
  metrics_processText := by
    intro abandoned handler metrics frame out h
    rw [Handler.processText] at h
    cases hwalk : walk memmem frame.text with
    | error panic =>
        rw [hwalk] at h
        cases h
    | ok walked =>
        rw [hwalk] at h
        cases walked with
        | none =>
            cases h
            exact ⟨rfl, rfl⟩
        | some walked =>
            cases h
            exact handleSnapshot_metrics binanceId abandoned frame handler.lastSeq metrics _ _ _

end OrderbookAggregator.Binance
