import OrderbookAggregator.F64
import OrderbookAggregator.Histogram

/-!
# What the metrics server answers

`src/metrics.rs`: the answers to `/health` and `/metrics`. They are made of what the loads of the
atomics return, one after the other.
-/

namespace OrderbookAggregator

inductive StatusCode where
  | ok
  | serviceUnavailable
  deriving DecidableEq, Repr

/-- `health`, on what the loads of the connection flags return. -/
def health (flags : List Bool) : StatusCode × String :=
  let connected := (flags.filter id).length
  let total := flags.length
  if connected = total then (.ok, "OK\n")
  else if 0 < connected then (.ok, "DEGRADED\n")
  else (.serviceUnavailable, "DOWN\n")

/-! ### The page -/

/-- What the loads of one exchange's metrics return. -/
structure ExchangeLoads where
  name : Bytes
  messages : Nat
  errors : Nat
  reconnections : Nat
  connected : Bool
  decodeLatency : Rendered
  deriving DecidableEq

structure PageLoads where
  exchanges : List ExchangeLoads
  merges : Nat
  /-- `start_time.elapsed().as_secs()`. -/
  uptime : Nat
  e2eLatency : Rendered
  deriving DecidableEq

def writeLine (out line : Bytes) : Bytes := out ++ line ++ bytes "\n"

def writeHeader (out name help metricType : Bytes) : Bytes :=
  let out := writeLine out (bytes "# HELP " ++ name ++ bytes " " ++ help)
  writeLine out (bytes "# TYPE " ++ name ++ bytes " " ++ metricType)

def writePerExchange (out name help metricType : Bytes) (exchanges : List ExchangeLoads)
    (value : ExchangeLoads → Nat) : Bytes :=
  exchanges.foldl
    (fun out ex => writeLine out
      (name ++ bytes "\x7bexchange=\"" ++ ex.name ++ bytes "\"\x7d " ++ formatNat (value ex)))
    (writeHeader out name help metricType)

namespace Rendered

/-- The sum in seconds, as it is displayed. -/
def sumSecs (r : Rendered) : Bytes :=
  F64.display (F64.round (F64.round r.sumNs / F64.round 1000000000))

/-- The line of a bucket. -/
def writeBucket (name labels out le : Bytes) (value : Nat) : Bytes :=
  if labels = [] then
    writeLine out
      (name ++ bytes "_bucket\x7ble=\"" ++ le ++ bytes "\"\x7d " ++ formatNat value)
  else
    writeLine out
      (name ++ bytes "_bucket\x7b" ++ labels ++ bytes ",le=\"" ++ le ++ bytes "\"\x7d "
        ++ formatNat value)

/-- `render`, on what its loads return. -/
def write (r : Rendered) (name labels out : Bytes) : Bytes :=
  let out := r.buckets.foldl (fun out bucket => writeBucket name labels out (bytes bucket.1) bucket.2)
    out
  let out := writeBucket name labels out (bytes "+Inf") r.infinity
  if labels = [] then
    let out := writeLine out (name ++ bytes "_sum " ++ r.sumSecs)
    writeLine out (name ++ bytes "_count " ++ formatNat r.count)
  else
    let out := writeLine out (name ++ bytes "_sum\x7b" ++ labels ++ bytes "\x7d " ++ r.sumSecs)
    writeLine out (name ++ bytes "_count\x7b" ++ labels ++ bytes "\x7d " ++ formatNat r.count)

end Rendered

/-- `to_prometheus`, on what its loads return. -/
def toPrometheus (p : PageLoads) : Bytes :=
  let out := writePerExchange [] (bytes "orderbook_messages_total")
    (bytes "WebSocket messages received") (bytes "counter") p.exchanges (·.messages)
  let out := writePerExchange out (bytes "orderbook_errors_total")
    (bytes "Parse/connection errors") (bytes "counter") p.exchanges (·.errors)
  let out := writePerExchange out (bytes "orderbook_reconnections_total")
    (bytes "WebSocket reconnection attempts") (bytes "counter") p.exchanges (·.reconnections)
  let out := writeHeader out (bytes "orderbook_merges_total") (bytes "Order book merge operations")
    (bytes "counter")
  let out := writeLine out (bytes "orderbook_merges_total " ++ formatNat p.merges)
  let out := writePerExchange out (bytes "orderbook_exchange_up")
    (bytes "Exchange connection status (1=connected)") (bytes "gauge") p.exchanges
    (·.connected.toNat)
  let out := writeHeader out (bytes "orderbook_uptime_seconds") (bytes "Seconds since process start")
    (bytes "gauge")
  let out := writeLine out (bytes "orderbook_uptime_seconds " ++ formatNat p.uptime)
  let out := writeHeader out (bytes "orderbook_decode_duration_seconds")
    (bytes "WebSocket message decode latency") (bytes "histogram")
  let out := p.exchanges.foldl
    (fun out ex => ex.decodeLatency.write (bytes "orderbook_decode_duration_seconds")
      (bytes "exchange=\"" ++ ex.name ++ bytes "\"") out)
    out
  let out := writeHeader out (bytes "orderbook_e2e_duration_seconds")
    (bytes "End-to-end latency: WS receive to merged summary published") (bytes "histogram")
  p.e2eLatency.write (bytes "orderbook_e2e_duration_seconds") [] out

end OrderbookAggregator
