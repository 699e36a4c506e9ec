import OrderbookAggregator.Machine

/-!
# Metrics

`src/metrics.rs`: the counters that the handlers and the merger write. Counters are `AtomicU64`s;
`fetch_add` wraps.
-/

namespace OrderbookAggregator

/-- `counter.fetch_add(n)`. -/
def fetchAddU64 (counter n : Nat) : Nat := (counter + n) % 2 ^ 64

/-- `BUCKETS`: upper bounds in nanoseconds and their `le` labels. -/
def buckets : List (Nat × String) :=
  [(100, "0.0000001"), (500, "0.0000005"), (1000, "0.000001"), (5000, "0.000005"),
    (10000, "0.00001"), (25000, "0.000025"), (50000, "0.00005"), (100000, "0.0001"),
    (250000, "0.00025"), (500000, "0.0005"), (1000000, "0.001"), (5000000, "0.005"),
    (10000000, "0.01"), (25000000, "0.025"), (50000000, "0.05"), (100000000, "0.1")]

def numBuckets : Nat := 16

/-- Counters that are not cumulative, the last of them for what exceeds every bound. -/
structure PromHistogram where
  buckets : Vector Nat (numBuckets + 1)
  sumNs : Nat
  count : Nat
  deriving DecidableEq

namespace PromHistogram

def new : PromHistogram := ⟨Vector.replicate _ 0, 0, 0⟩

/-- `u64::try_from(duration.as_nanos()).unwrap_or(u64::MAX)`. -/
def nanos (duration : Duration) : Nat := if duration < 2 ^ 64 then duration else 2 ^ 64 - 1

/-- The scan of the bound table for the first bound that is not exceeded. -/
def bucketIndex (nanos : Nat) : Nat :=
  OrderbookAggregator.buckets.findIdx fun bound => decide (nanos ≤ bound.1)

theorem bucketIndex_lt (nanos : Nat) : bucketIndex nanos < numBuckets + 1 :=
  Nat.lt_succ_of_le (List.findIdx_le_length)

/-- `self.buckets[idx].fetch_add(1)`. -/
def addBucket (h : PromHistogram) (duration : Duration) : PromHistogram :=
  let idx := bucketIndex (nanos duration)
  { h with
    buckets := h.buckets.set idx (fetchAddU64 (h.buckets.get ⟨idx, bucketIndex_lt _⟩) 1)
      (bucketIndex_lt _) }

/-- `self.sum_ns.fetch_add(nanos)`. -/
def addSum (h : PromHistogram) (duration : Duration) : PromHistogram :=
  { h with sumNs := fetchAddU64 h.sumNs (nanos duration) }

/-- `self.count.fetch_add(1)`. -/
def addCount (h : PromHistogram) : PromHistogram := { h with count := fetchAddU64 h.count 1 }

/-- A record without anything in between. -/
def record (h : PromHistogram) (duration : Duration) : PromHistogram :=
  let idx := bucketIndex (nanos duration)
  { buckets := h.buckets.set idx (fetchAddU64 (h.buckets.get ⟨idx, bucketIndex_lt _⟩) 1)
      (bucketIndex_lt _)
    sumNs := fetchAddU64 h.sumNs (nanos duration)
    count := fetchAddU64 h.count 1 }

theorem record_eq (h : PromHistogram) (duration : Duration) :
    h.record duration = ((h.addBucket duration).addSum duration).addCount := rfl

end PromHistogram

/-- The counters of one exchange. -/
structure ExchangeMetrics where
  messages : Nat
  errors : Nat
  reconnections : Nat
  connected : Bool
  decodeLatency : PromHistogram
  deriving DecidableEq

def ExchangeMetrics.new : ExchangeMetrics := ⟨0, 0, 0, false, .new⟩

end OrderbookAggregator
