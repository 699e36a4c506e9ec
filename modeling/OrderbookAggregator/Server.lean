import OrderbookAggregator.Types

/-!
# The server

`src/lib.rs` and `src/server.rs`: the names of the exchanges and the conversion of a summary into the
message that clients get. Prices and amounts become floating-point numbers there; which ones is left
open.
-/

namespace OrderbookAggregator

def exchangeName (id : ExchangeId) : Exec String := indexed exchanges id.toNat

/-- `proto::Level`. -/
structure ProtoLevel (F : Type) where
  exchange : String
  price : F
  amount : F

/-- `proto::Summary`. -/
structure ProtoSummary (F : Type) where
  spread : F
  bids : List (ProtoLevel F)
  asks : List (ProtoLevel F)

section ToProto

variable {F : Type} (toF64 : FixedPoint → F) (spreadToF64 : Int → F)

/-- The closure `cvt` of `to_proto`. -/
def toProtoLevel (level : Level) : Exec (ProtoLevel F) := do
  let exchange ← exchangeName level.exchangeId
  return { exchange, price := toF64 level.price, amount := toF64 level.amount }

def toProto (summary : Summary) : Exec (ProtoSummary F) := do
  let spread := spreadToF64 summary.spreadRaw
  let bids ← summary.bids.toList.mapM (toProtoLevel toF64)
  let asks ← summary.asks.toList.mapM (toProtoLevel toF64)
  return { spread, bids, asks }

end ToProto

end OrderbookAggregator
