import OrderbookAggregator.Machine

/-!
# Domain types

`src/types.rs`: fixed-point numbers, price levels, the book of one exchange and the merged summary.
-/

namespace OrderbookAggregator

/-- Levels per side, in the book of an exchange and in the merged output. -/
def depth : Nat := 10

/-- A decimal with eight fractional digits: `raw * 10^-8`, in a `u64`. -/
structure FixedPoint where
  raw : Nat
  lt : raw < 2 ^ 64
  deriving DecidableEq

@[ext]
theorem FixedPoint.ext {a b : FixedPoint} (h : a.raw = b.raw) : a = b := by
  cases a; cases b; cases h; rfl

/-- `Ord` on the raw value. -/
def FixedPoint.cmp (a b : FixedPoint) : Ordering := compare a.raw b.raw

def pow10 : List Nat :=
  [1, 10, 100, 1000, 10000, 100000, 1000000, 10000000, 100000000]

def scale : Nat := 100000000

/-- The last lines of both decimal parsers: pad the fraction, scale the integer part, add. -/
def FixedPoint.combine (intPart fracPart fracDigits : Nat) : Exec (Option FixedPoint) := do
  let missing ← subU32 8 fracDigits
  let power ← indexed pow10 missing
  let padded ← mulU64 fracPart power
  match checkedMulU64 intPart scale with
  | none => return none
  | some scaled =>
    if h : scaled + padded < 2 ^ 64 then return some ⟨scaled + padded, h⟩ else return none

namespace FixedPoint.parse

/-- `while i < bytes.len() && bytes[i] != b'.'`: the integer part, the index and what is left. -/
def intLoop : Bytes → (intPart i : Nat) → Option (Nat × Nat × Bytes)
  | [], intPart, i => some (intPart, i, [])
  | byte :: rest, intPart, i =>
    if byte = Ascii.dot then some (intPart, i, byte :: rest)
    else if 9 < digitOf byte then none
    else
      match (checkedMulU64 intPart 10).bind (checkedAddU64 · (digitOf byte)) with
      | none => none
      | some intPart => intLoop rest intPart (i + 1)

/-- `while i < bytes.len() && frac_digits < 8`. -/
def fracLoop : Bytes → (fracPart fracDigits : Nat) → Exec (Option (Nat × Nat × Bytes))
  | [], fracPart, fracDigits => return some (fracPart, fracDigits, [])
  | byte :: rest, fracPart, fracDigits =>
    if fracDigits < 8 then
      if 9 < digitOf byte then return none
      else do
        let shifted ← mulU64 fracPart 10
        let fracPart ← addU64 shifted (digitOf byte)
        let fracDigits ← addU32 fracDigits 1
        fracLoop rest fracPart fracDigits
    else return some (fracPart, fracDigits, byte :: rest)

/-- The loop over the digits past the eighth, which only have to be digits. -/
def skipLoop : Bytes → Bool
  | [] => true
  | byte :: rest => if 9 < digitOf byte then false else skipLoop rest

/-- What follows the integer part: nothing, or a dot and the fraction. -/
def fraction : Bytes → Exec (Option (Nat × Nat))
  | [] => return some (0, 0)
  | byte :: rest =>
    if byte = Ascii.dot then do
      match ← fracLoop rest 0 0 with
      | none => return none
      | some (fracPart, fracDigits, rest) =>
        return if skipLoop rest then some (fracPart, fracDigits) else none
    else return some (0, 0)

end FixedPoint.parse

def FixedPoint.parse (text : Bytes) : Exec (Option FixedPoint) :=
  if text = [] then return none
  else
    match parse.intLoop text 0 0 with
    | none => return none
    | some (intPart, intDigits, rest) => do
      match ← parse.fraction rest with
      | none => return none
      | some (fracPart, fracDigits) =>
        if intDigits = 0 ∧ fracDigits = 0 then return none
        else combine intPart fracPart fracDigits

/-- The byte of a digit below ten. -/
def digitByte (digit : Nat) : UInt8 := Ascii.zero + UInt8.ofNat digit

/-- `{n}` for an unsigned integer: its decimal digits, the most significant first. -/
def formatNat (n : Nat) : Bytes :=
  if n = 0 then [Ascii.zero] else (Nat.digits 10 n).reverse.map digitByte

/-- `Display`: `write!(f, "{int}.{frac:08}")`. -/
def FixedPoint.display (x : FixedPoint) : Bytes :=
  let int := x.raw / scale
  let frac := x.raw % scale
  formatNat int ++ [Ascii.dot] ++ (formatNat frac).leftpad 8 Ascii.zero

/-- Compact exchange identifier, a `u8`. -/
abbrev ExchangeId := UInt8

/-- A price and an amount, without the exchange. -/
structure RawLevel where
  price : FixedPoint
  amount : FixedPoint
  deriving DecidableEq

/-- A price level with its exchange. -/
structure Level where
  price : FixedPoint
  amount : FixedPoint
  exchangeId : ExchangeId
  deriving DecidableEq

/-- One exchange's snapshot. -/
structure OrderBook where
  exchangeId : ExchangeId
  bids : ArrayVec RawLevel depth
  asks : ArrayVec RawLevel depth
  decodeStart : Instant
  deriving DecidableEq

/-- The merged top of book. `spreadRaw` is best ask minus best bid, zero when a side is empty. -/
structure Summary where
  spreadRaw : Int
  bids : ArrayVec Level depth
  asks : ArrayVec Level depth
  deriving DecidableEq

def exchanges : List String := ["binance", "bitstamp"]

def binanceId : ExchangeId := 0

def bitstampId : ExchangeId := 1

end OrderbookAggregator
