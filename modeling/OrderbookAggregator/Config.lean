import OrderbookAggregator.Machine

/-!
# Configuration

`src/config.rs`: the check of the trading pair.
-/

namespace OrderbookAggregator

def isAsciiLowercase (byte : UInt8) : Bool := 97 ≤ byte ∧ byte ≤ 122

def isAsciiUppercase (byte : UInt8) : Bool := 65 ≤ byte ∧ byte ≤ 90

def isAsciiDigit (byte : UInt8) : Bool := 48 ≤ byte ∧ byte ≤ 57

/-- No byte of a character beyond ASCII is alphanumeric. -/
def isAsciiAlphanumeric (byte : UInt8) : Bool :=
  isAsciiLowercase byte || isAsciiUppercase byte || isAsciiDigit byte

/-- `to_lowercase`, on what is known to be ASCII. -/
def toLowercase (s : Bytes) : Bytes :=
  s.map fun byte => if isAsciiUppercase byte then byte + 32 else byte

/-- `validate_symbol`: the symbol in lower case, or the text of the error. -/
def validateSymbol (s : Bytes) : Except Bytes Bytes :=
  if s = [] then .error (bytes "symbol cannot be empty")
  else if !s.all isAsciiAlphanumeric then
    .error (bytes "symbol must be alphanumeric, got: " ++ s)
  else .ok (toLowercase s)

def defaultSymbol : Bytes := bytes "ethbtc"

end OrderbookAggregator
