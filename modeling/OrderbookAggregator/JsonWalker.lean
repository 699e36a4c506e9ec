import OrderbookAggregator.Library.Search
import OrderbookAggregator.Types

/-!
# The byte scanner

`src/json_walker.rs`. A scanner is a buffer and a cursor. Its readers return `None` on malformed
input and leave the cursor wherever the failure was noticed, so a reader is a function from a
scanner to an optional value and the scanner afterwards. Slicing the buffer from a cursor past its
end panics.

The loops of the source run while `pos < buf.len()`. Here they recurse on what the buffer holds from
the cursor on, which is empty exactly when that guard fails.
-/

namespace OrderbookAggregator

/-- `memmem::Finder`: finding a needle returns the index of its first occurrence. -/
structure Memmem where
  find : Bytes → Bytes → Option Nat
  find_spec : ∀ needle hay, Search.FirstOccurrence needle hay (find needle hay)

def Memmem.scan : Memmem := ⟨Search.firstMatch, Search.firstMatch_spec⟩

structure Scanner where
  buf : Bytes
  pos : Nat
  deriving DecidableEq

/-- A reader that may fail: `fn(&mut self) -> Option<α>`. -/
def Scan (α : Type) := Scanner → Exec (Option α × Scanner)

namespace Scan

variable {α β : Type}

protected def pure (a : α) : Scan α := fun s => .ok (some a, s)

/-- `x?` followed by the rest of the function. -/
protected def bind (x : Scan α) (f : α → Scan β) : Scan β := fun s =>
  match x s with
  | .error panic => .error panic
  | .ok (none, s') => .ok (none, s')
  | .ok (some a, s') => f a s'

instance : Monad Scan where
  pure := Scan.pure
  bind := Scan.bind

def fail : Scan α := fun s => .ok (none, s)

/-- The caller swallows the failure of a reader and goes on. -/
def attempt (x : Scan α) : Scan (Option α) := fun s =>
  match x s with
  | .error panic => .error panic
  | .ok (a, s') => .ok (some a, s')

/-- A reader that cannot fail. -/
def total (f : Scanner → α × Scanner) : Scan α := fun s => .ok (some (f s).1, (f s).2)

def rewind : Scan Unit := fun s => .ok (some (), { s with pos := 0 })

/-- A computation that neither reads nor moves the cursor. -/
def lift (x : Exec (Option α)) : Scan α := fun s =>
  match x with
  | .error panic => .error panic
  | .ok a => .ok (a, s)

end Scan

namespace Scanner

def new (json : Bytes) : Scanner := ⟨json, 0⟩

/-- What the buffer holds from the cursor on. -/
def rest (s : Scanner) : Bytes := s.buf.drop s.pos

def advance (s : Scanner) (n : Nat) : Scanner := { s with pos := s.pos + n }

def peek (s : Scanner) : Option UInt8 := s.buf[s.pos]?

def skipWs.loop : Bytes → Nat → Nat
  | [], pos => pos
  | byte :: rest, pos => if Ascii.isWs byte then loop rest (pos + 1) else pos

def skipWs (s : Scanner) : Scanner := { s with pos := skipWs.loop s.rest s.pos }

def expectByte (byte : UInt8) (s : Scanner) : Bool × Scanner :=
  if s.peek = some byte then (true, s.advance 1) else (false, s)

/-- `if !self.expect_byte(byte) { return None; }`. -/
def require (byte : UInt8) : Scan Unit := fun s =>
  match s.expectByte byte with
  | (true, s') => .ok (some (), s')
  | (false, s') => .ok (none, s')

/-- `seek`. The finder searches `&self.buf[self.pos..]`. -/
def seek (memmem : Memmem) (needle : Bytes) : Scan Unit := fun s =>
  if s.buf.length < s.pos then .error .sliceStart
  else
    match memmem.find needle s.rest with
    | none => .ok (none, s)
    | some offset => .ok (some (), s.advance (offset + needle.length))

/-- Whether `str::get` may cut before index `i`. -/
def isCharBoundary (src : Bytes) (i : Nat) : Bool :=
  match src[i]? with
  | some byte => byte < 128 ∨ 192 ≤ byte
  | none => i = src.length

/-- `src.get(start..stop)`. -/
def getSlice (src : Bytes) (start stop : Nat) : Option Bytes :=
  if start ≤ stop ∧ isCharBoundary src start ∧ isCharBoundary src stop then
    some ((src.take stop).drop start)
  else none

/-- The scan for the closing quote: whether there is one, and where the cursor ends. -/
def readString.loop : Bytes → Nat → Bool × Nat
  | [], pos => (false, pos)
  | byte :: rest, pos =>
    if byte = Ascii.quote then (true, pos)
    else if byte = Ascii.backslash then
      match rest with
      | [] => (false, pos + 2)
      | _ :: rest => loop rest (pos + 2)
    else loop rest (pos + 1)

/-- `read_string`: the raw content between the quotes, escapes left as they are. -/
def readString : Scan Bytes := fun s =>
  let s := s.skipWs
  if s.peek ≠ some Ascii.quote then .ok (none, s)
  else
    let s := s.advance 1
    let start := s.pos
    match readString.loop s.rest start with
    | (false, pos) => .ok (none, { s with pos })
    | (true, pos) =>
      match getSlice s.buf start pos with
      | none => .ok (none, { s with pos })
      | some result => .ok (some result, { s with pos := pos + 1 })

def readU64.loop : Bytes → (val pos : Nat) → Nat × Nat
  | [], val, pos => (val, pos)
  | byte :: rest, val, pos =>
    if 9 < digitOf byte then (val, pos)
    else
      match (checkedMulU64 val 10).bind (checkedAddU64 · (digitOf byte)) with
      | none => (0, pos)
      | some val => loop rest val (pos + 1)

/-- `read_u64`: 0 when there is no number, or one that does not fit. -/
def readU64 (s : Scanner) : Nat × Scanner :=
  let s := s.skipWs
  let (val, pos) := readU64.loop s.rest 0 s.pos
  (val, { s with pos })

namespace readQuotedDecimal

/-- The integer digits, up to a dot or a quote: the part read and the number of digits, and where
the cursor ends. -/
def intLoop : Bytes → (intPart intDigits pos : Nat) → Exec (Option (Nat × Nat) × Nat)
  | [], intPart, intDigits, pos => return (some (intPart, intDigits), pos)
  | byte :: rest, intPart, intDigits, pos =>
    if byte = Ascii.dot ∨ byte = Ascii.quote then return (some (intPart, intDigits), pos)
    else if 9 < digitOf byte then return (none, pos)
    else
      match (checkedMulU64 intPart 10).bind (checkedAddU64 · (digitOf byte)) with
      | none => return (none, pos)
      | some intPart => do
        let intDigits ← addU32 intDigits 1
        intLoop rest intPart intDigits (pos + 1)

/-- The first eight fractional digits, up to a quote. -/
def fracLoop : Bytes → (fracPart fracDigits pos : Nat) → Exec (Option (Nat × Nat) × Nat)
  | [], fracPart, fracDigits, pos => return (some (fracPart, fracDigits), pos)
  | byte :: rest, fracPart, fracDigits, pos =>
    if byte ≠ Ascii.quote ∧ fracDigits < 8 then
      if 9 < digitOf byte then return (none, pos)
      else do
        let shifted ← mulU64 fracPart 10
        let fracPart ← addU64 shifted (digitOf byte)
        let fracDigits ← addU32 fracDigits 1
        fracLoop rest fracPart fracDigits (pos + 1)
    else return (some (fracPart, fracDigits), pos)

/-- The fractional digits past the eighth, up to a quote. -/
def skipLoop : Bytes → Nat → Bool × Nat
  | [], pos => (true, pos)
  | byte :: rest, pos =>
    if byte ≠ Ascii.quote then
      if 9 < digitOf byte then (false, pos) else skipLoop rest (pos + 1)
    else (true, pos)

def intPart : Scan (Nat × Nat) := fun s => do
  let (result, pos) ← intLoop s.rest 0 0 s.pos
  return (result, { s with pos })

def fracDigits : Scan (Nat × Nat) := fun s => do
  let (result, pos) ← fracLoop s.rest 0 0 s.pos
  return (result, { s with pos })

def skipDigits : Scan Unit := fun s =>
  match skipLoop s.rest s.pos with
  | (true, pos) => .ok (some (), { s with pos })
  | (false, pos) => .ok (none, { s with pos })

/-- `if self.pos < self.buf.len() && self.buf[self.pos] == b'.'` and its body. -/
def fraction : Scan (Nat × Nat) := fun s =>
  match s.expectByte Ascii.dot with
  | (false, s) => .ok (some (0, 0), s)
  | (true, s) =>
    (do
      let read ← fracDigits
      skipDigits
      return read : Scan (Nat × Nat)) s

end readQuotedDecimal

open readQuotedDecimal in
def readQuotedDecimal : Scan FixedPoint := do
  require Ascii.quote
  let (intPart, intDigits) ← intPart
  let (fracPart, fracDigits) ← fraction
  if intDigits = 0 ∧ fracDigits = 0 then Scan.fail
  else
    require Ascii.quote
    Scan.lift (FixedPoint.combine intPart fracPart fracDigits)

def readLevel : Scan RawLevel := do
  require Ascii.openBracket
  let price ← readQuotedDecimal
  require Ascii.comma
  let amount ← readQuotedDecimal
  require Ascii.closeBracket
  return { price, amount }

end Scanner

/-! ### The cursor only moves forward

The loop over the levels of an array ends because every round moves the cursor. -/

/-- A reader leaves the buffer alone and does not move the cursor back. -/
def Scan.Forward {α : Type} (x : Scan α) : Prop :=
  ∀ ⦃s o s'⦄, x s = .ok (o, s') → s'.buf = s.buf ∧ s.pos ≤ s'.pos

namespace Scan

variable {α β : Type}

theorem bind_eq_ok {x : Scan α} {f : α → Scan β} {s s'' : Scanner} {o : Option β} :
    (x >>= f) s = .ok (o, s'') ↔
      (x s = .ok (none, s'') ∧ o = none) ∨ ∃ a s', x s = .ok (some a, s') ∧ f a s' = .ok (o, s'') := by
  change Scan.bind x f s = _ ↔ _
  unfold Scan.bind
  rcases x s with panic | ⟨_ | a, s'⟩
  · simp
  · simp [and_comm, eq_comm]
  · simp

theorem forward_pure (a : α) : Forward (pure a : Scan α) := by
  intro s o s' h
  cases h
  exact ⟨rfl, le_rfl⟩

theorem forward_fail : Forward (fail : Scan α) := by
  intro s o s' h
  cases h
  exact ⟨rfl, le_rfl⟩

theorem Forward.bind {x : Scan α} {f : α → Scan β} (hx : Forward x) (hf : ∀ a, Forward (f a)) :
    Forward (x >>= f) := by
  intro s o s'' h
  rcases bind_eq_ok.mp h with ⟨h, -⟩ | ⟨a, s', hxs, hfs⟩
  · exact hx h
  · obtain ⟨hbuf, hpos⟩ := hx hxs
    obtain ⟨hbuf', hpos'⟩ := hf a hfs
    exact ⟨hbuf'.trans hbuf, hpos.trans hpos'⟩

theorem forward_lift (x : Exec (Option α)) : Forward (lift x) := by
  intro s o s' h
  cases x <;> cases h
  exact ⟨rfl, le_rfl⟩

end Scan

namespace Scanner

theorem forward_require (byte : UInt8) : Scan.Forward (require byte) := by
  intro s o s' h
  unfold require expectByte at h
  split at h <;> rename_i heq <;> split at heq <;> cases heq <;> cases h
  · exact ⟨rfl, Nat.le_succ _⟩
  · exact ⟨rfl, le_rfl⟩

namespace readQuotedDecimal

theorem le_of_intLoop {rest : Bytes} {value digits pos pos' : Nat} {o : Option (Nat × Nat)}
    (h : intLoop rest value digits pos = .ok (o, pos')) : pos ≤ pos' := by
  induction rest generalizing value digits pos with
  | nil => cases h; exact le_rfl
  | cons byte rest ih =>
      unfold intLoop at h
      split at h
      · cases h; exact le_rfl
      split at h
      · cases h; exact le_rfl
      split at h
      · cases h; exact le_rfl
      unfold addU32 at h
      split at h
      · exact (Nat.le_succ pos).trans (ih h)
      · cases h

theorem le_of_fracLoop {rest : Bytes} {value digits pos pos' : Nat} {o : Option (Nat × Nat)}
    (h : fracLoop rest value digits pos = .ok (o, pos')) : pos ≤ pos' := by
  induction rest generalizing value digits pos with
  | nil => cases h; exact le_rfl
  | cons byte rest ih =>
      unfold fracLoop at h
      split at h
      · split at h
        · cases h; exact le_rfl
        · unfold mulU64 addU64 addU32 at h
          split at h
          · simp only [bind, Except.bind] at h
            split at h
            · cases h
            · split at h
              · cases h
              · exact (Nat.le_succ pos).trans (ih h)
          · cases h
      · cases h; exact le_rfl

theorem le_of_skipLoop {rest : Bytes} {pos : Nat} : pos ≤ (skipLoop rest pos).2 := by
  induction rest generalizing pos with
  | nil => exact le_rfl
  | cons byte rest ih =>
      unfold skipLoop
      split
      · split
        · exact le_rfl
        · exact (Nat.le_succ pos).trans ih
      · exact le_rfl

theorem forward_intPart : Scan.Forward intPart := by
  intro s o s' h
  unfold intPart at h
  cases hloop : intLoop s.rest 0 0 s.pos with
  | error panic => rw [hloop] at h; cases h
  | ok result =>
      rw [hloop] at h
      cases h
      exact ⟨rfl, le_of_intLoop hloop⟩

theorem forward_fracDigits : Scan.Forward fracDigits := by
  intro s o s' h
  unfold fracDigits at h
  cases hloop : fracLoop s.rest 0 0 s.pos with
  | error panic => rw [hloop] at h; cases h
  | ok result =>
      rw [hloop] at h
      cases h
      exact ⟨rfl, le_of_fracLoop hloop⟩

theorem forward_skipDigits : Scan.Forward skipDigits := by
  intro s o s' h
  unfold skipDigits at h
  have hle : s.pos ≤ (skipLoop s.rest s.pos).2 := le_of_skipLoop
  split at h <;> rename_i hloop <;> cases h <;> rw [hloop] at hle
  · exact ⟨rfl, hle⟩
  · exact ⟨rfl, hle⟩

theorem forward_fraction : Scan.Forward fraction := by
  intro s o s' h
  unfold fraction expectByte at h
  split at h <;> rename_i heq <;> split at heq <;> cases heq
  · cases h
    exact ⟨rfl, le_rfl⟩
  · have hbody := (forward_fracDigits.bind fun read =>
      forward_skipDigits.bind fun _ => Scan.forward_pure read) h
    exact ⟨hbody.1, (Nat.le_succ _).trans hbody.2⟩

end readQuotedDecimal

theorem forward_readQuotedDecimal : Scan.Forward readQuotedDecimal := by
  refine (forward_require _).bind fun _ => ?_
  refine readQuotedDecimal.forward_intPart.bind fun int => ?_
  refine readQuotedDecimal.forward_fraction.bind fun frac => ?_
  dsimp only
  split
  · exact Scan.forward_fail
  · exact (forward_require _).bind fun _ => Scan.forward_lift _

theorem forward_readLevel : Scan.Forward readLevel :=
  (forward_require _).bind fun _ => forward_readQuotedDecimal.bind fun _ =>
    (forward_require _).bind fun _ => forward_readQuotedDecimal.bind fun _ =>
      (forward_require _).bind fun _ => Scan.forward_pure _

theorem lt_length_of_peek {s : Scanner} {byte : UInt8} (h : s.peek = some byte) :
    s.pos < s.buf.length :=
  (List.getElem?_eq_some_iff.mp h).1

/-! ### Arrays of levels -/

/-- `amount.raw() != 0 && levels.try_push(..).is_err()`: `none` when that returns early. -/
def pushNonZero {N : Nat} (levels : ArrayVec RawLevel N) (level : RawLevel) :
    Option (ArrayVec RawLevel N) :=
  if level.amount.raw ≠ 0 then levels.tryPush level else some levels

set_option linter.unusedVariables false in
/-- The loop of `read_raw_levels`, one round for each level. -/
def readRawLevels.loop {N : Nat} (levels : ArrayVec RawLevel N) : Scan (ArrayVec RawLevel N) :=
  fun s =>
    match hlevel : readLevel s with
    | .error panic => .error panic
    | .ok (none, s') => .ok (none, s')
    | .ok (some level, s') =>
      match pushNonZero levels level with
      | none => .ok (some levels, s')
      | some levels' =>
        match hpeek : s'.peek with
        | none => .ok (none, s')
        | some byte =>
          if byte = Ascii.comma then
            if levels'.len = N then .ok (some levels', s'.advance 1)
            else loop levels' (s'.advance 1)
          else if byte = Ascii.closeBracket then .ok (some levels', s'.advance 1)
          else .ok (none, s')
termination_by s => s.buf.length - s.pos
decreasing_by
  have hforward := forward_readLevel hlevel
  have hlt := lt_length_of_peek hpeek
  simp only [advance, hforward.1] at hlt ⊢
  omega

/-- One round of the loop, as it stands in the source. -/
theorem readRawLevels.loop_eq {N : Nat} (levels : ArrayVec RawLevel N) (s : Scanner) :
    loop levels s =
      match readLevel s with
      | .error panic => .error panic
      | .ok (none, s') => .ok (none, s')
      | .ok (some level, s') =>
        match pushNonZero levels level with
        | none => .ok (some levels, s')
        | some levels' =>
          match s'.peek with
          | none => .ok (none, s')
          | some byte =>
            if byte = Ascii.comma then
              if levels'.len = N then .ok (some levels', s'.advance 1)
              else loop levels' (s'.advance 1)
            else if byte = Ascii.closeBracket then .ok (some levels', s'.advance 1)
            else .ok (none, s') := by
  conv => lhs; rw [loop]
  split <;> rename_i hlevel <;> rw [hlevel]
  dsimp only
  split
  · rfl
  · split <;> rename_i hpeek <;> rw [hpeek]

/-- `read_raw_levels`: keeps the first `N` levels whose amount is not zero. -/
def readRawLevels (N : Nat) : Scan (ArrayVec RawLevel N) := do
  require Ascii.openBracket
  fun s =>
    if s.peek = some Ascii.closeBracket then .ok (some .empty, s.advance 1)
    else readRawLevels.loop .empty s

/-- `read_optional_raw_levels`: no levels when the key is absent. -/
def readOptionalRawLevels (N : Nat) (memmem : Memmem) (needle : Bytes) :
    Scan (ArrayVec RawLevel N) := do
  match ← Scan.attempt (seek memmem needle) with
  | some _ => readRawLevels N
  | none => return .empty

end Scanner

/-- What a function does that runs `x` on a scanner of its own. -/
def Scan.eval {α : Type} (x : Scan α) (json : Bytes) : Exec (Option α) :=
  (x (Scanner.new json)).map Prod.fst

def extractString (memmem : Memmem) (json pattern : Bytes) : Exec (Option Bytes) :=
  Scan.eval (do
    Scanner.seek memmem pattern
    Scanner.readString) json

end OrderbookAggregator
