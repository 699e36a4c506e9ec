import OrderbookAggregator.Exchange.Binance
import OrderbookAggregator.Proof.Cursor

/-!
# Decoding Binance snapshots

The walk undoes the encoding of a snapshot, whatever else stands in the message. On any other text it
still ends without a panic, and no operation takes the cursor out of the buffer.
-/

namespace OrderbookAggregator.Binance

open Scanner Scan

/-- Behind the number comes no digit, be it the next key. -/
theorem head?_mid_append {mid rest : Bytes} (hmid : ∀ b ∈ mid.head?, ¬ IsDigit b) :
    ∀ b ∈ (mid ++ (bidsKey ++ rest)).head?, ¬ IsDigit b := by
  cases mid with
  | nil =>
      have hkey : bidsKey = Ascii.quote :: bidsKey.tail := by decide
      rw [hkey]
      intro b hb
      obtain rfl : Ascii.quote = b := Option.some_inj.mp hb
      exact not_isDigit_quote
  | cons byte mid => exact hmid

/-- **Decoding a snapshot.** Whatever stands around the three fields, the walk returns the number
and, of each side, the first ten levels that count. -/
theorem walk_snapshot (memmem : Memmem) {seq : Nat} {digits before mid mid' behind text : Bytes}
    {bidTexts askTexts : List (Bytes × Bytes)} {bids asks : List RawLevel}
    (hseq : seq < 2 ^ 64) (hdigits : Decimal seq digits) (hmid : ∀ b ∈ mid.head?, ¬ IsDigit b)
    (hbids : List.Forall₂ Spells bidTexts bids) (hasks : List.Forall₂ Spells askTexts asks)
    (htext : text = before ++ lastUpdateIdKey ++ digits ++ mid ++ bidsKey ++ arrayText bidTexts
      ++ mid' ++ asksKey ++ arrayText askTexts ++ behind)
    (hsize : text.length < 2 ^ 32)
    (honlySeq : ∃! i, Search.OccursAt lastUpdateIdKey text i)
    (honlyBids : ∃! i, Search.OccursAt bidsKey text i)
    (honlyAsks : ∃! i, Search.OccursAt asksKey text i) :
    walk memmem text
      = .ok (some (seq, firstNonZero depth bids, firstNonZero depth asks)) := by
  obtain ⟨s, hseek, hbuf, hpos, hrest⟩ := @seek_of_occursOnlyAt memmem lastUpdateIdKey before
    (digits ++ (mid ++ (bidsKey ++ (arrayText bidTexts ++ (mid' ++ (asksKey
      ++ (arrayText askTexts ++ behind))))))) (Scanner.new text)
    (by simp [Scanner.new, htext]) honlySeq (Nat.zero_le _)
  have hsmall : s.Small := Small.of_buf_eq (show (Scanner.new text).Small from hsize) hbuf
  have hread := reads_readU64 hdigits hseq (head?_mid_append hmid) s hsmall hrest
  obtain ⟨s₁, s₂, s₃, s₄, hseek₁, hread₁, hseek₃, hread₃⟩ := @seek_both_sides memmem bidsKey asksKey
    (before ++ lastUpdateIdKey ++ digits ++ mid) mid' behind bidTexts askTexts bids asks hbids hasks
    (s.advance digits.length) hsmall (by simp [hbuf, Scanner.new, htext])
    (by rwa [buf_advance, hbuf]) (by rwa [buf_advance, hbuf]) (by simp [hpos]; omega)
  have hwalk : walkScan memmem (Scanner.new text)
      = .ok (some (seq, firstNonZero depth bids, firstNonZero depth asks), s₄) := by
    unfold walkScan
    rw [bind_of_some (attempt_of_ok hseek)]
    dsimp only
    rw [bind_of_some hread, bind_of_some hseek₁, bind_of_some hread₁, bind_of_some hseek₃,
      bind_of_some hread₃]
    rfl
  rw [walk, Scan.eval, hwalk]
  rfl

def sampleSnapshot : Bytes :=
  bytes "\x7b\"lastUpdateId\":7,\"bids\":[[\"4\",\"1\"]],\"asks\":[[\"5\",\"2.5\"]]\x7d"

/-- Twelve levels a side, one of them of no amount. -/
def deepSnapshot : Bytes :=
  bytes "\x7b" ++ lastUpdateIdKey ++ bytes "7" ++ bytes "," ++ bidsKey
    ++ arrayText (bidPrices.map textAt) ++ bytes "," ++ asksKey ++ arrayText (askPrices.map textAt)
    ++ bytes "\x7d"

theorem walk_deepSnapshot :
    walk .scan deepSnapshot
      = .ok (some (7, firstNonZero depth (bidPrices.map levelAt),
        firstNonZero depth (askPrices.map levelAt))) :=
  walk_snapshot .scan (by decide) (by decide +kernel) (by decide +kernel)
    (forall₂_spells_levelAt _) (forall₂_spells_levelAt _) (rfl : deepSnapshot = _)
    (by decide +kernel) (by decide +kernel) (by decide +kernel) (by decide +kernel)

/-! ### Any text -/

theorem staysInside_sides (memmem : Memmem) (seq : Nat) :
    StaysInside (do
      seek memmem bidsKey
      let bids ← readRawLevels depth
      seek memmem asksKey
      let asks ← readRawLevels depth
      return (seq, bids, asks)) fun _ => True := by
  refine (staysInside_seek memmem _).bind fun _ _ => ?_
  refine (staysInside_readRawLevels depth).bind fun _ _ => ?_
  refine (staysInside_seek memmem _).bind fun _ _ => ?_
  exact (staysInside_readRawLevels depth).bind fun _ _ => staysInside_pure trivial

theorem staysInside_walkScan (memmem : Memmem) : StaysInside (walkScan memmem) fun _ => True := by
  refine (staysInside_seek memmem _).attempt.bind fun found _ => ?_
  cases found with
  | none => exact staysInside_rewind.bind fun _ _ => staysInside_sides memmem 0
  | some _ => exact staysInside_readU64.bind fun seq _ => staysInside_sides memmem seq

theorem exists_walk_eq_ok (memmem : Memmem) {text : Bytes} (hsize : text.length < 2 ^ 32) :
    ∃ o, walk memmem text = .ok o := by
  obtain ⟨o, s, hwalk, -⟩ := staysInside_walkScan memmem (.new text) hsize (inside_new text)
  exact ⟨o, by rw [walk, Scan.eval, hwalk]; rfl⟩

/-- **Decoding is total.** No text makes the walk panic, neither by an index out of range nor by an
overflow. Every operation of the walk that starts with the cursor in the buffer or at its end leaves it
there, whether it succeeds or fails, and so does the walk. -/
theorem walk_total (memmem : Memmem) :
    (∀ text : Bytes, text.length < 2 ^ 32 → ∃ o, walk memmem text = .ok o)
      ∧ StaysInside (walkScan memmem) (fun _ => True)
      ∧ (∀ needle, StaysInside (seek memmem needle) fun _ => True)
      ∧ StaysInside (total readU64) (fun _ => True)
      ∧ (∀ N, StaysInside (readRawLevels N) fun _ => True)
      ∧ StaysInside readQuotedDecimal (fun _ => True) := by
  exact ⟨fun text hsize => exists_walk_eq_ok memmem hsize, staysInside_walkScan memmem,
    staysInside_seek memmem, staysInside_readU64, staysInside_readRawLevels,
    staysInside_readQuotedDecimal⟩

theorem walk_total_openArray : ∃ o, walk .scan (bytes "\"bids\":[[\"") = .ok o :=
  (walk_total .scan).1 _ (by decide)

/-! ### The handler -/

/-- What the handler makes of what the walk returns. -/
def Handler.outcome (abandoned : Bool) (handler : Handler) (metrics : ExchangeMetrics)
    (frame : Frame) :
    Option (Nat × ArrayVec RawLevel depth × ArrayVec RawLevel depth) → Handled Handler
  | none => handleParseError handler metrics
  | some (seq, bids, asks) =>
    (handleSnapshot binanceId abandoned frame handler.lastSeq metrics seq bids asks).map Handler.mk

theorem processText_eq (memmem : Memmem) (abandoned : Bool) (handler : Handler)
    (metrics : ExchangeMetrics) (frame : Frame) :
    handler.processText memmem abandoned metrics frame
      = (walk memmem frame.text).map (handler.outcome abandoned metrics frame) := by
  unfold Handler.processText
  cases walk memmem frame.text with
  | error panic => rfl
  | ok o => cases o <;> rfl

end OrderbookAggregator.Binance
