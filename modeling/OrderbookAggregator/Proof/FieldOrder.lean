import OrderbookAggregator.Proof.Bitstamp

/-!
# The order of the fields

The walk over a Bitstamp message makes a single pass forward: each key is sought from where the
reading of the key before it has stopped, and a key that is not found is an absent one. So a side
comes back empty, although its array is there, when it stands before a key that was read already.
-/

namespace OrderbookAggregator.Bitstamp

open Scanner Scan

/-! ### A key stands behind an array or before it -/

/-- The first letter of the key of the asks. -/
abbrev letterA : UInt8 := 97

theorem letterA_notMem_digits {digits : Bytes} (hdigits : ∀ b ∈ digits, IsDigit b) :
    letterA ∉ digits :=
  fun hmem => absurd (hdigits letterA hmem) (by decide)

theorem letterA_notMem_parsed {text : Bytes} {v : FixedPoint}
    (hparse : FixedPoint.parse text = .ok (some v)) : letterA ∉ text := by
  obtain ⟨d, rfl, -⟩ := FixedPoint.parse_eq_some_iff.mp hparse
  have hfrac : letterA ∉ DecimalText.fracText d.frac := by
    have hdigits := letterA_notMem_digits d.frac_digits
    cases hfrac : d.frac with
    | none => exact List.not_mem_nil
    | some frac =>
        rw [hfrac] at hdigits
        exact List.not_mem_cons_of_ne_of_not_mem (by decide) hdigits
  exact List.mem_append.not.mpr (not_or.mpr ⟨letterA_notMem_digits d.int_digits, hfrac⟩)

theorem letterA_notMem_levelText {text : Bytes × Bytes} {level : RawLevel} (h : Spells text level) :
    letterA ∉ levelText text := by
  have hprice := letterA_notMem_parsed h.1
  have hamount := letterA_notMem_parsed h.2
  simp only [levelText, quoted, List.mem_append, List.mem_singleton, List.not_mem_nil, not_or]
  exact ⟨by decide, ⟨by decide, hprice, by decide⟩, by decide, ⟨by decide, hamount, by decide⟩,
    by decide, not_false⟩

/-- No letter stands in an array of levels. -/
theorem letterA_notMem_arrayText {texts : List (Bytes × Bytes)} {levels : List RawLevel}
    (hspells : List.Forall₂ Spells texts levels) : letterA ∉ arrayText texts := by
  have hlevels : letterA ∉ levelsText texts := by
    induction hspells with
    | nil => decide
    | @cons text level texts levels hlevel hspells ih =>
        have hfirst := letterA_notMem_levelText hlevel
        cases texts with
        | nil =>
            rw [levelsText_singleton, List.mem_append, not_or]
            exact ⟨hfirst, by decide⟩
        | cons next texts =>
            rw [levelsText_cons_cons, List.mem_append, List.mem_append, not_or, not_or]
            exact ⟨hfirst, by decide, ih⟩
  rw [arrayText, List.mem_append, not_or]
  exact ⟨by decide, hlevels⟩

/-- The key of the asks does not begin within the bids, since it takes a quote and an `a`. -/
theorem le_of_occursAt_asksKey {text pre post : Bytes} {texts : List (Bytes × Bytes)}
    {levels : List RawLevel} {i : Nat} (hspells : List.Forall₂ Spells texts levels)
    (htext : text = pre ++ bidsKey ++ arrayText texts ++ post)
    (hat : Search.OccursAt asksKey text i) (hlt : pre.length < i) :
    (pre ++ bidsKey ++ arrayText texts).length ≤ i := by
  obtain ⟨body, hbody⟩ : ∃ body, bidsKey ++ arrayText texts = body ++ [Ascii.closeBracket] :=
    ⟨bidsKey ++ [Ascii.openBracket] ++ List.intercalate [Ascii.comma] (texts.map levelText), by
      simp [arrayText, levelsText]⟩
  have hletter : letterA ∉ bidsKey ++ arrayText texts := by
    rw [List.mem_append, not_or]
    exact ⟨by decide, letterA_notMem_arrayText hspells⟩
  by_contra hle
  obtain ⟨j, rfl⟩ := Nat.exists_eq_add_of_lt hlt
  have hlength := congrArg List.length hbody
  simp only [List.length_append, List.length_singleton] at hlength hle
  have hbyte (k : Nat) (hk : k < (bidsKey ++ arrayText texts).length) :
      text[pre.length + k]? = (bidsKey ++ arrayText texts)[k]? := by
    rw [htext, List.append_assoc pre, List.append_assoc pre,
      List.getElem?_append_right (Nat.le_add_right _ _), Nat.add_sub_cancel_left,
      List.getElem?_append_left hk]
  have hquote : text[pre.length + (j + 1)]? = some Ascii.quote :=
    hat.getElem? (show 0 < asksKey.length by decide)
  have ha : text[pre.length + (j + 2)]? = some letterA :=
    hat.getElem? (show 1 < asksKey.length by decide)
  by_cases hlast : j + 2 < (bidsKey ++ arrayText texts).length
  · rw [hbyte _ hlast] at ha
    exact hletter (List.mem_of_getElem? ha)
  · rw [List.length_append] at hlast
    have hend : j + 1 = body.length := by omega
    rw [hbyte _ (by rw [List.length_append]; omega), hbody, hend, List.getElem?_concat_length]
      at hquote
    exact absurd (Option.some_inj.mp hquote) (by decide)

/-! ### One side after the other -/

/-- What the walk returns of a side, by whether its key was still to come. -/
def sideIf (ahead : Prop) [Decidable ahead] (levels : List RawLevel) : ArrayVec RawLevel depth :=
  if ahead then firstNonZero depth levels else .empty

/-- A side whose key is behind the cursor is empty, and the cursor stays. -/
theorem readOptionalRawLevels_side (memmem : Memmem) {key pre post : Bytes}
    {texts : List (Bytes × Bytes)} {levels : List RawLevel}
    (hspells : List.Forall₂ Spells texts levels) {s : Scanner} (hsmall : s.Small)
    (hbuf : s.buf = pre ++ key ++ (arrayText texts ++ post))
    (honly : ∃! i, Search.OccursAt key s.buf i) (hinside : s.Inside) :
    ∃ s', readOptionalRawLevels depth memmem key s
        = .ok (some (sideIf (s.pos ≤ pre.length) levels), s')
      ∧ s'.buf = s.buf ∧ s'.Inside
      ∧ (s.pos ≤ pre.length → (pre ++ key).length ≤ s'.pos
        ∧ s'.pos ≤ (pre ++ key ++ arrayText texts).length)
      ∧ (¬ s.pos ≤ pre.length → s'.pos = s.pos) := by
  by_cases hle : s.pos ≤ pre.length
  · obtain ⟨s₁, s₂, hseek, hread, hbuf₂, hlower, hupper⟩ :=
      seek_then_readRawLevels memmem hspells hsmall hbuf honly hle
    refine ⟨s₂, ?_, hbuf₂, ?_, fun _ => ⟨hlower, hupper⟩, fun hnot => absurd hle hnot⟩
    · rw [sideIf, if_pos hle]
      exact readOptionalRawLevels_of_seek hseek hread
    · rw [Inside, hbuf₂, hbuf, ← List.append_assoc, List.length_append]
      exact hupper.trans (Nat.le_add_right _ _)
  · have hseek := seek_of_occursOnlyAt_before memmem hbuf honly hinside (Nat.not_le.mp hle)
    refine ⟨s, ?_, rfl, hinside, fun h => absurd h hle, fun _ => rfl⟩
    rw [sideIf, if_neg hle]
    unfold readOptionalRawLevels
    rw [bind_of_some (attempt_of_ok hseek)]
    rfl

/-- Where the reading of the timestamp stops. -/
def timestampEnd (before ws digits : Bytes) : Nat :=
  (before ++ microtimestampKey ++ (ws ++ quoted digits)).length

/-- **Fields in any order.** With the three fields in whatever order, the walk returns the
microtimestamp; the bids if they stand behind it, and the asks if they stand behind it and not
before bids that were read. -/
theorem walk_fields (memmem : Memmem) {micro : Nat}
    {digits ws beforeMicro behindMicro beforeBids behindBids beforeAsks behindAsks text : Bytes}
    {bidTexts askTexts : List (Bytes × Bytes)} {bids asks : List RawLevel}
    (hmicro : micro < 2 ^ 64) (hdigits : Decimal micro digits) (hws : ∀ b ∈ ws, Ascii.isWs b)
    (hbids : List.Forall₂ Spells bidTexts bids) (hasks : List.Forall₂ Spells askTexts asks)
    (htextMicro : text = beforeMicro ++ microtimestampKey ++ (ws ++ quoted digits ++ behindMicro))
    (htextBids : text = beforeBids ++ bidsKey ++ (arrayText bidTexts ++ behindBids))
    (htextAsks : text = beforeAsks ++ asksKey ++ (arrayText askTexts ++ behindAsks))
    (hsize : text.length < 2 ^ 32)
    (honlyMicro : ∃! i, Search.OccursAt microtimestampKey text i)
    (honlyBids : ∃! i, Search.OccursAt bidsKey text i)
    (honlyAsks : ∃! i, Search.OccursAt asksKey text i) :
    walk memmem text = .ok (some (bytes "data", micro,
      sideIf (timestampEnd beforeMicro ws digits ≤ beforeBids.length) bids,
      sideIf (timestampEnd beforeMicro ws digits ≤ beforeAsks.length
        ∧ (timestampEnd beforeMicro ws digits ≤ beforeBids.length →
          beforeBids.length < beforeAsks.length)) asks)) := by
  obtain ⟨s, hseek, hbuf, hpos, hrest⟩ := @seek_of_occursOnlyAt memmem microtimestampKey beforeMicro
    (ws ++ quoted digits ++ behindMicro) (Scanner.new text) htextMicro honlyMicro (Nat.zero_le _)
  have hread := readString_of_closed hws (stringBody_of_digits hdigits.2.1)
    (head?_digits_append hdigits.2.1) hrest
  -- the cursor behind the timestamp
  obtain ⟨s₀, hs₀⟩ : ∃ s₀, s₀ = s.advance (ws ++ quoted digits).length := ⟨_, rfl⟩
  have hbuf₀ : s₀.buf = text := by rw [hs₀, buf_advance, hbuf, Scanner.new]
  have hpos₀ : s₀.pos = timestampEnd beforeMicro ws digits := by
    rw [hs₀, pos_advance, hpos, timestampEnd]
    simp only [List.length_append]
  have hsmall₀ : s₀.Small := Small.of_buf_eq (show (Scanner.new text).Small from hsize) hbuf₀
  have hinside₀ : s₀.Inside := by
    rw [Inside, hpos₀, hbuf₀, htextMicro, timestampEnd]
    simp
  obtain ⟨s₁, hread₁, hbuf₁, hinside₁, hfound, habsent⟩ := readOptionalRawLevels_side memmem hbids
    hsmall₀ (hbuf₀.trans htextBids) (hbuf₀ ▸ honlyBids) hinside₀
  obtain ⟨s₂, hread₂, -⟩ := readOptionalRawLevels_side memmem hasks (hsmall₀.of_buf_eq hbuf₁)
    (hbuf₁.trans (hbuf₀.trans htextAsks)) (by rwa [hbuf₁, hbuf₀]) hinside₁
  -- where the asks are sought from
  have hahead : s₁.pos ≤ beforeAsks.length ↔ s₀.pos ≤ beforeAsks.length
      ∧ (s₀.pos ≤ beforeBids.length → beforeBids.length < beforeAsks.length) := by
    have hat : Search.OccursAt asksKey text beforeAsks.length := by
      rw [htextAsks]
      exact Search.occursAt_append _ _ _
    have hkey : 0 < bidsKey.length := by decide
    by_cases hle : s₀.pos ≤ beforeBids.length
    · obtain ⟨hlower, hupper⟩ := hfound hle
      rw [List.length_append] at hlower
      constructor
      · intro h
        exact ⟨by omega, fun _ => by omega⟩
      · rintro ⟨-, hlt⟩
        exact hupper.trans (le_of_occursAt_asksKey hbids
          (htextBids.trans (List.append_assoc _ _ _).symm) hat (hlt hle))
    · rw [habsent hle]
      exact ⟨fun h => ⟨h, fun h' => absurd h' hle⟩, fun h => h.1⟩
  have hwalk : walkScan memmem (Scanner.new text) = .ok (some (bytes "data", micro,
      sideIf (s₀.pos ≤ beforeBids.length) bids, sideIf (s₁.pos ≤ beforeAsks.length) asks), s₂) := by
    rw [walkScan_of_found hseek hread, ← hs₀, Option.bind_some, parseU64_eq hdigits hmicro,
      Option.getD_some]
    unfold walkBehind
    rw [bind_of_some hread₁, bind_of_some hread₂, if_pos rfl]
    rfl
  rw [walk, Scan.eval, hwalk]
  simp only [hahead, hpos₀]
  rfl

/-- A message with the asks before the bids. -/
def asksFirst : Bytes :=
  bytes "\x7b\"data\":\x7b\"microtimestamp\":\"7\",\"asks\":[[\"5\",\"2\"]],\"bids\":[[\"4\",\"1\"]]\x7d\x7d"

/-- What stands in it before the asks. -/
def beforeAsksFirst : Bytes := bytes "\x7b\"data\":\x7b\"microtimestamp\":\"7\","

/-- What stands in it before the bids. -/
def beforeBidsLast : Bytes := beforeAsksFirst ++ bytes "\"asks\":[[\"5\",\"2\"]],"

def beforeMicroFirst : Bytes := bytes "\x7b\"data\":\x7b"

def asksFirstBid : RawLevel := ⟨⟨400000000, by decide⟩, ⟨100000000, by decide⟩⟩

def asksFirstAsk : RawLevel := ⟨⟨500000000, by decide⟩, ⟨200000000, by decide⟩⟩

set_option maxRecDepth 4096 in
theorem asksFirst_fields :
    Decimal 7 (bytes "7")
    ∧ (FixedPoint.parse (bytes "4") = .ok (some asksFirstBid.price)
      ∧ FixedPoint.parse (bytes "1") = .ok (some asksFirstBid.amount))
    ∧ (FixedPoint.parse (bytes "5") = .ok (some asksFirstAsk.price)
      ∧ FixedPoint.parse (bytes "2") = .ok (some asksFirstAsk.amount))
    ∧ asksFirst = beforeMicroFirst ++ microtimestampKey ++ ([] ++ quoted (bytes "7")
      ++ bytes ",\"asks\":[[\"5\",\"2\"]],\"bids\":[[\"4\",\"1\"]]\x7d\x7d")
    ∧ asksFirst = beforeBidsLast ++ bidsKey
      ++ (arrayText [(bytes "4", bytes "1")] ++ bytes "\x7d\x7d")
    ∧ asksFirst = beforeAsksFirst ++ asksKey ++ (arrayText [(bytes "5", bytes "2")]
      ++ bytes ",\"bids\":[[\"4\",\"1\"]]\x7d\x7d")
    ∧ asksFirst.length < 2 ^ 32
    ∧ (∃! i, Search.OccursAt microtimestampKey asksFirst i)
    ∧ (∃! i, Search.OccursAt bidsKey asksFirst i) ∧ ∃! i, Search.OccursAt asksKey asksFirst i := by
  decide

theorem walk_fields_asksFirst :
    walk .scan asksFirst = .ok (some (bytes "data", 7,
      sideIf (timestampEnd beforeMicroFirst [] (bytes "7") ≤ beforeBidsLast.length) [asksFirstBid],
      sideIf (timestampEnd beforeMicroFirst [] (bytes "7") ≤ beforeAsksFirst.length
        ∧ (timestampEnd beforeMicroFirst [] (bytes "7") ≤ beforeBidsLast.length →
          beforeBidsLast.length < beforeAsksFirst.length)) [asksFirstAsk])) := by
  obtain ⟨hdigits, hbid, hask, htextMicro, htextBids, htextAsks, hsize, honlyMicro, honlyBids,
    honlyAsks⟩ := asksFirst_fields
  have hbids : List.Forall₂ Spells [(bytes "4", bytes "1")] [asksFirstBid] := .cons hbid .nil
  have hasks : List.Forall₂ Spells [(bytes "5", bytes "2")] [asksFirstAsk] := .cons hask .nil
  exact walk_fields .scan (by decide) hdigits nofun hbids hasks htextMicro htextBids htextAsks hsize
    honlyMicro honlyBids honlyAsks

/-- Its fields are as they should be. The asks come back empty, although their array is there and
holds a level that counts. -/
theorem walk_asksFirst_drops_asks :
    (∃! i, Search.OccursAt microtimestampKey asksFirst i)
    ∧ (∃! i, Search.OccursAt bidsKey asksFirst i)
    ∧ (∃! i, Search.OccursAt asksKey asksFirst i)
    ∧ beforeMicroFirst ++ microtimestampKey ++ quoted (bytes "7") <+: asksFirst
    ∧ beforeBidsLast ++ bidsKey ++ arrayText [(bytes "4", bytes "1")] <+: asksFirst
    ∧ beforeAsksFirst ++ asksKey ++ arrayText [(bytes "5", bytes "2")] <+: asksFirst
    ∧ walk .scan asksFirst = .ok (some (bytes "data", 7, firstNonZero depth [asksFirstBid], .empty))
    ∧ firstNonZero depth [asksFirstAsk] ≠ .empty := by
  decide +kernel

end OrderbookAggregator.Bitstamp
