import OrderbookAggregator.Exchange.Bitstamp
import OrderbookAggregator.Proof.Cursor

/-!
# Decoding Bitstamp messages

The walk undoes the encoding of a data message, whatever else stands in it. The timestamp is read as
a string whose failure is swallowed, and the next key is sought from wherever the cursor was left.
That is past the end of the text when the string is open and ends in a backslash which escapes
nothing; on all other texts nothing panics.
-/

namespace OrderbookAggregator.Bitstamp

open Scanner Scan

/-- The readers behind the timestamp. -/
def walkBehind (memmem : Memmem) (hasData : Bool) (micro : Nat) :
    Scan (Bytes × Nat × ArrayVec RawLevel depth × ArrayVec RawLevel depth) := do
  let bids ← readOptionalRawLevels depth memmem bidsKey
  let asks ← readOptionalRawLevels depth memmem asksKey
  if hasData then
    return (bytes "data", micro, bids, asks)
  else
    Scan.rewind
    seek memmem eventKey
    let event ← readString
    return (event, micro, bids, asks)

/-- Without a timestamp key the sides are sought from the start. -/
theorem walkScan_of_absent {memmem : Memmem} {s : Scanner}
    (hseek : seek memmem microtimestampKey s = .ok (none, s)) :
    walkScan memmem s = walkBehind memmem false 0 { s with pos := 0 } := by
  unfold walkScan
  rw [bind_of_some (attempt_of_ok hseek)]
  rfl

/-- With one, they are sought from where reading the timestamp has stopped, even if it failed. -/
theorem walkScan_of_found {memmem : Memmem} {s s' s'' : Scanner} {text : Option Bytes}
    (hseek : seek memmem microtimestampKey s = .ok (some (), s'))
    (hread : readString s' = .ok (text, s'')) :
    walkScan memmem s = walkBehind memmem true ((text.bind parseU64).getD 0) s'' := by
  unfold walkScan
  rw [bind_of_some (attempt_of_ok hseek)]
  dsimp only [Option.isSome_some]
  rw [if_pos rfl, bind_of_some (attempt_of_ok hread), Scan.pure_bind]
  rfl

/-! ### Messages with all fields -/

theorem parseU64.loop_eq {digits : Bytes} {value : Nat} (hdigits : ∀ b ∈ digits, IsDigit b)
    (hfits : natOf value digits < 2 ^ 64) : loop digits value = some (natOf value digits) := by
  induction digits generalizing value with
  | nil => rfl
  | cons byte digits ih =>
      rw [List.forall_mem_cons] at hdigits
      have hle := le_natOf (value * 10 + digitOf byte) digits
      rw [natOf_cons] at hfits
      rw [loop, if_neg hdigits.1.not_lt, checked_digit, if_pos (by omega), Option.bind_some,
        ih hdigits.2 hfits, natOf_cons]

theorem parseU64_eq {n : Nat} {digits : Bytes} (hdecimal : Decimal n digits) (hfits : n < 2 ^ 64) :
    parseU64 digits = some n := by
  obtain ⟨hne, hdigits, rfl⟩ := hdecimal
  obtain ⟨byte, digits, rfl⟩ := List.exists_cons_of_ne_nil hne
  have hplus : byte ≠ Ascii.plus := by
    rintro rfl
    exact absurd (hdigits _ List.mem_cons_self) (by decide)
  have hhead : ¬ (byte :: digits).head? = some Ascii.plus := fun h => hplus (Option.some_inj.mp h)
  unfold parseU64
  dsimp only
  rw [if_neg hhead, if_neg hne, parseU64.loop_eq hdigits hfits]

theorem readOptionalRawLevels_of_seek {N : Nat} {memmem : Memmem} {key : Bytes} {s s' s'' : Scanner}
    {levels : ArrayVec RawLevel N} (hseek : seek memmem key s = .ok (some (), s'))
    (hread : readRawLevels N s' = .ok (some levels, s'')) :
    readOptionalRawLevels N memmem key s = .ok (some levels, s'') := by
  unfold readOptionalRawLevels
  rw [bind_of_some (attempt_of_ok hseek)]
  exact hread

/-- **Decoding a data message.** Whatever stands around the three fields, the walk returns the
microtimestamp and, of each side, the first ten levels that count. -/
theorem walk_data (memmem : Memmem) {micro : Nat} {digits before mid mid' behind text : Bytes}
    {bidTexts askTexts : List (Bytes × Bytes)} {bids asks : List RawLevel}
    (hmicro : micro < 2 ^ 64) (hdigits : Decimal micro digits)
    (hbids : List.Forall₂ Spells bidTexts bids) (hasks : List.Forall₂ Spells askTexts asks)
    (htext : text = before ++ microtimestampKey ++ quoted digits ++ mid ++ bidsKey
      ++ arrayText bidTexts ++ mid' ++ asksKey ++ arrayText askTexts ++ behind)
    (hsize : text.length < 2 ^ 32)
    (honlyMicro : ∃! i, Search.OccursAt microtimestampKey text i)
    (honlyBids : ∃! i, Search.OccursAt bidsKey text i)
    (honlyAsks : ∃! i, Search.OccursAt asksKey text i) :
    walk memmem text
      = .ok (some (bytes "data", micro, firstNonZero depth bids, firstNonZero depth asks)) := by
  obtain ⟨s, hseek, hbuf, hpos, hrest⟩ := @seek_of_occursOnlyAt memmem microtimestampKey before
    (quoted digits ++ (mid ++ (bidsKey ++ (arrayText bidTexts ++ (mid' ++ (asksKey
      ++ (arrayText askTexts ++ behind))))))) (Scanner.new text)
    (by simp [Scanner.new, htext]) honlyMicro (Nat.zero_le _)
  have hsmall : s.Small := Small.of_buf_eq (show (Scanner.new text).Small from hsize) hbuf
  have hread := reads_readString (stringBody_of_digits hdigits.2.1)
    (head?_digits_append hdigits.2.1) s hsmall hrest
  obtain ⟨s₁, s₂, s₃, s₄, hseek₁, hread₁, hseek₃, hread₃⟩ := @seek_both_sides memmem bidsKey asksKey
    (before ++ microtimestampKey ++ quoted digits ++ mid) mid' behind bidTexts askTexts bids asks
    hbids hasks (s.advance (quoted digits).length) hsmall (by simp [hbuf, Scanner.new, htext])
    (by rwa [buf_advance, hbuf]) (by rwa [buf_advance, hbuf]) (by simp [hpos]; omega)
  have hwalk : walkScan memmem (Scanner.new text) = .ok (some (bytes "data", micro,
      firstNonZero depth bids, firstNonZero depth asks), s₄) := by
    rw [walkScan_of_found hseek hread, Option.bind_some, parseU64_eq hdigits hmicro,
      Option.getD_some]
    unfold walkBehind
    rw [bind_of_some (readOptionalRawLevels_of_seek hseek₁ hread₁),
      bind_of_some (readOptionalRawLevels_of_seek hseek₃ hread₃), if_pos rfl]
    rfl
  rw [walk, Scan.eval, hwalk]
  rfl

/-- Twelve levels a side, one of them of no amount. -/
def deepData : Bytes :=
  bytes "\x7b\"data\":\x7b" ++ microtimestampKey ++ quoted (bytes "7") ++ bytes "," ++ bidsKey
    ++ arrayText (bidPrices.map textAt) ++ bytes "," ++ asksKey ++ arrayText (askPrices.map textAt)
    ++ bytes "\x7d\x7d"

theorem walk_deepData :
    walk .scan deepData
      = .ok (some (bytes "data", 7, firstNonZero depth (bidPrices.map levelAt),
        firstNonZero depth (askPrices.map levelAt))) :=
  walk_data .scan (by decide) (by decide +kernel) (forall₂_spells_levelAt _)
    (forall₂_spells_levelAt _) (rfl : deepData = _) (by decide +kernel) (by decide +kernel)
    (by decide +kernel) (by decide +kernel)

/-! ### Where decoding panics -/

/-- What stands behind the first timestamp key opens a string that ends in a dangling backslash. -/
def DanglingTimestamp (text : Bytes) : Prop :=
  ∃ i, Search.FirstOccurrence microtimestampKey text (some i)
    ∧ DanglingEscape (text.drop (i + microtimestampKey.length))

/-- From inside, nothing behind the timestamp panics. -/
theorem neverPanics_walkBehind (memmem : Memmem) (hasData : Bool) (micro : Nat) :
    NeverPanics (walkBehind memmem hasData micro) := by
  refine (staysInside_readOptionalRawLevels depth memmem bidsKey).bind_neverPanics fun bids _ => ?_
  refine (staysInside_readOptionalRawLevels depth memmem asksKey).bind_neverPanics fun asks _ => ?_
  cases hasData with
  | true => exact neverPanics_pure _
  | false =>
      refine staysInside_rewind.bind_neverPanics fun _ _ => ?_
      refine (staysInside_seek memmem eventKey).bind_neverPanics fun _ _ => ?_
      intro s _ _
      obtain ⟨⟨o, s'⟩, hread⟩ := exists_readString s
      cases o with
      | none => exact ⟨_, bind_of_none hread⟩
      | some event => exact ⟨_, bind_of_some hread⟩

/-- From one past the end, the next key is sought in a slice that does not exist. -/
theorem walkBehind_past_end (memmem : Memmem) (hasData : Bool) (micro : Nat) {s : Scanner}
    (hpos : s.buf.length < s.pos) :
    walkBehind memmem hasData micro s = .error .sliceStart := by
  have hseek : seek memmem bidsKey s = .error .sliceStart := if_pos hpos
  have hattempt : Scan.attempt (seek memmem bidsKey) s = .error .sliceStart := by
    rw [Scan.attempt, hseek]
  unfold walkBehind readOptionalRawLevels
  exact bind_of_error (bind_of_error hattempt)

theorem walkScan_ok_iff (memmem : Memmem) {text : Bytes} (hsize : text.length < 2 ^ 32) :
    (∃ result, walkScan memmem (Scanner.new text) = .ok result) ↔ ¬ DanglingTimestamp text := by
  have hinside := inside_new text
  have hsmall : (Scanner.new text).Small := hsize
  have hspec := memmem.find_spec microtimestampKey text
  cases hfind : memmem.find microtimestampKey text with
  | none =>
      rw [hfind] at hspec
      rw [walkScan_of_absent (seek_of_find_eq_none hinside hfind)]
      refine iff_of_true (neverPanics_walkBehind memmem false 0 _ hsmall (Nat.zero_le _)) ?_
      rintro ⟨i, hfirst, -⟩
      exact absurd (hspec.unique hfirst) (by simp)
  | some i =>
      rw [hfind] at hspec
      have hseek := seek_of_find_eq_some hinside hfind
      obtain ⟨o, s', hseek', hbuf, hinside', -⟩ :=
        staysInside_seek memmem microtimestampKey (Scanner.new text) hsmall hinside
      obtain ⟨rfl, rfl⟩ : o = some () ∧ s' = (Scanner.new text).advance _ := by
        rw [hseek, Except.ok.injEq, Prod.mk.injEq] at hseek'
        exact ⟨hseek'.1.symm, hseek'.2.symm⟩
      have hrest : ((Scanner.new text).advance (i + microtimestampKey.length)).rest
          = text.drop (i + microtimestampKey.length) := rest_advance _ _
      have hdangling : DanglingTimestamp text
          ↔ DanglingEscape (text.drop (i + microtimestampKey.length)) := by
        constructor
        · rintro ⟨j, hfirst, hescape⟩
          obtain rfl : i = j := Option.some_inj.mp (hspec.unique hfirst)
          exact hescape
        · exact fun hescape => ⟨i, hspec, hescape⟩
      rw [hdangling]
      by_cases hescape : DanglingEscape (text.drop (i + microtimestampKey.length))
      · rw [walkScan_of_found hseek (readString_of_danglingEscape hinside' (hrest ▸ hescape)),
          walkBehind_past_end memmem true _ (Nat.lt_succ_self _)]
        exact iff_of_false (by simp) (not_not_intro hescape)
      · obtain ⟨o, s'', hread, hbuf', hinside''⟩ :=
          readString_of_not_danglingEscape hinside' (hrest ▸ hescape)
        rw [walkScan_of_found hseek hread]
        exact iff_of_true (neverPanics_walkBehind memmem true _ s''
          (hsmall.of_buf_eq (hbuf'.trans hbuf)) hinside'') hescape

theorem walk_ok_iff (memmem : Memmem) {text : Bytes} (hsize : text.length < 2 ^ 32) :
    (∃ o, walk memmem text = .ok o) ↔ ¬ DanglingTimestamp text := by
  rw [← walkScan_ok_iff memmem hsize, walk, Scan.eval]
  cases walkScan memmem (Scanner.new text) with
  | error panic => simp [Except.map]
  | ok result => simp [Except.map]

/-- Nothing is sought behind the string that is extracted. -/
theorem extractString_ok (memmem : Memmem) (json pattern : Bytes) :
    ∃ o, extractString memmem json pattern = .ok o := by
  obtain ⟨result, hread⟩ : ∃ result, (do
      seek memmem pattern
      readString : Scan Bytes) (Scanner.new json) = .ok result := by
    have hseek : ∃ o s', seek memmem pattern (Scanner.new json) = .ok (o, s') := by
      unfold seek
      rw [if_neg (Nat.not_lt.mpr (inside_new json))]
      split
      · exact ⟨_, _, rfl⟩
      · exact ⟨_, _, rfl⟩
    obtain ⟨o, s', hseek⟩ := hseek
    cases o with
    | none => exact ⟨_, bind_of_none hseek⟩
    | some _ =>
        rw [bind_of_some hseek]
        exact exists_readString s'
  exact ⟨result.1, by rw [extractString, Scan.eval, hread]; rfl⟩

/-- What the handler makes of what the walk returns. -/
def Handler.outcome (abandoned : Bool) (handler : Handler) (metrics : ExchangeMetrics)
    (frame : Frame) :
    Option (Bytes × Nat × ArrayVec RawLevel depth × ArrayVec RawLevel depth) → Handled Handler
  | none => handleParseError handler metrics
  | some (event, micro, bids, asks) =>
    if event = bytes "data" then
      (handleSnapshot bitstampId abandoned frame handler.lastMicro metrics micro bids asks).map
        Handler.mk
    else if event = bytes "bts:error" then
      { result := .reconnect
        handler
        metrics := { metrics with errors := fetchAddU64 metrics.errors 1 }
        sent := none }
    else { result := .continue, handler, metrics, sent := none }

/-- The handler decodes whatever the walk decodes. -/
theorem processText_eq (memmem : Memmem) (abandoned : Bool) (handler : Handler)
    (metrics : ExchangeMetrics) (frame : Frame) :
    handler.processText memmem abandoned metrics frame
      = (walk memmem frame.text).map (handler.outcome abandoned metrics frame) := by
  unfold Handler.processText
  cases walk memmem frame.text with
  | error panic => rfl
  | ok o =>
      rcases o with _ | ⟨event, micro, bids, asks⟩
      · rfl
      · rw [Exec.ok_bind, Except.map, Handler.outcome]
        dsimp only
        by_cases hdata : event = bytes "data"
        · rw [if_pos hdata, if_pos hdata]
          rfl
        rw [if_neg hdata, if_neg hdata]
        by_cases hsucceeded : event = bytes "bts:subscription_succeeded"
        · rw [if_pos hsucceeded, if_neg (by rw [hsucceeded]; decide)]
          rfl
        rw [if_neg hsucceeded]
        split
        · obtain ⟨message, hmessage⟩ := extractString_ok memmem frame.text (bytes "\"message\":")
          rw [hmessage]
          rfl
        · rfl

theorem processText_ok_iff (memmem : Memmem) (abandoned : Bool) (handler : Handler)
    (metrics : ExchangeMetrics) (frame : Frame) :
    (∃ out, handler.processText memmem abandoned metrics frame = .ok out)
      ↔ ∃ o, walk memmem frame.text = .ok o := by
  rw [processText_eq]
  cases walk memmem frame.text with
  | error panic => simp [Except.map]
  | ok o => exact iff_of_true ⟨_, rfl⟩ ⟨o, rfl⟩

theorem parseOrderBookJson_ok_iff (memmem : Memmem) (start : Instant) (json : Bytes) :
    (∃ o, parseOrderBookJson memmem start json = .ok o) ↔ ∃ o, walk memmem json = .ok o := by
  unfold parseOrderBookJson
  cases walk memmem json with
  | error panic => simp
  | ok o =>
      refine iff_of_true ?_ ⟨o, rfl⟩
      rcases o with _ | ⟨event, micro, bids, asks⟩
      · exact ⟨_, rfl⟩
      · rw [Exec.ok_bind]
        dsimp only
        split
        · exact ⟨_, rfl⟩
        · exact ⟨_, rfl⟩

/-- **Decoding panics exactly on a dangling timestamp**, by whichever way a text is decoded. -/
theorem decode_ok_iff (memmem : Memmem) (abandoned : Bool) (handler : Handler)
    (metrics : ExchangeMetrics) (start : Instant) {frame : Frame}
    (hsize : frame.text.length < 2 ^ 32) :
    ((∃ o, walk memmem frame.text = .ok o) ↔ ¬ DanglingTimestamp frame.text)
      ∧ ((∃ out, handler.processText memmem abandoned metrics frame = .ok out)
        ↔ ¬ DanglingTimestamp frame.text)
      ∧ ((∃ o, parseOrderBookJson memmem start frame.text = .ok o)
        ↔ ¬ DanglingTimestamp frame.text) := by
  have hwalk := walk_ok_iff memmem hsize
  exact ⟨hwalk, (processText_ok_iff memmem abandoned handler metrics frame).trans hwalk,
    (parseOrderBookJson_ok_iff memmem start frame.text).trans hwalk⟩

/-- The shortest such text: the key, an opening quote, a backslash. -/
def danglingText : Bytes := bytes "\"microtimestamp\":\"\\"

theorem walk_dangling_panics :
    danglingText.length < 2 ^ 32 ∧ walk .scan danglingText = .error .sliceStart
      ∧ Handler.processText .scan false ⟨0⟩ .new ⟨danglingText, 0, 0⟩ = .error .sliceStart
      ∧ parseOrderBookJson .scan 0 danglingText = .error .sliceStart := by
  decide +kernel

theorem decode_danglingText :
    ((∃ o, walk .scan danglingText = .ok o) ↔ ¬ DanglingTimestamp danglingText)
      ∧ ((∃ out, Handler.processText .scan false ⟨0⟩ .new ⟨danglingText, 0, 0⟩ = .ok out)
        ↔ ¬ DanglingTimestamp danglingText)
      ∧ ((∃ o, parseOrderBookJson .scan 0 danglingText = .ok o)
        ↔ ¬ DanglingTimestamp danglingText) :=
  @decode_ok_iff .scan false ⟨0⟩ .new 0 ⟨danglingText, 0, 0⟩ (by decide +kernel)

end OrderbookAggregator.Bitstamp
