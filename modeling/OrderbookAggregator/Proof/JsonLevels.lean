import OrderbookAggregator.JsonWalker
import OrderbookAggregator.Proof.Decimal

/-!
# What the readers read

A reader reads a text when, started at that text, it returns a value and leaves the cursor behind
the text. What follows the text is a parameter, since some readers look at the next byte before they
stop. Reading composes: the texts of two readers in sequence are joined.
-/

namespace OrderbookAggregator

namespace Scanner

@[simp]
theorem buf_advance (s : Scanner) (n : Nat) : (s.advance n).buf = s.buf := rfl

@[simp]
theorem pos_advance (s : Scanner) (n : Nat) : (s.advance n).pos = s.pos + n := rfl

@[simp]
theorem advance_advance (s : Scanner) (m n : Nat) : (s.advance m).advance n = s.advance (m + n) := by
  simp [advance, Nat.add_assoc]

theorem rest_advance (s : Scanner) (n : Nat) : (s.advance n).rest = s.rest.drop n := by
  simp [rest, advance]

theorem rest_advance_of_append {s : Scanner} {text tail : Bytes} (h : s.rest = text ++ tail) :
    (s.advance text.length).rest = tail := by
  rw [rest_advance, h, List.drop_left]

theorem peek_eq_head? (s : Scanner) : s.peek = s.rest.head? := by
  rw [peek, rest, List.head?_drop]

theorem length_rest (s : Scanner) : s.rest.length = s.buf.length - s.pos := by
  simp [rest]

/-- A buffer whose positions fit in a `u32`, so that counting digits cannot overflow. -/
def Small (s : Scanner) : Prop := s.buf.length < 2 ^ 32

theorem Small.of_buf_eq {s s' : Scanner} (h : s.Small) (hbuf : s'.buf = s.buf) : s'.Small := by
  unfold Small
  rwa [hbuf]

theorem Small.rest_lt {s : Scanner} (h : s.Small) : s.rest.length < 2 ^ 32 := by
  unfold Small at h
  rw [length_rest]
  omega

end Scanner

namespace Scan

variable {α β : Type}

/-- Started at `text`, with `tail` behind it, `x` returns `a` and stops behind `text`. -/
def Reads (x : Scan α) (text tail : Bytes) (a : α) : Prop :=
  ∀ s : Scanner, s.Small → s.rest = text ++ tail → x s = .ok (some a, s.advance text.length)

theorem reads_pure (a : α) (tail : Bytes) : Reads (pure a : Scan α) [] tail a :=
  fun _ _ _ => rfl

theorem reads_lift {x : Exec (Option α)} {a : α} (hx : x = .ok (some a)) (tail : Bytes) :
    Reads (lift x) [] tail a := by
  rintro s - -
  rw [hx]
  rfl

theorem pure_bind (a : α) (f : α → Scan β) : ((pure a : Scan α) >>= f) = f a := rfl

theorem bind_of_some {x : Scan α} {f : α → Scan β} {s s' : Scanner} {a : α}
    (h : x s = .ok (some a, s')) : (x >>= f) s = f a s' := by
  change Scan.bind x f s = _
  rw [Scan.bind, h]

theorem bind_of_none {x : Scan α} {f : α → Scan β} {s s' : Scanner}
    (h : x s = .ok (none, s')) : (x >>= f) s = .ok (none, s') := by
  change Scan.bind x f s = _
  rw [Scan.bind, h]

theorem bind_of_error {x : Scan α} {f : α → Scan β} {s : Scanner} {panic : Panic}
    (h : x s = .error panic) : (x >>= f) s = .error panic := by
  change Scan.bind x f s = _
  rw [Scan.bind, h]

theorem Reads.bind {x : Scan α} {f : α → Scan β} {first second tail : Bytes} {a : α} {b : β}
    (hx : Reads x first (second ++ tail) a) (hf : Reads (f a) second tail b) :
    Reads (x >>= f) (first ++ second) tail b := by
  intro s hsmall hrest
  rw [List.append_assoc] at hrest
  have hsecond := hf (s.advance first.length) hsmall (Scanner.rest_advance_of_append hrest)
  rw [Scanner.advance_advance, ← List.length_append] at hsecond
  rw [bind_of_some (hx s hsmall hrest), hsecond]

end Scan

namespace Scanner

open Scan

theorem reads_require (byte : UInt8) (tail : Bytes) : Reads (require byte) [byte] tail () := by
  intro s _ hrest
  have hpeek : s.peek = some byte := by rw [peek_eq_head?, hrest]; rfl
  rw [require, expectByte, if_pos hpeek]
  rfl

/-! ### Numbers -/

namespace readQuotedDecimal

theorem intLoop_append {digits rest : Bytes} {value count pos : Nat}
    (hdigits : ∀ b ∈ digits, IsDigit b) (hfits : natOf value digits < 2 ^ 64)
    (hcount : count + digits.length < 2 ^ 32) :
    intLoop (digits ++ rest) value count pos
      = intLoop rest (natOf value digits) (count + digits.length) (pos + digits.length) := by
  induction digits generalizing value count pos with
  | nil => rfl
  | cons byte digits ih =>
      rw [List.forall_mem_cons] at hdigits
      have hle := le_natOf (value * 10 + digitOf byte) digits
      rw [natOf_cons] at hfits
      rw [List.length_cons] at hcount
      have hstop : ¬ (byte = Ascii.dot ∨ byte = Ascii.quote) :=
        not_or.mpr ⟨hdigits.1.ne_dot, hdigits.1.ne_quote⟩
      rw [List.cons_append, intLoop, if_neg hstop, if_neg hdigits.1.not_lt, checked_digit,
        if_pos (by omega)]
      dsimp only
      rw [addU32_of_lt (by omega), Exec.ok_bind, ih hdigits.2 hfits (by omega), natOf_cons,
        List.length_cons, Nat.add_assoc, Nat.add_assoc, Nat.add_comm 1]

theorem fracLoop_append {digits rest : Bytes} {value count pos : Nat}
    (hdigits : ∀ b ∈ digits, IsDigit b) (hvalue : value < 10 ^ count)
    (hcount : count + digits.length ≤ 8) :
    fracLoop (digits ++ rest) value count pos
      = fracLoop rest (natOf value digits) (count + digits.length) (pos + digits.length) := by
  induction digits generalizing value count pos with
  | nil => rfl
  | cons byte digits ih =>
      rw [List.forall_mem_cons] at hdigits
      rw [List.length_cons] at hcount
      obtain ⟨hshift, hadd, hnext⟩ := fraction_step hvalue (by omega) hdigits.1
      rw [List.cons_append, fracLoop, if_pos ⟨hdigits.1.ne_quote, by omega⟩,
        if_neg hdigits.1.not_lt, hshift, Exec.ok_bind, hadd, Exec.ok_bind,
        addU32_of_lt (by omega), Exec.ok_bind, ih hdigits.2 hnext (by omega), natOf_cons,
        List.length_cons, Nat.add_assoc, Nat.add_assoc, Nat.add_comm 1]

theorem skipLoop_append {digits rest : Bytes} {pos : Nat} (hdigits : ∀ b ∈ digits, IsDigit b) :
    skipLoop (digits ++ rest) pos = skipLoop rest (pos + digits.length) := by
  induction digits generalizing pos with
  | nil => rfl
  | cons byte digits ih =>
      rw [List.forall_mem_cons] at hdigits
      rw [List.cons_append, skipLoop, if_pos hdigits.1.ne_quote, if_neg hdigits.1.not_lt,
        ih hdigits.2, List.length_cons, Nat.add_assoc, Nat.add_comm 1]

/-- The integer part ends at a dot or at the closing quote. -/
theorem reads_intPart {digits tail : Bytes} {next : UInt8} (hdigits : ∀ b ∈ digits, IsDigit b)
    (hfits : natOf 0 digits < 2 ^ 64) (hnext : next = Ascii.dot ∨ next = Ascii.quote) :
    Reads intPart digits (next :: tail) (natOf 0 digits, digits.length) := by
  intro s hsmall hrest
  have hlength := hsmall.rest_lt
  rw [hrest, List.length_append] at hlength
  rw [intPart, hrest, intLoop_append hdigits hfits (by omega), intLoop, if_pos hnext]
  rw [Nat.zero_add]
  rfl

/-- Of the fraction, the first eight digits are counted. -/
theorem reads_fracDigits {digits tail : Bytes} {next : UInt8} (hdigits : ∀ b ∈ digits, IsDigit b)
    (hlength : digits.length ≤ 8) (hnext : next = Ascii.quote ∨ digits.length = 8) :
    Reads fracDigits digits (next :: tail) (natOf 0 digits, digits.length) := by
  intro s _ hrest
  have hstop : ¬ (next ≠ Ascii.quote ∧ digits.length < 8) := by
    rintro ⟨hne, hlt⟩
    rcases hnext with h | h
    · exact hne h
    · omega
  rw [fracDigits, hrest, fracLoop_append hdigits (by simp) (by omega), Nat.zero_add, fracLoop,
    if_neg hstop]
  rfl

theorem reads_skipDigits {digits tail : Bytes} (hdigits : ∀ b ∈ digits, IsDigit b) :
    Reads skipDigits digits (Ascii.quote :: tail) () := by
  intro s _ hrest
  rw [skipDigits, hrest, skipLoop_append hdigits, skipLoop, if_neg (by simp)]
  rfl

theorem reads_fraction {frac : Option Bytes} (hfrac : ∀ b ∈ frac.getD [], IsDigit b)
    (tail : Bytes) :
    Reads fraction (DecimalText.fracText frac) (Ascii.quote :: tail)
      (natOf 0 ((frac.getD []).take 8), ((frac.getD []).take 8).length) := by
  intro s hsmall hrest
  cases frac with
  | none =>
      have hpeek : s.peek ≠ some Ascii.dot := by
        rw [peek_eq_head?, hrest, DecimalText.fracText, List.nil_append, List.head?_cons]
        decide
      rw [fraction, expectByte, if_neg hpeek]
      rfl
  | some frac =>
      have hpeek : s.peek = some Ascii.dot := by rw [peek_eq_head?, hrest]; rfl
      rw [fraction, expectByte, if_pos hpeek]
      -- the two loops share the digits: eight at most for the first, what is left for the second
      have hskip := @reads_skipDigits (frac.drop 8) tail
        fun b hb => hfrac b (List.mem_of_mem_drop hb)
      have hkept : ∀ b ∈ frac.take 8, IsDigit b := fun b hb => hfrac b (List.mem_of_mem_take hb)
      have hdigits : Reads fracDigits (frac.take 8) (frac.drop 8 ++ Ascii.quote :: tail)
          (natOf 0 (frac.take 8), (frac.take 8).length) := by
        cases hdrop : frac.drop 8 with
        | nil => exact reads_fracDigits hkept (by simp) (Or.inl rfl)
        | cons byte rest =>
            have hlength := congrArg List.length hdrop
            simp only [List.length_drop, List.length_cons] at hlength
            exact reads_fracDigits hkept (by simp) (Or.inr (by rw [List.length_take]; omega))
      have hbody : Reads (do
          let read ← fracDigits
          skipDigits
          return read) (frac.take 8 ++ (frac.drop 8 ++ [])) (Ascii.quote :: tail)
          (natOf 0 (frac.take 8), (frac.take 8).length) := by
        refine Reads.bind ?_ (hskip.bind (reads_pure _ _))
        rwa [List.append_nil]
      rw [List.append_nil, List.take_append_drop] at hbody
      have hrest' : (s.advance 1).rest = frac ++ Ascii.quote :: tail := by
        rw [rest_advance, hrest]
        rfl
      have hread := hbody (s.advance 1) hsmall hrest'
      rw [advance_advance, Nat.add_comm] at hread
      exact hread

end readQuotedDecimal

/-- A decimal text between quotes. -/
def quoted (text : Bytes) : Bytes := [Ascii.quote] ++ (text ++ [Ascii.quote])

open readQuotedDecimal in
/-- The fused reader reads every text that the plain parser accepts, as the same number. -/
theorem reads_readQuotedDecimal {text : Bytes} {v : FixedPoint}
    (hparse : FixedPoint.parse text = .ok (some v)) (tail : Bytes) :
    Reads readQuotedDecimal (quoted text) tail v := by
  obtain ⟨d, rfl, hraw⟩ := FixedPoint.parse_eq_some_iff.mp hparse
  refine (reads_require _ _).bind ?_
  have hfits := d.natOf_int_lt (hraw ▸ v.lt)
  have hint : Reads intPart d.int (DecimalText.fracText d.frac ++ ([Ascii.quote] ++ []) ++ tail)
      (natOf 0 d.int, d.int.length) := by
    cases d.frac with
    | none => exact reads_intPart d.int_digits hfits (Or.inr rfl)
    | some frac => exact reads_intPart d.int_digits hfits (Or.inl rfl)
  have hdigits : ¬ (d.int.length = 0 ∧ ((d.frac.getD []).take 8).length = 0) := d.not_no_digits
  have hcombine := (combine_eq_some_iff d.length_kept_le d.natOf_kept_lt).mpr hraw
  rw [DecimalText.text, List.append_assoc]
  refine hint.bind ((reads_fraction d.frac_digits tail).bind ?_)
  dsimp only
  rw [if_neg hdigits]
  exact (reads_require _ _).bind (reads_lift hcombine _)

/-! ### Levels -/

/-- A level as it is written, by the texts of its price and its amount. -/
def levelText (level : Bytes × Bytes) : Bytes :=
  [Ascii.openBracket]
    ++ (quoted level.1 ++ ([Ascii.comma] ++ (quoted level.2 ++ ([Ascii.closeBracket] ++ []))))

def Spells (text : Bytes × Bytes) (level : RawLevel) : Prop :=
  FixedPoint.parse text.1 = .ok (some level.price)
    ∧ FixedPoint.parse text.2 = .ok (some level.amount)

theorem reads_readLevel {text : Bytes × Bytes} {level : RawLevel} (h : Spells text level)
    (tail : Bytes) : Reads readLevel (levelText text) tail level :=
  (reads_require _ _).bind <| (reads_readQuotedDecimal h.1 _).bind <|
    (reads_require _ _).bind <| (reads_readQuotedDecimal h.2 _).bind <|
      (reads_require _ _).bind (reads_pure _ _)

/-- The levels `read_raw_levels` looks for. -/
def NonZero (level : RawLevel) : Prop := level.amount.raw ≠ 0

instance : DecidablePred NonZero := fun level => inferInstanceAs (Decidable (level.amount.raw ≠ 0))

def firstNonZero (N : Nat) (levels : List RawLevel) : ArrayVec RawLevel N :=
  ⟨(levels.filter NonZero).take N, List.length_take_le N _⟩

/-- The levels of an array, separated by commas, up to its closing bracket. -/
def levelsText (texts : List (Bytes × Bytes)) : Bytes :=
  List.intercalate [Ascii.comma] (texts.map levelText) ++ [Ascii.closeBracket]

/-- A compact array of levels. -/
def arrayText (texts : List (Bytes × Bytes)) : Bytes := [Ascii.openBracket] ++ levelsText texts

theorem levelsText_singleton (text : Bytes × Bytes) :
    levelsText [text] = levelText text ++ [Ascii.closeBracket] := by
  simp [levelsText]

theorem levelsText_cons_cons (text next : Bytes × Bytes) (texts : List (Bytes × Bytes)) :
    levelsText (text :: next :: texts)
      = levelText text ++ ([Ascii.comma] ++ levelsText (next :: texts)) := by
  simp [levelsText, List.intercalate]

theorem head?_levelsText_append (text : Bytes × Bytes) (texts : List (Bytes × Bytes))
    (tail : Bytes) : (levelsText (text :: texts) ++ tail).head? = some Ascii.openBracket := by
  cases texts with
  | nil => rw [levelsText_singleton]; rfl
  | cons next texts => rw [levelsText_cons_cons]; rfl

theorem exists_pushNonZero {N : Nat} {levels : ArrayVec RawLevel N} (hroom : levels.len < N)
    (level : RawLevel) : ∃ levels', pushNonZero levels level = some levels'
      ∧ levels'.toList = levels.toList ++ [level].filter NonZero := by
  unfold pushNonZero
  by_cases hzero : level.amount.raw ≠ 0
  · rw [if_pos hzero]
    refine ⟨⟨levels.toList ++ [level], by rw [List.length_append]; exact hroom⟩,
      ArrayVec.tryPush_eq_some_iff.mpr ⟨hroom, rfl⟩, ?_⟩
    simp [NonZero, hzero]
  · rw [if_neg hzero]
    refine ⟨levels, rfl, ?_⟩
    simp [NonZero, hzero]

theorem readRawLevels.loop_of_readLevel {N : Nat} {levels levels' : ArrayVec RawLevel N}
    {s s' : Scanner} {level : RawLevel} {byte : UInt8} (hlevel : readLevel s = .ok (some level, s'))
    (hpush : pushNonZero levels level = some levels') (hpeek : s'.peek = some byte) :
    readRawLevels.loop levels s =
      if byte = Ascii.comma then
        if levels'.len = N then .ok (some levels', s'.advance 1)
        else readRawLevels.loop levels' (s'.advance 1)
      else if byte = Ascii.closeBracket then .ok (some levels', s'.advance 1)
      else .ok (none, s') := by
  rw [readRawLevels.loop_eq, hlevel]
  dsimp only
  rw [hpush]
  dsimp only
  rw [hpeek]

/-- The loop reads the levels up to the end of the array, or up to the comma behind the level that
fills the vector. -/
theorem reads_readRawLevels_loop {N : Nat} {text : Bytes × Bytes} {texts : List (Bytes × Bytes)}
    {list : List RawLevel} (hspells : List.Forall₂ Spells (text :: texts) list)
    {levels : ArrayVec RawLevel N} (hroom : levels.len < N) (tail : Bytes) :
    ∃ consumed remaining out, levelsText (text :: texts) = consumed ++ remaining
      ∧ out.toList = (levels.toList ++ list.filter NonZero).take N
      ∧ Reads (readRawLevels.loop levels) consumed (remaining ++ tail) out := by
  induction texts generalizing text list levels with
  | nil =>
      obtain ⟨level, rest, hlevel, hnil, rfl⟩ := List.forall₂_cons_left_iff.mp hspells
      obtain rfl := List.forall₂_nil_left_iff.mp hnil
      obtain ⟨levels', hpush, hout⟩ := exists_pushNonZero hroom level
      refine ⟨levelsText [text], [], levels', (List.append_nil _).symm, ?_, ?_⟩
      · rw [← hout, List.take_of_length_le levels'.length_le]
      · intro s hsmall hrest
        rw [levelsText_singleton, List.append_assoc] at hrest
        have hread := reads_readLevel hlevel _ s hsmall hrest
        have hrest' := rest_advance_of_append hrest
        have hpeek : (s.advance (levelText text).length).peek = some Ascii.closeBracket := by
          rw [peek_eq_head?, hrest']
          rfl
        rw [readRawLevels.loop_of_readLevel hread hpush hpeek, if_neg (by decide), if_pos rfl,
          advance_advance, levelsText_singleton, List.length_append, List.length_singleton]
  | cons next texts ih =>
      obtain ⟨level, rest, hlevel, hspells', rfl⟩ := List.forall₂_cons_left_iff.mp hspells
      obtain ⟨levels', hpush, hout⟩ := exists_pushNonZero hroom level
      have hlist : levels.toList ++ (level :: rest).filter NonZero
          = levels'.toList ++ rest.filter NonZero := by
        rw [hout, List.append_assoc, ← List.filter_append]
        rfl
      rw [hlist, levelsText_cons_cons]
      have hround : ∀ (s : Scanner) (behind : Bytes), s.Small →
          s.rest = levelText text ++ ([Ascii.comma] ++ behind) →
          (s.advance ((levelText text).length + 1)).rest = behind ∧
          readRawLevels.loop levels s =
            if levels'.len = N then .ok (some levels', s.advance ((levelText text).length + 1))
            else readRawLevels.loop levels' (s.advance ((levelText text).length + 1)) := by
        intro s behind hsmall hrest
        have hread := reads_readLevel hlevel _ s hsmall hrest
        have hrest' := rest_advance_of_append hrest
        have hpeek : (s.advance (levelText text).length).peek = some Ascii.comma := by
          rw [peek_eq_head?, hrest']
          rfl
        rw [readRawLevels.loop_of_readLevel hread hpush hpeek, if_pos rfl, advance_advance,
          ← advance_advance]
        exact ⟨rest_advance_of_append hrest', rfl⟩
      by_cases hfull : levels'.len = N
      · -- full: the rest of the array stays unread
        refine ⟨levelText text ++ [Ascii.comma], levelsText (next :: texts), levels', by simp, ?_, ?_⟩
        · rw [List.take_append_of_le_length hfull.ge, List.take_of_length_le levels'.length_le]
        · intro s hsmall hrest
          rw [List.append_assoc] at hrest
          rw [(hround s _ hsmall hrest).2, if_pos hfull, List.length_append, List.length_singleton]
      · have hroom' : levels'.len < N := lt_of_le_of_ne levels'.length_le hfull
        obtain ⟨consumed, remaining, out, htext, htake, hreads⟩ := ih hspells' hroom'
        refine ⟨levelText text ++ ([Ascii.comma] ++ consumed), remaining, out, ?_, htake, ?_⟩
        · rw [htext, List.append_assoc, List.append_assoc]
        · intro s hsmall hrest
          rw [List.append_assoc, List.append_assoc] at hrest
          obtain ⟨hbehind, hloop⟩ := hround s _ hsmall hrest
          rw [hloop, if_neg hfull, hreads (s.advance _) hsmall hbehind, advance_advance]
          simp only [List.length_append, List.length_singleton, Nat.add_assoc]

/-- **Arrays.** Of a compact array the first `N` levels that count are read, and nothing behind the
array. -/
theorem reads_readRawLevels {N : Nat} (hN : 0 < N) {texts : List (Bytes × Bytes)}
    {list : List RawLevel} (hspells : List.Forall₂ Spells texts list) (tail : Bytes) :
    ∃ consumed remaining, arrayText texts = consumed ++ remaining
      ∧ Reads (readRawLevels N) consumed (remaining ++ tail) (firstNonZero N list) := by
  cases texts with
  | nil =>
      obtain rfl := List.forall₂_nil_left_iff.mp hspells
      refine ⟨arrayText [], [], (List.append_nil _).symm, ?_⟩
      refine (reads_require _ _).bind fun s _ hrest => ?_
      have hpeek : s.peek = some Ascii.closeBracket := by
        rw [peek_eq_head?, hrest]
        rfl
      have hempty : firstNonZero N [] = .empty := ArrayVec.ext (by simp [firstNonZero])
      rw [hempty]
      exact if_pos hpeek
  | cons text texts =>
      obtain ⟨consumed, remaining, out, htext, hout, hreads⟩ :=
        reads_readRawLevels_loop hspells (show ArrayVec.empty.len < N from hN) tail
      obtain rfl : out = firstNonZero N list := ArrayVec.ext hout
      refine ⟨[Ascii.openBracket] ++ consumed, remaining, ?_, ?_⟩
      · rw [arrayText, htext, List.append_assoc]
      · refine (reads_require _ _).bind fun s hsmall hrest => ?_
        have hpeek : s.peek ≠ some Ascii.closeBracket := by
          rw [peek_eq_head?, hrest, ← List.append_assoc, ← htext, head?_levelsText_append]
          decide
        exact (if_neg hpeek).trans (hreads s hsmall hrest)

/-- Twelve prices, best first. -/
def bidPrices : List (Fin 100) := [49, 48, 47, 46, 45, 44, 43, 42, 41, 40, 39, 38]

def askPrices : List (Fin 100) := [50, 51, 52, 53, 54, 55, 56, 57, 58, 59, 60, 61]

/-- A level at a whole price, of no amount if the price ends in three. -/
def levelAt (price : Fin 100) : RawLevel :=
  ⟨⟨price.val * 10 ^ 8, by omega⟩,
    if price.val % 10 = 3 then ⟨0, by decide⟩ else ⟨250000000, by decide⟩⟩

def textAt (price : Fin 100) : Bytes × Bytes :=
  ([digitByte (price.val / 10), digitByte (price.val % 10)],
    bytes (if price.val % 10 = 3 then "0" else "2.5"))

theorem spells_levelAt (price : Fin 100) : Spells (textAt price) (levelAt price) :=
  ⟨by decide +revert +kernel, by decide +revert +kernel⟩

theorem forall₂_spells_levelAt (prices : List (Fin 100)) :
    List.Forall₂ Spells (prices.map textAt) (prices.map levelAt) := by
  rw [List.forall₂_map_left_iff, List.forall₂_map_right_iff]
  exact List.forall₂_same.mpr fun price _ => spells_levelAt price

end Scanner

end OrderbookAggregator
