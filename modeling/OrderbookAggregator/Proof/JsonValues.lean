import OrderbookAggregator.Proof.JsonLevels

/-!
# Keys, numbers and strings

Seeking a key that stands only once finds it from everywhere before it. Behind a key stands a number
or a string. A string is scanned up to the first quote that no backslash escapes; where there is
none, the scan ends at the end of the buffer, or one past it when the last byte is a backslash that
escapes nothing.
-/

namespace OrderbookAggregator.Scanner

open Scan

/-! ### Keys -/

theorem seek_of_find_eq_none {memmem : Memmem} {needle : Bytes} {s : Scanner}
    (hpos : s.pos ≤ s.buf.length) (hfind : memmem.find needle s.rest = none) :
    seek memmem needle s = .ok (none, s) := by
  rw [seek, if_neg (Nat.not_lt.mpr hpos), hfind]

theorem seek_of_find_eq_some {memmem : Memmem} {needle : Bytes} {s : Scanner} {offset : Nat}
    (hpos : s.pos ≤ s.buf.length) (hfind : memmem.find needle s.rest = some offset) :
    seek memmem needle s = .ok (some (), s.advance (offset + needle.length)) := by
  rw [seek, if_neg (Nat.not_lt.mpr hpos), hfind]

theorem seek_of_occursOnlyAt (memmem : Memmem) {needle pre post : Bytes} {s : Scanner}
    (hbuf : s.buf = pre ++ needle ++ post) (honly : ∃! i, Search.OccursAt needle s.buf i)
    (hle : s.pos ≤ pre.length) :
    ∃ s', seek memmem needle s = .ok (some (), s') ∧ s'.buf = s.buf
      ∧ s'.pos = pre.length + needle.length ∧ s'.rest = post := by
  obtain ⟨i, hi, hunique⟩ := honly
  obtain rfl : pre.length = i := hunique _ (hbuf ▸ Search.occursAt_append pre needle post)
  have honly : Search.OccursOnlyAt needle s.buf (s.pos + (pre.length - s.pos)) := by
    rw [Nat.add_sub_cancel' hle]
    exact ⟨hi, hunique⟩
  have hfound := (memmem.find_spec needle s.rest).eq_some_of_occursOnlyAt honly.drop
  have hpos : s.pos ≤ s.buf.length := hle.trans hi.1
  refine ⟨s.advance (pre.length - s.pos + needle.length), seek_of_find_eq_some hpos hfound, rfl, ?_,
    ?_⟩
  · rw [pos_advance]
    omega
  · have hdrop : s.pos + (pre.length - s.pos + needle.length) = (pre ++ needle).length := by
      rw [List.length_append]
      omega
    rw [rest, buf_advance, pos_advance, hdrop, hbuf, List.drop_left]

theorem seek_of_occursOnlyAt_before (memmem : Memmem) {needle pre post : Bytes} {s : Scanner}
    (hbuf : s.buf = pre ++ needle ++ post) (honly : ∃! i, Search.OccursAt needle s.buf i)
    (hinside : s.pos ≤ s.buf.length) (hlt : pre.length < s.pos) :
    seek memmem needle s = .ok (none, s) := by
  have hat : Search.OccursAt needle s.buf pre.length :=
    hbuf ▸ Search.occursAt_append pre needle post
  have hnone : Search.FirstOccurrence needle s.rest none := by
    intro j hj
    have := honly.unique hat ((Search.occursAt_drop hinside).mp hj)
    omega
  exact seek_of_find_eq_none hinside ((memmem.find_spec needle s.rest).unique hnone)

/-! ### Whitespace -/

theorem skipWs.loop_append {ws rest : Bytes} {pos : Nat} (hws : ∀ b ∈ ws, Ascii.isWs b) :
    loop (ws ++ rest) pos = loop rest (pos + ws.length) := by
  induction ws generalizing pos with
  | nil => rfl
  | cons byte ws ih =>
      rw [List.forall_mem_cons] at hws
      rw [List.cons_append, loop, if_pos hws.1, ih hws.2, List.length_cons, Nat.add_assoc,
        Nat.add_comm 1]

theorem skipWs_of_append {s : Scanner} {ws rest : Bytes} (hrest : s.rest = ws ++ rest)
    (hws : ∀ b ∈ ws, Ascii.isWs b) (hstop : ∀ b ∈ rest.head?, Ascii.isWs b = false) :
    s.skipWs = s.advance ws.length := by
  have hloop : skipWs.loop rest (s.pos + ws.length) = s.pos + ws.length := by
    cases rest with
    | nil => rfl
    | cons byte rest => rw [skipWs.loop, hstop byte rfl, if_neg (by decide)]
  rw [skipWs, hrest, skipWs.loop_append hws, hloop]
  rfl

theorem skipWs_eq_self {s : Scanner} (hstop : ∀ b ∈ s.rest.head?, Ascii.isWs b = false) :
    s.skipWs = s :=
  @skipWs_of_append s [] s.rest rfl (by simp) hstop

theorem not_isWs_of_isDigit {byte : UInt8} (h : IsDigit byte) : Ascii.isWs byte = false := by
  by_contra hws
  simp only [Ascii.isWs, Bool.not_eq_false, decide_eq_true_eq] at hws
  rcases hws with rfl | rfl | rfl | rfl <;> exact absurd h (by decide)

theorem lt_of_isDigit {byte : UInt8} (h : IsDigit byte) : byte < 128 := by
  have hdigit : (byte - 48).toNat ≤ 9 := h
  rw [UInt8.toNat_sub] at hdigit
  have hbyte := byte.toNat_lt
  rw [UInt8.lt_iff_toNat_lt]
  simp at hdigit ⊢
  omega

theorem head?_digits_append {digits : Bytes} (hdigits : ∀ b ∈ digits, IsDigit b) :
    ∀ b ∈ (digits ++ [Ascii.quote]).head?, b < 128 ∨ 192 ≤ b := by
  cases digits with
  | nil =>
      intro b hb
      obtain rfl : Ascii.quote = b := Option.some_inj.mp hb
      decide
  | cons byte digits =>
      intro b hb
      obtain rfl : byte = b := Option.some_inj.mp hb
      exact Or.inl (lt_of_isDigit (hdigits _ List.mem_cons_self))

/-! ### Numbers -/

/-- `digits` is a way to write `n` in decimal. -/
def Decimal (n : Nat) (digits : Bytes) : Prop :=
  digits ≠ [] ∧ (∀ b ∈ digits, IsDigit b) ∧ natOf 0 digits = n

instance (n : Nat) (digits : Bytes) : Decidable (Decimal n digits) :=
  inferInstanceAs (Decidable (_ ∧ _ ∧ _))

theorem readU64.loop_append {digits rest : Bytes} {value pos : Nat}
    (hdigits : ∀ b ∈ digits, IsDigit b) (hfits : natOf value digits < 2 ^ 64) :
    loop (digits ++ rest) value pos = loop rest (natOf value digits) (pos + digits.length) := by
  induction digits generalizing value pos with
  | nil => rfl
  | cons byte digits ih =>
      rw [List.forall_mem_cons] at hdigits
      have hle := le_natOf (value * 10 + digitOf byte) digits
      rw [natOf_cons] at hfits
      rw [List.cons_append, loop, if_neg hdigits.1.not_lt, checked_digit, if_pos (by omega)]
      dsimp only
      rw [ih hdigits.2 hfits, natOf_cons, List.length_cons, Nat.add_assoc, Nat.add_comm 1]

/-- A number ends at the first byte that is not a digit. -/
theorem reads_readU64 {n : Nat} {digits tail : Bytes} (hdecimal : Decimal n digits)
    (hfits : n < 2 ^ 64) (htail : ∀ b ∈ tail.head?, ¬ IsDigit b) :
    Reads (total readU64) digits tail n := by
  intro s _ hrest
  obtain ⟨hne, hdigits, rfl⟩ := hdecimal
  obtain ⟨byte, digits, rfl⟩ := List.exists_cons_of_ne_nil hne
  have hskip : s.skipWs = s := skipWs_eq_self fun b hb => by
    rw [hrest, List.cons_append, List.head?_cons, Option.mem_some_iff] at hb
    exact hb ▸ not_isWs_of_isDigit (hdigits byte List.mem_cons_self)
  have hstop : ∀ value pos, readU64.loop tail value pos = (value, pos) := by
    intro value pos
    cases tail with
    | nil => rfl
    | cons next tail => rw [readU64.loop, if_pos (Nat.not_le.mp (htail next rfl))]
  have hread : s.readU64 = (natOf 0 (byte :: digits), s.advance (byte :: digits).length) := by
    rw [readU64, hskip, hrest, readU64.loop_append hdigits hfits, hstop]
    rfl
  rw [total, hread]

/-! ### Strings -/

/-- A piece of a string in which no quote stands unescaped and every backslash escapes a byte. -/
inductive StringBody : Bytes → Prop
  | nil : StringBody []
  | plain {byte : UInt8} {body : Bytes} : byte ≠ Ascii.quote → byte ≠ Ascii.backslash →
      StringBody body → StringBody (byte :: body)
  | escape {byte : UInt8} {body : Bytes} : StringBody body →
      StringBody (Ascii.backslash :: byte :: body)

theorem readString.loop_quote (rest : Bytes) (pos : Nat) :
    loop (Ascii.quote :: rest) pos = (true, pos) := by
  rw [loop.eq_def]
  rfl

theorem readString.loop_plain {byte : UInt8} {rest : Bytes} {pos : Nat}
    (hquote : byte ≠ Ascii.quote) (hbackslash : byte ≠ Ascii.backslash) :
    loop (byte :: rest) pos = loop rest (pos + 1) := by
  rw [loop.eq_def]
  dsimp only
  rw [if_neg hquote, if_neg hbackslash]

theorem readString.loop_escape (byte : UInt8) (rest : Bytes) (pos : Nat) :
    loop (Ascii.backslash :: byte :: rest) pos = loop rest (pos + 2) := by
  rw [loop.eq_def]
  rfl

theorem readString.loop_append {body rest : Bytes} {pos : Nat} (hbody : StringBody body) :
    loop (body ++ rest) pos = loop rest (pos + body.length) := by
  induction hbody generalizing pos with
  | nil => rfl
  | plain hquote hbackslash _ ih =>
      rw [List.cons_append, loop_plain hquote hbackslash, ih, List.length_cons, Nat.add_assoc,
        Nat.add_comm 1]
  | escape _ ih =>
      rw [List.cons_append, List.cons_append, loop_escape, ih, List.length_cons, List.length_cons,
        Nat.add_assoc, Nat.add_comm 2]

/-- Behind an opening quote there is a closed string, or an open one, or an open one that ends in a
backslash. -/
theorem stringBody_cases (text : Bytes) :
    (∃ body tail, StringBody body ∧ text = body ++ Ascii.quote :: tail) ∨ StringBody text
      ∨ ∃ body, StringBody body ∧ text = body ++ [Ascii.backslash] := by
  -- an escape takes two bytes
  induction hlength : text.length using Nat.strong_induction_on generalizing text with
  | _ n ih =>
    cases text with
    | nil => exact Or.inr (Or.inl .nil)
    | cons byte text =>
      rw [List.length_cons] at hlength
      by_cases hquote : byte = Ascii.quote
      · exact Or.inl ⟨[], text, .nil, by rw [hquote]; rfl⟩
      by_cases hbackslash : byte = Ascii.backslash
      · subst hbackslash
        cases text with
        | nil => exact Or.inr (Or.inr ⟨[], .nil, rfl⟩)
        | cons next text =>
          rw [List.length_cons] at hlength
          rcases ih text.length (by omega) text rfl with
            ⟨body, tail, hbody, rfl⟩ | hbody | ⟨body, hbody, rfl⟩
          · exact Or.inl ⟨_ :: next :: body, tail, .escape hbody, rfl⟩
          · exact Or.inr (Or.inl (.escape hbody))
          · exact Or.inr (Or.inr ⟨_ :: next :: body, .escape hbody, rfl⟩)
      · rcases ih text.length (by omega) text rfl with
          ⟨body, tail, hbody, rfl⟩ | hbody | ⟨body, hbody, rfl⟩
        · exact Or.inl ⟨byte :: body, tail, .plain hquote hbackslash hbody, rfl⟩
        · exact Or.inr (Or.inl (.plain hquote hbackslash hbody))
        · exact Or.inr (Or.inr ⟨byte :: body, .plain hquote hbackslash hbody, rfl⟩)

theorem stringBody_of_forall {body : Bytes}
    (hbody : ∀ b ∈ body, b ≠ Ascii.quote ∧ b ≠ Ascii.backslash) : StringBody body := by
  induction body with
  | nil => exact .nil
  | cons byte body ih =>
      rw [List.forall_mem_cons] at hbody
      exact .plain hbody.1.1 hbody.1.2 (ih hbody.2)

theorem not_isDigit_backslash : ¬ IsDigit Ascii.backslash := by decide

theorem stringBody_of_digits {digits : Bytes} (hdigits : ∀ b ∈ digits, IsDigit b) :
    StringBody digits := by
  apply stringBody_of_forall
  intro b hb
  refine ⟨(hdigits b hb).ne_quote, ?_⟩
  rintro rfl
  exact not_isDigit_backslash (hdigits _ hb)

theorem getSlice_of_drop {src body tail : Bytes} {start : Nat}
    (hdrop : src.drop start = body ++ Ascii.quote :: tail)
    (hboundary : ∀ b ∈ (body ++ [Ascii.quote]).head?, b < 128 ∨ 192 ≤ b) :
    getSlice src start (start + body.length) = some body := by
  have hget : ∀ i, src[start + i]? = (body ++ Ascii.quote :: tail)[i]? := by
    intro i
    rw [← hdrop, List.getElem?_drop]
  have hstart : isCharBoundary src start = true := by
    have hfirst := hget 0
    rw [Nat.add_zero] at hfirst
    cases body with
    | nil =>
        simp [isCharBoundary, hfirst]
        decide
    | cons byte body => simpa [isCharBoundary, hfirst] using hboundary
  have hstop : isCharBoundary src (start + body.length) = true := by
    have hlast := hget body.length
    simp [isCharBoundary, hlast]
    decide
  have hcut : (src.take (start + body.length)).drop start = body := by
    rw [List.drop_take, hdrop, Nat.add_sub_cancel_left, List.take_left]
  rw [getSlice, if_pos ⟨Nat.le_add_right _ _, hstart, hstop⟩, hcut]

/-- Behind whitespace and an opening quote, everything depends on the scan for the closing one. -/
theorem readString_of_open {s : Scanner} {ws inside : Bytes} (hws : ∀ b ∈ ws, Ascii.isWs b)
    (hrest : s.rest = ws ++ Ascii.quote :: inside) :
    readString s =
      match readString.loop inside (s.pos + ws.length + 1) with
      | (false, pos) => .ok (none, { s with pos })
      | (true, pos) =>
        match getSlice s.buf (s.pos + ws.length + 1) pos with
        | none => .ok (none, { s with pos })
        | some result => .ok (some result, { s with pos := pos + 1 }) := by
  have hskip : s.skipWs = s.advance ws.length := skipWs_of_append hrest hws (by simp; decide)
  have hbehind : (s.advance ws.length).rest = [Ascii.quote] ++ inside :=
    rest_advance_of_append hrest
  have hpeek : (s.advance ws.length).peek = some Ascii.quote := by
    rw [peek_eq_head?, hbehind]
    rfl
  have hinside : ((s.advance ws.length).advance 1).rest = inside := rest_advance_of_append hbehind
  rw [readString, hskip, if_neg (not_not_intro hpeek)]
  dsimp only
  rw [hinside]
  rfl

/-- Behind whitespace, a closed string whose first byte is not in the middle of a character. -/
theorem readString_of_closed {s : Scanner} {ws body tail : Bytes} (hws : ∀ b ∈ ws, Ascii.isWs b)
    (hbody : StringBody body) (hboundary : ∀ b ∈ (body ++ [Ascii.quote]).head?, b < 128 ∨ 192 ≤ b)
    (hrest : s.rest = ws ++ quoted body ++ tail) :
    readString s = .ok (some body, s.advance (ws ++ quoted body).length) := by
  have hopen : s.rest = ws ++ Ascii.quote :: (body ++ Ascii.quote :: tail) := by
    rw [hrest, quoted]
    simp
  have hdrop : s.buf.drop (s.pos + ws.length + 1) = body ++ Ascii.quote :: tail := by
    have hrest' := @rest_advance_of_append s (ws ++ [Ascii.quote]) (body ++ Ascii.quote :: tail)
      (by rw [hopen]; simp)
    rwa [List.length_append, List.length_singleton, rest, buf_advance, pos_advance,
      ← Nat.add_assoc] at hrest'
  have hloop : readString.loop (body ++ Ascii.quote :: tail) (s.pos + ws.length + 1)
      = (true, s.pos + ws.length + 1 + body.length) := by
    rw [readString.loop_append hbody, readString.loop_quote]
  rw [readString_of_open hws hopen, hloop]
  dsimp only
  rw [getSlice_of_drop hdrop hboundary]
  have hlength : s.pos + ws.length + 1 + body.length + 1 = s.pos + (ws ++ quoted body).length := by
    simp [quoted]
    omega
  rw [hlength]
  rfl

theorem reads_readString {body tail : Bytes} (hbody : StringBody body)
    (hboundary : ∀ b ∈ (body ++ [Ascii.quote]).head?, b < 128 ∨ 192 ≤ b) :
    Reads readString (quoted body) tail body :=
  fun _ _ hrest => @readString_of_closed _ [] _ _ nofun hbody hboundary hrest

/-! ### Messages

Every key stands once, in order, each with its value behind it. What else stands in the text does not
matter. The cursor never gets past a key that is still to be sought, not even where it stops in the
middle of an array. -/

/-- One array of levels: the key is sought from before it, and the cursor stops within the array. -/
theorem seek_then_readRawLevels (memmem : Memmem) {key pre post : Bytes}
    {texts : List (Bytes × Bytes)} {levels : List RawLevel}
    (hspells : List.Forall₂ Spells texts levels) {s : Scanner} (hsmall : s.Small)
    (hbuf : s.buf = pre ++ key ++ (arrayText texts ++ post))
    (honly : ∃! i, Search.OccursAt key s.buf i) (hle : s.pos ≤ pre.length) :
    ∃ s' s'', seek memmem key s = .ok (some (), s')
      ∧ readRawLevels depth s' = .ok (some (firstNonZero depth levels), s'')
      ∧ s''.buf = s.buf ∧ (pre ++ key).length ≤ s''.pos
      ∧ s''.pos ≤ (pre ++ key ++ arrayText texts).length := by
  obtain ⟨s', hseek, hbuf', hpos', hrest'⟩ := seek_of_occursOnlyAt memmem hbuf honly hle
  obtain ⟨consumed, remaining, htext, hreads⟩ :=
    reads_readRawLevels (show 0 < depth by decide) hspells post
  have hsmall' : s'.Small := hsmall.of_buf_eq hbuf'
  rw [htext, List.append_assoc] at hrest'
  refine ⟨s', s'.advance consumed.length, hseek, hreads s' hsmall' hrest', hbuf', ?_, ?_⟩
  · rw [pos_advance, hpos', List.length_append]
    exact Nat.le_add_right _ _
  · rw [pos_advance, hpos', htext]
    simp only [List.length_append]
    omega

theorem seek_both_sides (memmem : Memmem) {bidsKey asksKey pre mid post : Bytes}
    {bidTexts askTexts : List (Bytes × Bytes)} {bids asks : List RawLevel}
    (hbids : List.Forall₂ Spells bidTexts bids) (hasks : List.Forall₂ Spells askTexts asks)
    {s : Scanner} (hsmall : s.Small)
    (hbuf : s.buf = pre ++ bidsKey ++ arrayText bidTexts ++ mid ++ asksKey ++ arrayText askTexts
      ++ post)
    (honlyBids : ∃! i, Search.OccursAt bidsKey s.buf i)
    (honlyAsks : ∃! i, Search.OccursAt asksKey s.buf i) (hle : s.pos ≤ pre.length) :
    ∃ s₁ s₂ s₃ s₄, seek memmem bidsKey s = .ok (some (), s₁)
      ∧ readRawLevels depth s₁ = .ok (some (firstNonZero depth bids), s₂)
      ∧ seek memmem asksKey s₂ = .ok (some (), s₃)
      ∧ readRawLevels depth s₃ = .ok (some (firstNonZero depth asks), s₄) := by
  obtain ⟨s₁, s₂, hseek₁, hread₁, hbuf₂, -, hpos₂⟩ := @seek_then_readRawLevels memmem bidsKey pre
    (mid ++ asksKey ++ arrayText askTexts ++ post) bidTexts bids hbids s hsmall (by simp [hbuf])
    honlyBids hle
  obtain ⟨s₃, s₄, hseek₃, hread₃, -, -, -⟩ := @seek_then_readRawLevels memmem asksKey
    (pre ++ bidsKey ++ arrayText bidTexts ++ mid) post askTexts asks hasks s₂
    (hsmall.of_buf_eq hbuf₂) (by simp [hbuf₂, hbuf]) (by rwa [hbuf₂]) (hpos₂.trans (by simp))
  exact ⟨s₁, s₂, s₃, s₄, hseek₁, hread₁, hseek₃, hread₃⟩

theorem attempt_of_ok {α : Type} {x : Scan α} {s s' : Scanner} {o : Option α}
    (h : x s = .ok (o, s')) : Scan.attempt x s = .ok (some o, s') := by
  rw [Scan.attempt, h]

end OrderbookAggregator.Scanner
