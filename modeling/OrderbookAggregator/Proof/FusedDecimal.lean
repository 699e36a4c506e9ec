import OrderbookAggregator.Proof.Cursor
import OrderbookAggregator.Proof.DecimalValue

/-!
# The fused decimal reader

Reading a quoted decimal in one pass is reading the string and parsing it. That a text the parser
accepts is read is known from what the readers read. Here is the converse: from a reader that
succeeded, what it has consumed. Consuming composes as reading does, with the text behind as a
parameter again, since where the digits are cut depends on it.
-/

namespace OrderbookAggregator

namespace Scan

variable {α β : Type}

/-- Where `x` succeeds, `spec` relates the text consumed, the text behind it and the value. -/
def Consumes (x : Scan α) (spec : Bytes → Bytes → α → Prop) : Prop :=
  ∀ ⦃s a s'⦄, x s = .ok (some a, s') →
    ∃ text tail, s.rest = text ++ tail ∧ s' = s.advance text.length ∧ spec text tail a

theorem Consumes.mono {x : Scan α} {spec spec' : Bytes → Bytes → α → Prop} (hx : Consumes x spec)
    (h : ∀ text tail a, spec text tail a → spec' text tail a) : Consumes x spec' := by
  intro s a s' hxs
  obtain ⟨text, tail, hrest, hs', hspec⟩ := hx hxs
  exact ⟨text, tail, hrest, hs', h _ _ _ hspec⟩

theorem consumes_pure (a : α) :
    Consumes (pure a : Scan α) fun text _ b => text = [] ∧ b = a := by
  intro s b s' h
  cases h
  exact ⟨[], s.rest, rfl, rfl, rfl, rfl⟩

theorem consumes_fail {spec : Bytes → Bytes → α → Prop} : Consumes fail spec := by
  intro s a s' h
  cases h

theorem consumes_lift (x : Exec (Option α)) :
    Consumes (lift x) fun text _ a => text = [] ∧ x = .ok (some a) := by
  intro s a s' h
  unfold lift at h
  split at h
  · cases h
  · cases h
    exact ⟨[], s.rest, rfl, rfl, rfl, rfl⟩

theorem lift_of_ok {x : Exec (Option α)} {o : Option α} (h : x = .ok o) (s : Scanner) :
    lift x s = .ok (o, s) := by
  rw [h]
  rfl

theorem Consumes.bind {x : Scan α} {f : α → Scan β} {first : Bytes → Bytes → α → Prop}
    {second : α → Bytes → Bytes → β → Prop} (hx : Consumes x first)
    (hf : ∀ a, Consumes (f a) (second a)) :
    Consumes (x >>= f) fun text tail b => ∃ before behind a, text = before ++ behind
      ∧ first before (behind ++ tail) a ∧ second a behind tail b := by
  intro s b s'' h
  rcases bind_eq_ok.mp h with ⟨-, hnone⟩ | ⟨a, s', hxs, hfs⟩
  · cases hnone
  obtain ⟨before, tail, hrest, rfl, hfirst⟩ := hx hxs
  obtain ⟨behind, tail', hrest', rfl, hsecond⟩ := hf a hfs
  rw [Scanner.rest_advance_of_append hrest] at hrest'
  subst hrest'
  refine ⟨before ++ behind, tail', ?_, ?_, before, behind, a, rfl, hfirst, hsecond⟩
  · rw [hrest, List.append_assoc]
  · rw [Scanner.advance_advance, List.length_append]

end Scan

namespace Scanner

open Scan

theorem consumes_require (byte : UInt8) : Consumes (require byte) fun text _ _ => text = [byte] := by
  intro s _ s' h
  unfold require expectByte at h
  by_cases hpeek : s.peek = some byte
  · rw [if_pos hpeek] at h
    cases h
    rw [peek_eq_head?, List.head?_eq_some_iff] at hpeek
    obtain ⟨tail, hrest⟩ := hpeek
    exact ⟨[byte], tail, hrest, rfl, rfl⟩
  · rw [if_neg hpeek] at h
    cases h

/-! ### Digits -/

namespace readQuotedDecimal

theorem exists_digits_of_intLoop {text : Bytes} {value count pos value' count' pos' : Nat}
    (h : intLoop text value count pos = .ok (some (value', count'), pos')) :
    ∃ digits rest, text = digits ++ rest ∧ (∀ b ∈ digits, IsDigit b) ∧ value' = natOf value digits
      ∧ count' = count + digits.length ∧ pos' = pos + digits.length := by
  induction text generalizing value count pos with
  | nil =>
      cases h
      exact ⟨[], [], rfl, by simp, rfl, rfl, rfl⟩
  | cons byte text ih =>
      rw [intLoop, checked_digit] at h
      split at h
      · cases h
        exact ⟨[], byte :: text, rfl, by simp, rfl, rfl, rfl⟩
      split at h
      · cases h
      rename_i hdigit
      by_cases hfits : value * 10 + digitOf byte < 2 ^ 64
      · rw [if_pos hfits] at h
        by_cases hcount : count + 1 < 2 ^ 32
        · rw [addU32_of_lt hcount] at h
          obtain ⟨digits, rest, rfl, hdigits, rfl, rfl, rfl⟩ := ih h
          refine ⟨byte :: digits, rest, rfl, ?_, rfl, ?_, ?_⟩
          · exact List.forall_mem_cons.mpr ⟨Nat.not_lt.mp hdigit, hdigits⟩
          · rw [List.length_cons, Nat.add_assoc, Nat.add_comm 1]
          · rw [List.length_cons, Nat.add_assoc, Nat.add_comm 1]
        · rw [addU32, if_neg hcount] at h
          cases h
      · rw [if_neg hfits] at h
        cases h

/-- The fraction loop stops behind eight digits, or at the closing quote, or at the end. -/
theorem exists_digits_of_fracLoop {text : Bytes} {value count pos value' count' pos' : Nat}
    (h : fracLoop text value count pos = .ok (some (value', count'), pos')) (hcount : count ≤ 8) :
    ∃ digits rest, text = digits ++ rest ∧ (∀ b ∈ digits, IsDigit b) ∧ value' = natOf value digits
      ∧ count' = count + digits.length ∧ pos' = pos + digits.length ∧ count' ≤ 8
      ∧ (count' = 8 ∨ ∀ b ∈ rest.head?, b = Ascii.quote) := by
  induction text generalizing value count pos with
  | nil =>
      cases h
      exact ⟨[], [], rfl, by simp, rfl, rfl, rfl, hcount, Or.inr (by simp)⟩
  | cons byte text ih =>
      rw [fracLoop] at h
      split at h
      · rename_i hroom
        split at h
        · cases h
        rename_i hdigit
        unfold mulU64 addU64 at h
        split at h
        · rw [Exec.ok_bind] at h
          split at h
          · rw [Exec.ok_bind, addU32_of_lt (by omega), Exec.ok_bind] at h
            obtain ⟨digits, rest, rfl, hdigits, rfl, rfl, rfl, hle, hstop⟩ := ih h hroom.2
            refine ⟨byte :: digits, rest, rfl, ?_, rfl, ?_, ?_, hle, hstop⟩
            · exact List.forall_mem_cons.mpr ⟨Nat.not_lt.mp hdigit, hdigits⟩
            · rw [List.length_cons, Nat.add_assoc, Nat.add_comm 1]
            · rw [List.length_cons, Nat.add_assoc, Nat.add_comm 1]
          · cases h
        · cases h
      · rename_i hstop
        cases h
        refine ⟨[], byte :: text, rfl, by simp, rfl, rfl, rfl, hcount, ?_⟩
        by_cases hquote : byte = Ascii.quote
        · exact Or.inr (by simp [hquote])
        · exact Or.inl (le_antisymm hcount (Nat.not_lt.mp fun hlt => hstop ⟨hquote, hlt⟩))

theorem exists_digits_of_skipLoop {text : Bytes} {pos pos' : Nat}
    (h : skipLoop text pos = (true, pos')) :
    ∃ digits rest, text = digits ++ rest ∧ (∀ b ∈ digits, IsDigit b) ∧ pos' = pos + digits.length := by
  induction text generalizing pos with
  | nil =>
      cases h
      exact ⟨[], [], rfl, by simp, rfl⟩
  | cons byte text ih =>
      rw [skipLoop] at h
      split at h
      · split at h
        · cases h
        rename_i hdigit
        obtain ⟨digits, rest, rfl, hdigits, rfl⟩ := ih h
        refine ⟨byte :: digits, rest, rfl, ?_, ?_⟩
        · exact List.forall_mem_cons.mpr ⟨Nat.not_lt.mp hdigit, hdigits⟩
        · rw [List.length_cons, Nat.add_assoc, Nat.add_comm 1]
      · cases h
        exact ⟨[], byte :: text, rfl, by simp, rfl⟩

theorem consumes_intPart : Consumes intPart fun text _ read =>
    (∀ b ∈ text, IsDigit b) ∧ read = (natOf 0 text, text.length) := by
  intro s read s' h
  unfold intPart at h
  cases hloop : intLoop s.rest 0 0 s.pos with
  | error panic =>
      rw [hloop] at h
      cases h
  | ok result =>
      obtain ⟨o, pos⟩ := result
      rw [hloop] at h
      cases h
      obtain ⟨digits, rest, hrest, hdigits, hvalue, hcount, hpos⟩ := exists_digits_of_intLoop hloop
      refine ⟨digits, rest, hrest, ?_, hdigits, ?_⟩
      · rw [hpos]
        rfl
      · rw [← hvalue, ← Nat.zero_add digits.length, ← hcount]

theorem consumes_fracDigits : Consumes fracDigits fun text tail read =>
    (∀ b ∈ text, IsDigit b) ∧ read = (natOf 0 text, text.length) ∧ text.length ≤ 8
      ∧ (text.length = 8 ∨ ∀ b ∈ tail.head?, b = Ascii.quote) := by
  intro s read s' h
  unfold fracDigits at h
  cases hloop : fracLoop s.rest 0 0 s.pos with
  | error panic =>
      rw [hloop] at h
      cases h
  | ok result =>
      obtain ⟨o, pos⟩ := result
      rw [hloop] at h
      cases h
      obtain ⟨digits, rest, hrest, hdigits, hvalue, hcount, hpos, hle, hstop⟩ :=
        exists_digits_of_fracLoop hloop (Nat.zero_le _)
      rw [Nat.zero_add] at hcount
      refine ⟨digits, rest, hrest, ?_, hdigits, ?_, hcount ▸ hle, hcount ▸ hstop⟩
      · rw [hpos]
        rfl
      · rw [← hvalue, ← hcount]

theorem consumes_skipDigits : Consumes skipDigits fun text _ _ => ∀ b ∈ text, IsDigit b := by
  intro s _ s' h
  unfold skipDigits at h
  split at h
  · rename_i pos hloop
    cases h
    obtain ⟨digits, rest, hrest, hdigits, rfl⟩ := exists_digits_of_skipLoop hloop
    exact ⟨digits, rest, hrest, rfl, hdigits⟩
  · cases h

/-- The digits that are read and those that are skipped make up the fraction. -/
theorem consumes_fraction : Consumes fraction fun text _ read =>
    ∃ frac, text = DecimalText.fracText frac ∧ (∀ b ∈ frac.getD [], IsDigit b)
      ∧ read = (natOf 0 ((frac.getD []).take 8), ((frac.getD []).take 8).length) := by
  intro s read s' h
  unfold fraction expectByte at h
  by_cases hdot : s.peek = some Ascii.dot
  · rw [if_pos hdot] at h
    obtain ⟨text, tail, hrest, rfl, kept, _, _, rfl, ⟨hkept, rfl, hle, hstop⟩, skipped, _, _, rfl,
      hskipped, rfl, rfl⟩ := (consumes_fracDigits.bind fun read =>
        consumes_skipDigits.bind fun _ => consumes_pure read) h
    rw [List.append_nil] at hrest hstop ⊢
    rw [peek_eq_head?, List.head?_eq_some_iff] at hdot
    obtain ⟨behind, hbehind⟩ := hdot
    have hafter : (s.advance 1).rest = behind := by
      rw [rest_advance, hbehind]
      rfl
    rw [hafter] at hrest
    subst hrest
    -- digits are skipped only behind the eighth
    have htake : (kept ++ skipped).take 8 = kept := by
      cases skipped with
      | nil => rw [List.append_nil, List.take_of_length_le hle]
      | cons byte skipped =>
          have hfull : kept.length = 8 := hstop.resolve_right fun hquote =>
            (hskipped byte List.mem_cons_self).ne_quote (hquote byte rfl)
          rw [← hfull, List.take_left]
    refine ⟨Ascii.dot :: (kept ++ skipped), tail, hbehind, ?_, some (kept ++ skipped), rfl, ?_, ?_⟩
    · rw [advance_advance, List.length_cons, Nat.add_comm]
    · intro b hb
      exact (List.mem_append.mp hb).elim (hkept b) (hskipped b)
    · rw [Option.getD_some, htake]
  · rw [if_neg hdot] at h
    cases h
    exact ⟨[], s.rest, rfl, rfl, none, rfl, by simp, rfl⟩

end readQuotedDecimal

open readQuotedDecimal in
/-- A quoted decimal that was read is a text that the plain parser accepts, between quotes. -/
theorem consumes_readQuotedDecimal : Consumes readQuotedDecimal fun text _ v =>
    ∃ inner, text = quoted inner ∧ FixedPoint.parse inner = .ok (some v) := by
  intro s v s' h
  obtain ⟨text, tail, hrest, rfl, _, _, _, rfl, rfl, int, _, _, rfl, ⟨hint, rfl⟩, _, behind, _, rfl,
    ⟨frac, rfl, hfrac, rfl⟩, hend⟩ := ((consumes_require Ascii.quote).bind fun _ =>
      consumes_intPart.bind fun int => consumes_fraction.bind fun frac =>
        (show Consumes _ fun text _ v => (¬ (int.2 = 0 ∧ frac.2 = 0)) ∧ text = [Ascii.quote]
            ∧ FixedPoint.combine int.1 frac.1 frac.2 = .ok (some v) by
          dsimp only
          split
          · exact consumes_fail
          · rename_i hsome
            refine ((consumes_require Ascii.quote).bind fun _ => consumes_lift _).mono ?_
            rintro _ _ v ⟨_, _, _, rfl, rfl, rfl, hcombine⟩
            exact ⟨hsome, rfl, hcombine⟩)) h
  obtain ⟨hsome, rfl, hcombine⟩ := hend
  have hnonempty : int ≠ [] ∨ frac.getD [] ≠ [] := by
    by_contra hnone
    simp only [not_or, not_not] at hnone
    exact hsome (by simp [hnone.1, hnone.2])
  let d : DecimalText := ⟨int, frac, hint, hfrac, hnonempty⟩
  have hraw := (combine_eq_some_iff d.length_kept_le d.natOf_kept_lt).mp hcombine
  refine ⟨_, tail, hrest, rfl, d.text, ?_, FixedPoint.parse_eq_some_iff.mpr ⟨d, rfl, hraw⟩⟩
  rw [quoted, DecimalText.text, List.append_assoc]

/-- **Quoted decimals.** What the fused reader reads. -/
theorem readQuotedDecimal_eq_some_iff {s s' : Scanner} {v : FixedPoint} (hsmall : s.Small) :
    readQuotedDecimal s = .ok (some v, s') ↔ ∃ text tail, s.rest = quoted text ++ tail
      ∧ s' = s.advance (quoted text).length ∧ FixedPoint.parse text = .ok (some v) := by
  constructor
  · intro h
    obtain ⟨_, tail, hrest, rfl, text, rfl, hparse⟩ := consumes_readQuotedDecimal h
    exact ⟨text, tail, hrest, rfl, hparse⟩
  · rintro ⟨text, tail, hrest, rfl, hparse⟩
    exact reads_readQuotedDecimal hparse tail s hsmall hrest

/-! ### The plain path -/

/-- Reading the string and parsing it. -/
def readStringThenParse : Scan FixedPoint := do
  let text ← readString
  Scan.lift (FixedPoint.parse text)

theorem stringBody_of_parse {text : Bytes} {v : FixedPoint}
    (hparse : FixedPoint.parse text = .ok (some v)) :
    StringBody text ∧ ∀ b ∈ (text ++ [Ascii.quote]).head?, b < 128 ∨ 192 ≤ b := by
  obtain ⟨d, rfl, -⟩ := FixedPoint.parse_eq_some_iff.mp hparse
  have hbytes : ∀ b ∈ d.text, IsDigit b ∨ b = Ascii.dot := d.isDecimal_text.1
  constructor
  · apply stringBody_of_forall
    intro b hb
    rcases hbytes b hb with hdigit | rfl
    · refine ⟨hdigit.ne_quote, ?_⟩
      rintro rfl
      exact not_isDigit_backslash hdigit
    · exact ⟨by decide, by decide⟩
  · intro b hb
    obtain ⟨rest, hrest⟩ := List.head?_eq_some_iff.mp hb
    have hmem : b ∈ d.text ++ [Ascii.quote] := hrest ▸ List.mem_cons_self
    rcases List.mem_append.mp hmem with hmem | hmem
    · rcases hbytes b hmem with hdigit | rfl
      · exact Or.inl (lt_of_isDigit hdigit)
      · exact Or.inl (by decide)
    · rw [List.mem_singleton.mp hmem]
      exact Or.inl (by decide)

/-- A string that was read at a quote stands between that quote and another one. -/
theorem exists_of_readString {s s' : Scanner} {text : Bytes} (hquote : s.peek = some Ascii.quote)
    (h : readString s = .ok (some text, s')) :
    ∃ tail, s.rest = quoted text ++ tail ∧ s' = s.advance (quoted text).length := by
  rw [peek_eq_head?, List.head?_eq_some_iff] at hquote
  obtain ⟨inside, hrest⟩ := hquote
  rw [@readString_of_open s [] inside nofun hrest] at h
  have hdrop : s.buf.drop (s.pos + 1) = inside := by
    have hinside := @rest_advance_of_append s [Ascii.quote] inside hrest
    exact hinside
  rcases stringBody_cases inside with ⟨body, tail, hbody, rfl⟩ | hbody | ⟨body, hbody, rfl⟩
  · rw [readString.loop_append hbody, readString.loop_quote] at h
    dsimp only at h
    split at h
    · cases h
    · rename_i hslice
      cases h
      unfold getSlice at hslice
      split at hslice
      · cases hslice
        have hbody : (s.buf.take (s.pos + 1 + body.length)).drop (s.pos + 1) = body := by
          rw [List.drop_take, hdrop, Nat.add_sub_cancel_left, List.take_left]
        rw [List.length_nil, Nat.add_zero, hbody]
        refine ⟨tail, by rw [hrest, quoted]; simp, ?_⟩
        rw [advance]
        congr 1
        simp [quoted]
        omega
      · cases hslice
  · have hloop := @readString.loop_append inside [] (s.pos + 0 + 1) hbody
    rw [List.append_nil] at hloop
    rw [List.length_nil, hloop] at h
    cases h
  · have hloop : readString.loop [Ascii.backslash] (s.pos + 0 + 1 + body.length)
        = (false, s.pos + 0 + 1 + body.length + 2) := by
      rw [readString.loop.eq_def]
      rfl
    rw [List.length_nil, readString.loop_append hbody, hloop] at h
    cases h

theorem readStringThenParse_eq_some_iff {s s' : Scanner} {v : FixedPoint}
    (hquote : s.peek = some Ascii.quote) :
    readStringThenParse s = .ok (some v, s') ↔ ∃ text tail, s.rest = quoted text ++ tail
      ∧ s' = s.advance (quoted text).length ∧ FixedPoint.parse text = .ok (some v) := by
  constructor
  · intro h
    rcases bind_eq_ok.mp h with ⟨-, hnone⟩ | ⟨text, s'', hread, hparse⟩
    · cases hnone
    obtain ⟨tail, hrest, rfl⟩ := exists_of_readString hquote hread
    obtain ⟨o, ho⟩ := FixedPoint.exists_parse text
    cases (lift_of_ok ho _).symm.trans hparse
    exact ⟨text, tail, hrest, rfl, ho⟩
  · rintro ⟨text, tail, hrest, rfl, hparse⟩
    obtain ⟨hbody, hboundary⟩ := stringBody_of_parse hparse
    have hread := @readString_of_closed s [] text tail nofun hbody hboundary hrest
    exact (bind_of_some hread).trans (lift_of_ok hparse _)

theorem exists_readStringThenParse (s : Scanner) : ∃ result, readStringThenParse s = .ok result := by
  obtain ⟨⟨o, s'⟩, hread⟩ := exists_readString s
  cases o with
  | none => exact ⟨_, bind_of_none hread⟩
  | some text =>
      obtain ⟨o, ho⟩ := FixedPoint.exists_parse text
      exact ⟨(o, s'), (bind_of_some hread).trans (lift_of_ok ho _)⟩

/-- **One pass or two.** At a quote the fused reader and the plain path return the same. If that is a
number, both have read the same text and stand just behind its closing quote. -/
theorem readQuotedDecimal_agrees {s : Scanner} (hsmall : s.Small)
    (hquote : s.peek = some Ascii.quote) :
    ∃ o s₁ s₂, readQuotedDecimal s = .ok (o, s₁) ∧ readStringThenParse s = .ok (o, s₂)
      ∧ ∀ v ∈ o, s₂ = s₁ ∧ ∃ text tail, readString s = .ok (some text, s₁)
        ∧ FixedPoint.parse text = .ok (some v) ∧ s.rest = quoted text ++ tail
        ∧ s₁ = s.advance (quoted text).length := by
  have hinside : s.Inside := (lt_length_of_peek hquote).le
  obtain ⟨o, s₁, hfused, -⟩ := staysInside_readQuotedDecimal s hsmall hinside
  obtain ⟨⟨o', s₂⟩, hplain⟩ := exists_readStringThenParse s
  have hiff : ∀ v s', readQuotedDecimal s = .ok (some v, s')
      ↔ readStringThenParse s = .ok (some v, s') := fun v s' =>
    (readQuotedDecimal_eq_some_iff hsmall).trans (readStringThenParse_eq_some_iff hquote).symm
  cases o with
  | none =>
      cases o' with
      | none => exact ⟨none, s₁, s₂, hfused, hplain, by simp⟩
      | some v =>
          have := (hiff v s₂).mpr hplain
          rw [hfused] at this
          cases this
  | some v =>
      obtain ⟨text, tail, hrest, hs₁, hparse⟩ := (readQuotedDecimal_eq_some_iff hsmall).mp hfused
      obtain ⟨hbody, hboundary⟩ := stringBody_of_parse hparse
      have hread := @readString_of_closed s [] text tail nofun hbody hboundary hrest
      refine ⟨some v, s₁, s₁, hfused, (hiff v s₁).mp hfused, fun w hw => ?_⟩
      obtain rfl : v = w := Option.some_inj.mp hw
      exact ⟨rfl, text, tail, hs₁ ▸ hread, hparse, hrest, hs₁⟩

theorem readQuotedDecimal_agrees_padded :
    ∃ o s₁ s₂, readQuotedDecimal ⟨bytes "[\"01.5\"", 1⟩ = .ok (o, s₁)
      ∧ readStringThenParse ⟨bytes "[\"01.5\"", 1⟩ = .ok (o, s₂)
      ∧ ∀ v ∈ o, s₂ = s₁ ∧ ∃ text tail, readString ⟨bytes "[\"01.5\"", 1⟩ = .ok (some text, s₁)
        ∧ FixedPoint.parse text = .ok (some v)
        ∧ (⟨bytes "[\"01.5\"", 1⟩ : Scanner).rest = quoted text ++ tail
        ∧ s₁ = (⟨bytes "[\"01.5\"", 1⟩ : Scanner).advance (quoted text).length :=
  readQuotedDecimal_agrees (show 7 < 2 ^ 32 by decide) (by decide)

end Scanner

end OrderbookAggregator
