import OrderbookAggregator.Types

/-!
# Decimal texts

What the decimal parsers accept, as data: digits, a dot and more digits or nothing, at least one
digit in all. The value counts the first eight fractional digits and drops the rest.
-/

namespace OrderbookAggregator

def IsDigit (byte : UInt8) : Prop := digitOf byte ≤ 9

instance (byte : UInt8) : Decidable (IsDigit byte) := inferInstanceAs (Decidable (_ ≤ _))

/-- The number that digits spell, after the number spelled so far. -/
def natOf (value : Nat) (digits : Bytes) : Nat :=
  digits.foldl (fun value byte => value * 10 + digitOf byte) value

@[simp]
theorem natOf_nil (value : Nat) : natOf value [] = value := rfl

@[simp]
theorem natOf_cons (value : Nat) (byte : UInt8) (digits : Bytes) :
    natOf value (byte :: digits) = natOf (value * 10 + digitOf byte) digits := rfl

theorem natOf_append (value : Nat) (digits more : Bytes) :
    natOf value (digits ++ more) = natOf (natOf value digits) more :=
  List.foldl_append

theorem le_natOf (value : Nat) (digits : Bytes) : value ≤ natOf value digits := by
  induction digits generalizing value with
  | nil => exact le_rfl
  | cons byte digits ih =>
      have := ih (value * 10 + digitOf byte)
      rw [natOf_cons]
      omega

theorem natOf_lt {value bound : Nat} {digits : Bytes} (hdigits : ∀ b ∈ digits, IsDigit b)
    (hvalue : value < bound) : natOf value digits < bound * 10 ^ digits.length := by
  induction digits generalizing value bound with
  | nil => simpa using hvalue
  | cons byte digits ih =>
      rw [List.forall_mem_cons] at hdigits
      have hbyte : digitOf byte ≤ 9 := hdigits.1
      have hnext := @ih (value * 10 + digitOf byte) (bound * 10) hdigits.2 (by omega)
      rw [natOf_cons, List.length_cons, pow_succ]
      calc natOf (value * 10 + digitOf byte) digits
          < bound * 10 * 10 ^ digits.length := hnext
        _ = bound * (10 ^ digits.length * 10) := by ring

theorem checked_digit (value digit : Nat) :
    (checkedMulU64 value 10).bind (checkedAddU64 · digit)
      = if value * 10 + digit < 2 ^ 64 then some (value * 10 + digit) else none := by
  unfold checkedMulU64 checkedAddU64
  by_cases h : value * 10 < 2 ^ 64
  · rw [if_pos h]
    rfl
  · rw [if_neg h, if_neg (by omega)]
    rfl

theorem not_isDigit_dot : ¬ IsDigit Ascii.dot := by decide

theorem not_isDigit_quote : ¬ IsDigit Ascii.quote := by decide

theorem IsDigit.not_lt {byte : UInt8} (h : IsDigit byte) : ¬ 9 < digitOf byte := Nat.not_lt.mpr h

theorem IsDigit.ne_dot {byte : UInt8} (h : IsDigit byte) : byte ≠ Ascii.dot := by
  rintro rfl
  exact not_isDigit_dot h

theorem IsDigit.ne_quote {byte : UInt8} (h : IsDigit byte) : byte ≠ Ascii.quote := by
  rintro rfl
  exact not_isDigit_quote h

/-- One more fractional digit, while there is room, overflows nothing. -/
theorem fraction_step {value count : Nat} {byte : UInt8} (hvalue : value < 10 ^ count)
    (hcount : count < 8) (hbyte : IsDigit byte) :
    mulU64 value 10 = .ok (value * 10)
      ∧ addU64 (value * 10) (digitOf byte) = .ok (value * 10 + digitOf byte)
      ∧ value * 10 + digitOf byte < 10 ^ (count + 1) := by
  have hbyte : digitOf byte ≤ 9 := hbyte
  have hnext : value * 10 + digitOf byte < 10 ^ (count + 1) := by
    rw [pow_succ]
    omega
  have hbound : 10 ^ (count + 1) ≤ 10 ^ 8 := Nat.pow_le_pow_right (by norm_num) (by omega)
  norm_num at hbound
  exact ⟨mulU64_of_lt (by omega), addU64_of_lt (by omega), hnext⟩

/-- The text of a decimal number. `frac` is what follows the dot, if there is one. -/
structure DecimalText where
  int : Bytes
  frac : Option Bytes
  int_digits : ∀ b ∈ int, IsDigit b
  frac_digits : ∀ b ∈ frac.getD [], IsDigit b
  nonempty : int ≠ [] ∨ frac.getD [] ≠ []

namespace DecimalText

/-- A fraction as it is written. -/
def fracText : Option Bytes → Bytes
  | none => []
  | some frac => Ascii.dot :: frac

def text (d : DecimalText) : Bytes := d.int ++ fracText d.frac

/-- The fractional digits that count. -/
def kept (d : DecimalText) : Bytes := (d.frac.getD []).take 8

/-- The value in units of `10^-8`, whatever its size. -/
def raw (d : DecimalText) : Nat :=
  natOf 0 d.int * scale + natOf 0 d.kept * 10 ^ (8 - d.kept.length)

theorem length_kept_le (d : DecimalText) : d.kept.length ≤ 8 := by
  simp [kept]

theorem isDigit_of_mem_kept (d : DecimalText) : ∀ b ∈ d.kept, IsDigit b :=
  fun b hb => d.frac_digits b (List.mem_of_mem_take hb)

theorem natOf_kept_lt (d : DecimalText) : natOf 0 d.kept < 10 ^ d.kept.length := by
  simpa using natOf_lt d.isDigit_of_mem_kept Nat.zero_lt_one

/-- The digits that are counted are not both absent. -/
theorem not_no_digits (d : DecimalText) : ¬ (d.int.length = 0 ∧ d.kept.length = 0) := by
  rintro ⟨hint, hkept⟩
  have hnonempty := d.nonempty
  simp only [kept, List.length_take, List.length_eq_zero_iff] at hint hkept
  have hfrac : d.frac.getD [] = [] := List.length_eq_zero_iff.mp (by omega)
  exact hnonempty.elim (· hint) (· hfrac)

theorem text_ne_nil (d : DecimalText) : d.text ≠ [] := by
  intro h
  obtain ⟨hint, hfrac⟩ := List.append_eq_nil_iff.mp h
  cases hd : d.frac with
  | none => exact d.not_no_digits (by simp [hint, kept, hd])
  | some frac => simp [hd, fracText] at hfrac

theorem natOf_int_lt (d : DecimalText) (hfits : d.raw < 2 ^ 64) : natOf 0 d.int < 2 ^ 64 := by
  have hscale : natOf 0 d.int * 1 ≤ natOf 0 d.int * scale :=
    Nat.mul_le_mul_left _ (by norm_num [scale])
  have hle : natOf 0 d.int * scale ≤ d.raw := Nat.le_add_right _ _
  omega

end DecimalText

/-! ### The last lines of the parsers -/

theorem indexed_pow10 {i : Nat} (hi : i ≤ 8) : indexed pow10 i = .ok (10 ^ i) := by
  interval_cases i <;> rfl

/-- With at most eight fractional digits nothing overflows, and the result is the exact value if it
fits. -/
theorem combine_eq {intPart fracPart fracDigits : Nat} (hdigits : fracDigits ≤ 8)
    (hfrac : fracPart < 10 ^ fracDigits) :
    FixedPoint.combine intPart fracPart fracDigits
      = .ok (if h : intPart * scale + fracPart * 10 ^ (8 - fracDigits) < 2 ^ 64 then
          some ⟨_, h⟩ else none) := by
  have hpadded : fracPart * 10 ^ (8 - fracDigits) < scale := by
    calc fracPart * 10 ^ (8 - fracDigits)
        < 10 ^ fracDigits * 10 ^ (8 - fracDigits) :=
          Nat.mul_lt_mul_of_pos_right hfrac (by positivity)
      _ = scale := by rw [← pow_add, Nat.add_sub_cancel' hdigits]; norm_num [scale]
  have hfits : fracPart * 10 ^ (8 - fracDigits) < 2 ^ 64 := hpadded.trans (by norm_num [scale])
  unfold FixedPoint.combine
  rw [subU32_of_le hdigits, Exec.ok_bind, indexed_pow10 (Nat.sub_le 8 fracDigits), Exec.ok_bind,
    mulU64_of_lt hfits, Exec.ok_bind]
  by_cases hscaled : intPart * scale < 2 ^ 64
  · rw [checkedMulU64_of_lt hscaled]
    dsimp only
    split <;> rfl
  · rw [checkedMulU64_of_not_lt hscaled, dif_neg (by omega)]
    rfl

theorem combine_eq_some_iff {intPart fracPart fracDigits : Nat} (hdigits : fracDigits ≤ 8)
    (hfrac : fracPart < 10 ^ fracDigits) {v : FixedPoint} :
    FixedPoint.combine intPart fracPart fracDigits = .ok (some v)
      ↔ v.raw = intPart * scale + fracPart * 10 ^ (8 - fracDigits) := by
  rw [combine_eq hdigits hfrac, Except.ok.injEq]
  constructor
  · intro h
    split at h
    · cases h; rfl
    · cases h
  · intro h
    have hlt := h ▸ v.lt
    rw [dif_pos hlt, Option.some_inj]
    exact FixedPoint.ext h.symm

/-! ### The plain parser -/

namespace FixedPoint.parse

/-- The integer loop reads past digits whose number fits. -/
theorem intLoop_append {digits rest : Bytes} {value i : Nat} (hdigits : ∀ b ∈ digits, IsDigit b)
    (hfits : natOf value digits < 2 ^ 64) :
    intLoop (digits ++ rest) value i = intLoop rest (natOf value digits) (i + digits.length) := by
  induction digits generalizing value i with
  | nil => rfl
  | cons byte digits ih =>
      rw [List.forall_mem_cons] at hdigits
      have hle := le_natOf (value * 10 + digitOf byte) digits
      rw [natOf_cons] at hfits
      rw [List.cons_append, intLoop, if_neg hdigits.1.ne_dot, if_neg hdigits.1.not_lt, checked_digit,
        if_pos (by omega)]
      dsimp only
      rw [ih hdigits.2 hfits, natOf_cons, List.length_cons, Nat.add_assoc, Nat.add_comm 1]

/-- What the integer loop returns tells what it has read: digits whose number fits, up to a dot or
the end. -/
theorem exists_digits_of_intLoop {text rest : Bytes} {value i value' i' : Nat}
    (h : intLoop text value i = some (value', i', rest)) (hvalue : value < 2 ^ 64) :
    ∃ digits, text = digits ++ rest ∧ (∀ b ∈ digits, IsDigit b)
      ∧ (∀ b ∈ rest.head?, b = Ascii.dot) ∧ value' = natOf value digits ∧ value' < 2 ^ 64
      ∧ i' = i + digits.length := by
  induction text generalizing value i with
  | nil =>
      cases h
      exact ⟨[], rfl, by simp, by simp, rfl, hvalue, rfl⟩
  | cons byte text ih =>
      rw [intLoop, checked_digit] at h
      split at h
      · rename_i hdot
        cases h
        exact ⟨[], rfl, by simp, by simp [hdot], rfl, hvalue, rfl⟩
      split at h
      · cases h
      rename_i hdigit
      by_cases hfits : value * 10 + digitOf byte < 2 ^ 64
      · rw [if_pos hfits] at h
        obtain ⟨digits, rfl, hdigits, hrest, rfl, hlt, rfl⟩ := ih h hfits
        exact ⟨byte :: digits, rfl, List.forall_mem_cons.mpr ⟨Nat.not_lt.mp hdigit, hdigits⟩, hrest,
          rfl, hlt, by simp; omega⟩
      · rw [if_neg hfits] at h
        cases h

/-- The fraction loop reads past digits as long as there is room for them. -/
theorem fracLoop_append {digits rest : Bytes} {value count : Nat}
    (hdigits : ∀ b ∈ digits, IsDigit b) (hvalue : value < 10 ^ count)
    (hcount : count + digits.length ≤ 8) :
    fracLoop (digits ++ rest) value count
      = fracLoop rest (natOf value digits) (count + digits.length) := by
  induction digits generalizing value count with
  | nil => rfl
  | cons byte digits ih =>
      rw [List.forall_mem_cons] at hdigits
      rw [List.length_cons] at hcount
      obtain ⟨hshift, hadd, hnext⟩ := fraction_step hvalue (by omega) hdigits.1
      rw [List.cons_append, fracLoop, if_pos (by omega), if_neg hdigits.1.not_lt, hshift,
        Exec.ok_bind, hadd, Exec.ok_bind, addU32_of_lt (by omega), Exec.ok_bind,
        ih hdigits.2 hnext (by omega), natOf_cons, List.length_cons, Nat.add_assoc, Nat.add_comm 1]

/-- The fraction loop never panics, and what it returns tells what it has read: digits up to the
eighth or the end. -/
theorem exists_digits_of_fracLoop {text : Bytes} {value count : Nat}
    (hvalue : value < 10 ^ count) (hcount : count ≤ 8) :
    ∃ o, fracLoop text value count = .ok o ∧ ∀ value' count' rest, o = some (value', count', rest) →
      ∃ digits, text = digits ++ rest ∧ (∀ b ∈ digits, IsDigit b) ∧ (rest = [] ∨ count' = 8)
        ∧ value' = natOf value digits ∧ count' = count + digits.length ∧ count' ≤ 8 := by
  induction text generalizing value count with
  | nil =>
      refine ⟨_, rfl, fun value' count' rest h => ?_⟩
      cases h
      exact ⟨[], by simp [hcount]⟩
  | cons byte text ih =>
      rw [fracLoop]
      split
      · rename_i hroom
        split
        · exact ⟨none, rfl, by simp⟩
        · rename_i hdigit
          obtain ⟨hshift, hadd, hnext⟩ := fraction_step hvalue hroom (Nat.not_lt.mp hdigit)
          rw [hshift, Exec.ok_bind, hadd, Exec.ok_bind, addU32_of_lt (by omega), Exec.ok_bind]
          obtain ⟨o, ho, hspec⟩ := ih hnext hroom
          refine ⟨o, ho, fun value' count' rest h => ?_⟩
          obtain ⟨digits, rfl, hdigits, hstop, rfl, rfl, hle⟩ := hspec _ _ _ h
          exact ⟨byte :: digits, rfl, List.forall_mem_cons.mpr ⟨Nat.not_lt.mp hdigit, hdigits⟩,
            hstop, rfl, by simp; omega, hle⟩
      · rename_i hfull
        refine ⟨_, rfl, fun value' count' rest h => ?_⟩
        cases h
        exact ⟨[], by simp; omega⟩

theorem skipLoop_iff {text : Bytes} : skipLoop text = true ↔ ∀ b ∈ text, IsDigit b := by
  induction text with
  | nil => simp [skipLoop]
  | cons byte text ih =>
      rw [skipLoop, List.forall_mem_cons, ← ih]
      by_cases hdigit : IsDigit byte
      · rw [if_neg hdigit.not_lt]
        simp [hdigit]
      · rw [if_pos (Nat.not_le.mp hdigit)]
        simp [hdigit]

end FixedPoint.parse

namespace FixedPoint

theorem parse.fraction_fracText {frac : Option Bytes} (hfrac : ∀ b ∈ frac.getD [], IsDigit b) :
    parse.fraction (DecimalText.fracText frac)
      = .ok (some (natOf 0 ((frac.getD []).take 8), ((frac.getD []).take 8).length)) := by
  cases frac with
  | none => rfl
  | some frac =>
      have hkept : ∀ b ∈ frac.take 8, IsDigit b := fun b hb => hfrac b (List.mem_of_mem_take hb)
      have hloop := @parse.fracLoop_append (frac.take 8) (frac.drop 8) 0 0 hkept (by simp) (by simp)
      have hstop : parse.fracLoop (frac.drop 8) (natOf 0 (frac.take 8)) (0 + (frac.take 8).length)
          = .ok (some (natOf 0 (frac.take 8), (frac.take 8).length, frac.drop 8)) := by
        rw [Nat.zero_add]
        cases hdrop : frac.drop 8 with
        | nil => rfl
        | cons byte rest =>
            have hlength := congrArg List.length hdrop
            simp only [List.length_drop, List.length_cons] at hlength
            rw [parse.fracLoop, if_neg (by rw [List.length_take]; omega)]
            rfl
      rw [List.take_append_drop, hstop] at hloop
      have hskip : parse.skipLoop (frac.drop 8) = true :=
        parse.skipLoop_iff.mpr fun b hb => hfrac b (List.mem_of_mem_drop hb)
      rw [DecimalText.fracText, parse.fraction, if_pos rfl, hloop, Exec.ok_bind]
      simp [hskip]

theorem parse.exists_frac_of_fraction {rest : Bytes} (hrest : ∀ b ∈ rest.head?, b = Ascii.dot) :
    ∃ o, parse.fraction rest = .ok o ∧ ∀ fracPart fracDigits, o = some (fracPart, fracDigits) →
      ∃ frac, rest = DecimalText.fracText frac ∧ (∀ b ∈ frac.getD [], IsDigit b)
        ∧ fracPart = natOf 0 ((frac.getD []).take 8)
        ∧ fracDigits = ((frac.getD []).take 8).length := by
  cases rest with
  | nil =>
      refine ⟨_, rfl, fun fracPart fracDigits h => ?_⟩
      cases h
      exact ⟨none, rfl, by simp, rfl, rfl⟩
  | cons byte rest =>
      obtain rfl : byte = Ascii.dot := hrest byte rfl
      obtain ⟨o, ho, hspec⟩ := @parse.exists_digits_of_fracLoop rest 0 0 (by simp) (by simp)
      rw [parse.fraction, if_pos rfl, ho, Exec.ok_bind]
      cases o with
      | none => exact ⟨none, rfl, by simp⟩
      | some read =>
          obtain ⟨value, count, rest'⟩ := read
          refine ⟨_, rfl, fun fracPart fracDigits h => ?_⟩
          split at h
          · rename_i hskip
            cases h
            obtain ⟨digits, rfl, hdigits, hstop, rfl, rfl, hle⟩ := hspec _ _ _ rfl
            have hkept : (digits ++ rest').take 8 = digits := by
              rcases hstop with rfl | hfull
              · rw [List.append_nil, List.take_of_length_le (by omega)]
              · rw [Nat.zero_add] at hfull
                rw [← hfull, List.take_left]
            refine ⟨some (digits ++ rest'), rfl, ?_, ?_, ?_⟩
            · intro b hb
              rcases List.mem_append.mp hb with hb | hb
              · exact hdigits b hb
              · exact parse.skipLoop_iff.mp hskip b hb
            · rw [Option.getD_some, hkept]
            · rw [Option.getD_some, hkept, Nat.zero_add]
          · cases h

/-- **What the plain parser accepts**, and the value it gives it. -/
theorem parse_eq_some_iff {text : Bytes} {v : FixedPoint} :
    FixedPoint.parse text = .ok (some v) ↔ ∃ d : DecimalText, d.text = text ∧ v.raw = d.raw := by
  constructor
  · intro h
    unfold FixedPoint.parse at h
    split at h
    · cases h
    split at h
    · cases h
    rename_i intPart intDigits rest hint
    obtain ⟨digits, rfl, hdigits, hrest, rfl, -, rfl⟩ :=
      parse.exists_digits_of_intLoop hint (by norm_num)
    obtain ⟨o, ho, hspec⟩ := parse.exists_frac_of_fraction hrest
    rw [ho, Exec.ok_bind] at h
    cases o with
    | none => cases h
    | some read =>
        obtain ⟨fracPart, fracDigits⟩ := read
        obtain ⟨frac, rfl, hfrac, rfl, rfl⟩ := hspec _ _ rfl
        dsimp only at h
        split at h
        · cases h
        rename_i hsome
        have hnonempty : digits ≠ [] ∨ frac.getD [] ≠ [] := by
          by_contra hnone
          simp only [not_or, not_not] at hnone
          exact hsome (by simp [hnone.1, hnone.2])
        let d : DecimalText := ⟨digits, frac, hdigits, hfrac, hnonempty⟩
        exact ⟨d, rfl, (combine_eq_some_iff d.length_kept_le d.natOf_kept_lt).mp h⟩
  · rintro ⟨d, rfl, hv⟩
    have hint := d.natOf_int_lt (hv ▸ v.lt)
    unfold FixedPoint.parse
    have hloop := @parse.intLoop_append d.int (DecimalText.fracText d.frac) 0 0 d.int_digits hint
    have hstop : parse.intLoop (DecimalText.fracText d.frac) (natOf 0 d.int) (0 + d.int.length)
        = some (natOf 0 d.int, d.int.length, DecimalText.fracText d.frac) := by
      rw [Nat.zero_add]
      cases d.frac with
      | none => rfl
      | some frac => rw [DecimalText.fracText, parse.intLoop, if_pos rfl]
    rw [if_neg d.text_ne_nil, DecimalText.text, hloop, hstop]
    dsimp only
    rw [parse.fraction_fracText d.frac_digits, Exec.ok_bind]
    change (if d.int.length = 0 ∧ d.kept.length = 0 then _ else _) = _
    rw [if_neg d.not_no_digits]
    exact (combine_eq_some_iff d.length_kept_le d.natOf_kept_lt).mpr hv

end FixedPoint

end OrderbookAggregator
