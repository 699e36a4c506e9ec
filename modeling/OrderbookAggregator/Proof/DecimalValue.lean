import OrderbookAggregator.Proof.Decimal

/-!
# Decimal texts as rational numbers

A text of digits with at most one dot denotes a rational number. The parser accepts such a text if the
number, cut to eight fractional digits, fits the raw value, and the raw value is then that number in
units of `10^-8`. Printing writes a text that denotes the number itself, so parsing gives it back.
-/

namespace OrderbookAggregator

/-- Digits with at most one dot, and at least one digit. -/
def IsDecimal (text : Bytes) : Prop :=
  (∀ b ∈ text, IsDigit b ∨ b = Ascii.dot) ∧ text.count Ascii.dot ≤ 1 ∧ ∃ b ∈ text, IsDigit b

instance (text : Bytes) : Decidable (IsDecimal text) := inferInstanceAs (Decidable (_ ∧ _ ∧ _))

/-- What stands before the first dot, and what stands behind it. -/
def integerDigits (text : Bytes) : Bytes := text.takeWhile (· ≠ Ascii.dot)

def fractionDigits (text : Bytes) : Bytes := (text.dropWhile (· ≠ Ascii.dot)).tail

/-- The number that a decimal text denotes. -/
def rationalOf (text : Bytes) : ℚ :=
  natOf 0 (integerDigits text) + natOf 0 (fractionDigits text) / 10 ^ (fractionDigits text).length

/-! ### Digits -/

theorem natOf_eq_add (value : Nat) (digits : Bytes) :
    natOf value digits = value * 10 ^ digits.length + natOf 0 digits := by
  induction digits generalizing value with
  | nil => simp
  | cons byte digits ih =>
      rw [natOf_cons, natOf_cons, ih (value * 10 + digitOf byte), ih (0 * 10 + digitOf byte),
        List.length_cons]
      ring

/-- Of a fraction with `digits` behind the dot, the first eight digits are the whole part of `10^8`
times its value. -/
theorem natOf_take_eight {digits : Bytes} (hdigits : ∀ b ∈ digits, IsDigit b) :
    natOf 0 (digits.take 8) * 10 ^ (8 - (digits.take 8).length)
      = natOf 0 digits * 10 ^ 8 / 10 ^ digits.length := by
  have hpos : ∀ n, 0 < 10 ^ n := fun n => by positivity
  rcases le_total digits.length 8 with hle | hge
  · -- nothing is cut, and the padding is the missing powers of ten
    rw [List.take_of_length_le hle]
    have hpow : 10 ^ 8 = 10 ^ (8 - digits.length) * 10 ^ digits.length := by
      rw [← pow_add, Nat.sub_add_cancel hle]
    rw [hpow, ← mul_assoc, Nat.mul_div_cancel _ (hpos _)]
  · -- the digits that are cut count less than one
    have htail : natOf 0 (digits.drop 8) < 10 ^ (digits.drop 8).length := by
      simpa using natOf_lt (fun b hb => hdigits b (List.mem_of_mem_drop hb)) Nat.zero_lt_one
    have hsplit : natOf 0 digits
        = natOf 0 (digits.take 8) * 10 ^ (digits.drop 8).length + natOf 0 (digits.drop 8) := by
      rw [← natOf_eq_add, ← natOf_append, List.take_append_drop]
    have hpow : 10 ^ digits.length = 10 ^ (digits.drop 8).length * 10 ^ 8 := by
      rw [← pow_add, List.length_drop, Nat.sub_add_cancel hge]
    have hkept : (digits.take 8).length = 8 := by simpa using hge
    rw [hkept, Nat.sub_self, pow_zero, mul_one, hpow, Nat.mul_div_mul_right _ _ (hpos 8), hsplit,
      mul_comm, Nat.mul_add_div (hpos _), Nat.div_eq_of_lt htail, add_zero]

/-! ### The grammar -/

namespace DecimalText

theorem integerDigits_text (d : DecimalText) : integerDigits d.text = d.int := by
  have hint : ∀ b ∈ d.int, decide (b ≠ Ascii.dot) = true := by
    intro b hb
    exact decide_eq_true (d.int_digits b hb).ne_dot
  rw [integerDigits, text, List.takeWhile_append_of_pos hint]
  cases d.frac with
  | none => simp [fracText]
  | some frac => simp [fracText]

theorem fractionDigits_text (d : DecimalText) : fractionDigits d.text = d.frac.getD [] := by
  have hint : ∀ b ∈ d.int, decide (b ≠ Ascii.dot) = true := by
    intro b hb
    exact decide_eq_true (d.int_digits b hb).ne_dot
  rw [fractionDigits, text, List.dropWhile_append_of_pos hint]
  cases d.frac with
  | none => simp [fracText]
  | some frac => simp [fracText]

theorem count_dot_eq_zero {digits : Bytes} (hdigits : ∀ b ∈ digits, IsDigit b) :
    digits.count Ascii.dot = 0 :=
  List.count_eq_zero_of_not_mem fun hdot => not_isDigit_dot (hdigits _ hdot)

theorem isDecimal_text (d : DecimalText) : IsDecimal d.text := by
  have hfrac : ∀ b ∈ fracText d.frac, b ∈ d.frac.getD [] ∨ b = Ascii.dot := by
    intro b hb
    cases hd : d.frac with
    | none => simp [hd, fracText] at hb
    | some frac =>
        rw [hd, fracText, List.mem_cons] at hb
        exact hb.symm
  refine ⟨fun b hb => ?_, ?_, ?_⟩
  · rcases List.mem_append.mp hb with hb | hb
    · exact Or.inl (d.int_digits b hb)
    · exact (hfrac b hb).imp_left (d.frac_digits b)
  · rw [text, List.count_append, count_dot_eq_zero d.int_digits]
    have hdigits := d.frac_digits
    cases hd : d.frac with
    | none => simp [fracText]
    | some frac =>
        rw [hd, Option.getD_some] at hdigits
        rw [fracText, List.count_cons_self, count_dot_eq_zero hdigits]
  · rcases d.nonempty with hint | hfrac
    · obtain ⟨b, hb⟩ := List.exists_mem_of_ne_nil _ hint
      exact ⟨b, List.mem_append_left _ hb, d.int_digits b hb⟩
    · obtain ⟨b, hb⟩ := List.exists_mem_of_ne_nil _ hfrac
      refine ⟨b, List.mem_append_right _ ?_, d.frac_digits b hb⟩
      cases hd : d.frac with
      | none => simp [hd] at hb
      | some frac =>
          rw [hd] at hb
          exact List.mem_cons_of_mem _ hb

end DecimalText

/-- The grammar by counting and the grammar by cases are the same. -/
theorem isDecimal_iff_exists {text : Bytes} :
    IsDecimal text ↔ ∃ d : DecimalText, d.text = text := by
  constructor
  · rintro ⟨hbytes, hcount, hsome⟩
    by_cases hdot : Ascii.dot ∈ text
    · obtain ⟨int, frac, rfl⟩ := List.append_of_mem hdot
      rw [List.count_append, List.count_cons_self] at hcount
      have hint : ∀ b ∈ int, IsDigit b := by
        intro b hb
        refine (hbytes b (List.mem_append_left _ hb)).resolve_right ?_
        rintro rfl
        have := List.count_pos_iff.mpr hb
        omega
      have hfrac : ∀ b ∈ frac, IsDigit b := by
        intro b hb
        refine (hbytes b (List.mem_append_right _ (List.mem_cons_of_mem _ hb))).resolve_right ?_
        rintro rfl
        have := List.count_pos_iff.mpr hb
        omega
      have hnonempty : int ≠ [] ∨ frac ≠ [] := by
        obtain ⟨b, hb, hdigit⟩ := hsome
        rcases List.mem_append.mp hb with hb | hb
        · exact Or.inl (List.ne_nil_of_mem hb)
        · exact Or.inr (List.ne_nil_of_mem (List.mem_of_ne_of_mem hdigit.ne_dot hb))
      exact ⟨⟨int, some frac, hint, hfrac, hnonempty⟩, rfl⟩
    · have hdigits : ∀ b ∈ text, IsDigit b := fun b hb =>
        (hbytes b hb).resolve_right (by rintro rfl; exact hdot hb)
      obtain ⟨b, hb, -⟩ := hsome
      exact ⟨⟨text, none, hdigits, by simp, Or.inl (List.ne_nil_of_mem hb)⟩,
        List.append_nil text⟩
  · rintro ⟨d, rfl⟩
    exact d.isDecimal_text

/-- The value of a text in units of `10^-8` is its number, scaled and cut. -/
theorem DecimalText.raw_eq_floor (d : DecimalText) :
    (d.raw : ℤ) = ⌊rationalOf d.text * 10 ^ 8⌋ := by
  have hfrac := natOf_take_eight d.frac_digits
  set digits := d.frac.getD [] with hdigits
  have hpos : 0 < 10 ^ digits.length := by positivity
  have hrational : rationalOf d.text * 10 ^ 8
      = ((natOf 0 d.int * 10 ^ 8 * 10 ^ digits.length + natOf 0 digits * 10 ^ 8 : ℕ) : ℚ)
        / ((10 ^ digits.length : ℕ) : ℚ) := by
    rw [rationalOf, d.integerDigits_text, d.fractionDigits_text, ← hdigits]
    push_cast
    field_simp
    norm_num
  have hraw : d.raw = (natOf 0 d.int * 10 ^ 8 * 10 ^ digits.length + natOf 0 digits * 10 ^ 8)
      / 10 ^ digits.length := by
    rw [mul_comm _ (10 ^ digits.length), Nat.mul_add_div hpos, ← hfrac]
    rfl
  rw [hrational, Rat.floor_natCast_div_natCast, hraw]
  push_cast
  rfl

namespace FixedPoint

/-! ### Parsing -/

theorem exists_parse (text : Bytes) : ∃ o, FixedPoint.parse text = .ok o := by
  unfold FixedPoint.parse
  split
  · exact ⟨none, rfl⟩
  split
  · exact ⟨none, rfl⟩
  rename_i hint
  obtain ⟨digits, rfl, -, hrest, -⟩ := parse.exists_digits_of_intLoop hint (by norm_num)
  obtain ⟨o, ho, hspec⟩ := parse.exists_frac_of_fraction hrest
  rw [ho, Exec.ok_bind]
  cases o with
  | none => exact ⟨none, rfl⟩
  | some read =>
      obtain ⟨fracPart, fracDigits⟩ := read
      obtain ⟨frac, -, hfrac, rfl, rfl⟩ := hspec _ _ rfl
      dsimp only
      split
      · exact ⟨none, rfl⟩
      · have hkept : ∀ b ∈ (frac.getD []).take 8, IsDigit b :=
          fun b hb => hfrac b (List.mem_of_mem_take hb)
        exact ⟨_, combine_eq (by simp) (by simpa using natOf_lt hkept Nat.zero_lt_one)⟩

theorem parse_eq_some_iff_floor {text : Bytes} {v : FixedPoint} :
    FixedPoint.parse text = .ok (some v)
      ↔ IsDecimal text ∧ (v.raw : ℤ) = ⌊rationalOf text * 10 ^ 8⌋ := by
  rw [parse_eq_some_iff, isDecimal_iff_exists]
  constructor
  · rintro ⟨d, rfl, hraw⟩
    exact ⟨⟨d, rfl⟩, by rw [hraw, d.raw_eq_floor]⟩
  · rintro ⟨⟨d, rfl⟩, hraw⟩
    rw [← d.raw_eq_floor] at hraw
    exact ⟨d, rfl, by exact_mod_cast hraw⟩

/-- **The plain parser is exact.** It never overflows. It accepts the decimal texts whose number, cut
to eight fractional digits, fits a `u64`, and the raw value is that number. -/
theorem parse_exact (text : Bytes) :
    ∃ o, FixedPoint.parse text = .ok o
      ∧ (o.isSome ↔ IsDecimal text ∧ ⌊rationalOf text * 10 ^ 8⌋ ≤ 2 ^ 64 - 1)
      ∧ ∀ v ∈ o, (v.raw : ℤ) = ⌊rationalOf text * 10 ^ 8⌋ := by
  obtain ⟨o, ho⟩ := exists_parse text
  have hiff : ∀ v, o = some v ↔ IsDecimal text ∧ (v.raw : ℤ) = ⌊rationalOf text * 10 ^ 8⌋ := by
    intro v
    rw [← parse_eq_some_iff_floor, ho, Except.ok.injEq]
  refine ⟨o, ho, ?_, fun v hv => ((hiff v).mp hv).2⟩
  rw [Option.isSome_iff_exists]
  constructor
  · rintro ⟨v, hv⟩
    obtain ⟨hdecimal, hraw⟩ := (hiff v).mp hv
    have hlt : (v.raw : ℤ) < 2 ^ 64 := by exact_mod_cast v.lt
    exact ⟨hdecimal, by omega⟩
  · rintro ⟨hdecimal, hle⟩
    obtain ⟨d, rfl⟩ := isDecimal_iff_exists.mp hdecimal
    rw [← d.raw_eq_floor] at hle
    exact ⟨⟨d.raw, by omega⟩, (hiff _).mpr ⟨hdecimal, d.raw_eq_floor⟩⟩

end FixedPoint

/-! ### Printing -/

theorem digitOf_digitByte {digit : Nat} (h : digit < 10) : digitOf (digitByte digit) = digit := by
  interval_cases digit <;> rfl

theorem natOf_map_digitByte {digits : List Nat} (hdigits : ∀ d ∈ digits, d < 10) :
    natOf 0 (digits.reverse.map digitByte) = Nat.ofDigits 10 digits := by
  induction digits with
  | nil => rfl
  | cons digit digits ih =>
      rw [List.forall_mem_cons] at hdigits
      rw [List.reverse_cons, List.map_append, natOf_append, ih hdigits.2, Nat.ofDigits_cons,
        List.map_singleton, natOf_cons, natOf_nil, digitOf_digitByte hdigits.1]
      exact (add_comm _ _).trans (congrArg _ (mul_comm _ _))

theorem natOf_formatNat (n : Nat) : natOf 0 (formatNat n) = n := by
  unfold formatNat
  split
  · rename_i h
    exact h.symm
  · rw [natOf_map_digitByte fun d hd => Nat.digits_lt_base (by norm_num) hd, Nat.ofDigits_digits]

theorem isDigit_of_mem_formatNat {n : Nat} : ∀ b ∈ formatNat n, IsDigit b := by
  intro b hb
  unfold formatNat at hb
  split at hb
  · rw [List.mem_singleton] at hb
    subst hb
    decide
  · simp only [List.mem_map, List.mem_reverse] at hb
    obtain ⟨digit, hdigit, rfl⟩ := hb
    have hlt : digit < 10 := Nat.digits_lt_base (by norm_num) hdigit
    rw [IsDigit, digitOf_digitByte hlt]
    omega

theorem formatNat_ne_nil (n : Nat) : formatNat n ≠ [] := by
  unfold formatNat
  split
  · simp
  · simpa [Nat.digits_eq_nil_iff_eq_zero] using ‹n ≠ 0›

theorem length_formatNat_le {n width : Nat} (hwidth : 0 < width) (h : n < 10 ^ width) :
    (formatNat n).length ≤ width := by
  unfold formatNat
  split
  · exact hwidth
  · rw [List.length_map, List.length_reverse]
    exact (Nat.digits_length_le_iff (by norm_num) n).mpr h

theorem natOf_leftpad (width : Nat) (digits : Bytes) :
    natOf 0 (digits.leftpad width Ascii.zero) = natOf 0 digits := by
  have hzeros : ∀ n, natOf 0 (List.replicate n Ascii.zero) = 0 := by
    intro n
    induction n with
    | zero => rfl
    | succ n ih => exact ih
  rw [List.leftpad, natOf_append, hzeros]

namespace FixedPoint

/-- The text that is printed, as a decimal text. -/
def displayText (x : FixedPoint) : DecimalText where
  int := formatNat (x.raw / scale)
  frac := some ((formatNat (x.raw % scale)).leftpad 8 Ascii.zero)
  int_digits := isDigit_of_mem_formatNat
  frac_digits := by
    intro b hb
    rcases List.mem_append.mp hb with hb | hb
    · rw [List.eq_of_mem_replicate hb]
      decide
    · exact isDigit_of_mem_formatNat b hb
  nonempty := Or.inl (formatNat_ne_nil _)

theorem text_displayText (x : FixedPoint) : x.displayText.text = x.display := by
  rw [display, List.append_assoc]
  rfl

theorem length_fraction (x : FixedPoint) :
    ((formatNat (x.raw % scale)).leftpad 8 Ascii.zero).length = 8 := by
  have hlt : x.raw % scale < 10 ^ 8 := Nat.mod_lt _ (by norm_num [scale])
  have hle := length_formatNat_le (by norm_num) hlt
  rw [List.leftpad, List.length_append, List.length_replicate]
  omega

theorem raw_displayText (x : FixedPoint) : x.displayText.raw = x.raw := by
  have hkept : x.displayText.kept = (formatNat (x.raw % scale)).leftpad 8 Ascii.zero :=
    List.take_of_length_le x.length_fraction.le
  rw [DecimalText.raw, hkept, x.length_fraction, natOf_leftpad, natOf_formatNat, Nat.sub_self,
    pow_zero, mul_one]
  change natOf 0 (formatNat (x.raw / scale)) * scale + _ = _
  rw [natOf_formatNat, mul_comm]
  exact Nat.div_add_mod _ _

/-- What is printed is the number in full. -/
theorem rationalOf_display (x : FixedPoint) : rationalOf x.display = x.raw / 10 ^ 8 := by
  have hfraction : fractionDigits x.display = (formatNat (x.raw % scale)).leftpad 8 Ascii.zero := by
    rw [← text_displayText, DecimalText.fractionDigits_text]
    rfl
  have hint : integerDigits x.display = formatNat (x.raw / scale) := by
    rw [← text_displayText, DecimalText.integerDigits_text]
    rfl
  have hraw : (x.raw : ℚ) = (x.raw / scale : ℕ) * 10 ^ 8 + (x.raw % scale : ℕ) := by
    have := Nat.div_add_mod x.raw scale
    rw [scale] at *
    exact_mod_cast (by omega : x.raw = x.raw / 100000000 * 10 ^ 8 + x.raw % 100000000)
  rw [rationalOf, hint, hfraction, natOf_leftpad, natOf_formatNat, natOf_formatNat,
    x.length_fraction, hraw]
  field_simp

theorem parse_display (x : FixedPoint) : FixedPoint.parse x.display = .ok (some x) :=
  parse_eq_some_iff.mpr ⟨x.displayText, x.text_displayText, x.raw_displayText.symm⟩

/-- **Printing and parsing are inverse.** Parsing gives back every number that is printed, and
printing what was parsed denotes the number of the text, cut to eight fractional digits. -/
theorem display_parse :
    (∀ x : FixedPoint, FixedPoint.parse x.display = .ok (some x))
      ∧ ∀ text v, FixedPoint.parse text = .ok (some v) →
        rationalOf v.display = ⌊rationalOf text * 10 ^ 8⌋ / 10 ^ 8
          ∧ FixedPoint.parse v.display = FixedPoint.parse text := by
  refine ⟨parse_display, fun text v hparse => ⟨?_, ?_⟩⟩
  · rw [rationalOf_display, ← (parse_eq_some_iff_floor.mp hparse).2, Int.cast_natCast]
  · rw [parse_display, hparse]

set_option maxRecDepth 4096 in
theorem display_parse_ninthDigit :
    FixedPoint.parse (bytes "1.999999999") = .ok (some ⟨199999999, by norm_num⟩)
      ∧ rationalOf (bytes "1.99999999") = ⌊rationalOf (bytes "1.999999999") * 10 ^ 8⌋ / 10 ^ 8 := by
  have hparse : FixedPoint.parse (bytes "1.999999999") = .ok (some ⟨199999999, by norm_num⟩) := by
    decide
  exact ⟨hparse, (display_parse.2 _ _ hparse).1⟩

end FixedPoint

end OrderbookAggregator
