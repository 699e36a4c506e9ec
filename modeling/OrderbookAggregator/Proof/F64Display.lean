import OrderbookAggregator.Proof.DecimalValue
import OrderbookAggregator.Proof.F64

/-!
# What the display of a double denotes

A double is printed with as few digits as tell it apart from the others. The text is a decimal, and
the number that it denotes is rounded to the double: seventeen digits are always enough.
-/

namespace OrderbookAggregator

open Rounding

theorem DecimalText.rationalOf_text (d : DecimalText) :
    rationalOf d.text = natOf 0 d.int + natOf 0 (d.frac.getD []) / 10 ^ (d.frac.getD []).length := by
  rw [rationalOf, d.integerDigits_text, d.fractionDigits_text]

namespace F64

/-! ### The digits in their places -/

theorem natOf_zeros (value n : Nat) :
    natOf value (List.replicate n Ascii.zero) = value * 10 ^ n := by
  induction n generalizing value with
  | zero => exact (mul_one value).symm
  | succ n ih =>
      rw [List.replicate_succ, natOf_cons, ih, pow_succ']
      exact mul_assoc value 10 _

theorem isDigit_zeros (n : Nat) : ∀ b ∈ List.replicate n Ascii.zero, IsDigit b := by
  intro b hb
  rw [List.eq_of_mem_replicate hb]
  decide

namespace Decimal

variable (d : Decimal)

def digits : Bytes := (formatNat d.significand).rdropWhile (· = Ascii.zero)

/-- How many digits stand before the dot. -/
def point : Int := (formatNat d.significand).length + d.power

theorem exists_zeros :
    ∃ zeros, formatNat d.significand = d.digits ++ List.replicate zeros Ascii.zero := by
  have hzeros : ∀ b ∈ (formatNat d.significand).rtakeWhile (· = Ascii.zero), b = Ascii.zero := by
    intro b hb
    simpa using List.mem_rtakeWhile_imp hb
  refine ⟨_, Eq.trans ?_ (congrArg _ (List.eq_replicate_iff.mpr ⟨rfl, hzeros⟩))⟩
  exact List.rdropWhile_append_rtakeWhile.symm

theorem isDigit_digits : ∀ b ∈ d.digits, IsDigit b := by
  intro b hb
  exact isDigit_of_mem_formatNat b ((List.rdropWhile_prefix _ _).subset hb)

/-- The number, by the digits and the place of the dot. -/
theorem value_eq : d.value = natOf 0 d.digits * 10 ^ (d.point - d.digits.length) := by
  obtain ⟨zeros, hall⟩ := d.exists_zeros
  have hlength := congrArg List.length hall
  rw [List.length_append, List.length_replicate] at hlength
  have hsignificand := congrArg (natOf 0) hall
  rw [natOf_formatNat, natOf_append, natOf_zeros] at hsignificand
  have hpower : d.point - d.digits.length = zeros + d.power := by
    rw [point, hlength]
    push_cast
    ring
  rw [value, hpower, hsignificand, zpow_add₀ (by norm_num), zpow_natCast]
  push_cast
  ring

theorem exists_text : ∃ text : DecimalText, text.text = d.positional ∧ rationalOf text.text = d.value := by
  have hdigits := d.isDigit_digits
  have hpositional : d.positional =
      if d.point ≤ 0 then
        [Ascii.zero, Ascii.dot] ++ List.replicate (-d.point).toNat Ascii.zero ++ d.digits
      else if d.point < d.digits.length then
        d.digits.take d.point.toNat ++ Ascii.dot :: d.digits.drop d.point.toNat
      else d.digits ++ List.replicate (d.point.toNat - d.digits.length) Ascii.zero := rfl
  rw [hpositional, d.value_eq]
  split_ifs with hpoint hinside
  · -- the dot stands before all digits
    refine ⟨⟨[Ascii.zero], some (List.replicate (-d.point).toNat Ascii.zero ++ d.digits), ?_, ?_,
      Or.inl (List.cons_ne_nil _ _)⟩, rfl, ?_⟩
    · exact isDigit_zeros 1
    · intro b hb
      exact (List.mem_append.mp hb).elim (isDigit_zeros _ b) (hdigits b)
    · have hexp : d.point - d.digits.length = -((-d.point).toNat + d.digits.length : ℕ) := by
        push_cast [Int.toNat_of_nonneg (neg_nonneg.mpr hpoint)]
        ring
      have hfrac : natOf 0 (List.replicate (-d.point).toNat Ascii.zero ++ d.digits)
          = natOf 0 d.digits := by
        rw [natOf_append, natOf_zeros, zero_mul]
      have hint : natOf 0 [Ascii.zero] = 0 := rfl
      rw [DecimalText.rationalOf_text]
      simp only [Option.getD_some]
      rw [hfrac, hint, hexp, zpow_neg, zpow_natCast, List.length_append, List.length_replicate,
        Nat.cast_zero, zero_add, div_eq_mul_inv]
  · -- the dot stands between two digits
    have hpos : 0 < d.point := not_le.mp hpoint
    have hlength : (d.digits.take d.point.toNat).length = d.point.toNat := by
      rw [List.length_take, Nat.min_eq_left]
      omega
    refine ⟨⟨d.digits.take d.point.toNat, some (d.digits.drop d.point.toNat), ?_, ?_,
      Or.inl fun hnil => ?_⟩, rfl, ?_⟩
    · exact fun b hb => hdigits b (List.mem_of_mem_take hb)
    · exact fun b hb => hdigits b (List.mem_of_mem_drop hb)
    · rw [hnil, List.length_nil] at hlength
      omega
    · have hexp : d.point - d.digits.length = -((d.digits.drop d.point.toNat).length : ℤ) := by
        rw [List.length_drop]
        omega
      have hall : natOf 0 d.digits = natOf 0 (d.digits.take d.point.toNat)
          * 10 ^ (d.digits.drop d.point.toNat).length + natOf 0 (d.digits.drop d.point.toNat) := by
        rw [← natOf_eq_add, ← natOf_append, List.take_append_drop]
      rw [DecimalText.rationalOf_text]
      simp only [Option.getD_some]
      rw [hall, hexp, zpow_neg, zpow_natCast]
      push_cast
      field_simp
  · -- the dot stands behind all digits, and is not written
    refine ⟨⟨d.digits ++ List.replicate (d.point.toNat - d.digits.length) Ascii.zero, none, ?_,
      fun b hb => (List.not_mem_nil hb).elim, Or.inl fun hnil => ?_⟩, List.append_nil _, ?_⟩
    · intro b hb
      exact (List.mem_append.mp hb).elim (hdigits b) (isDigit_zeros _ b)
    · have hlength := congrArg List.length hnil
      rw [List.length_append, List.length_replicate, List.length_nil] at hlength
      omega
    · have hexp : d.point - d.digits.length = (d.point.toNat - d.digits.length : ℕ) := by omega
      rw [DecimalText.rationalOf_text, hexp, zpow_natCast, natOf_append, natOf_zeros]
      push_cast
      simp

end Decimal

/-! ### Enough digits -/

theorem round_of_closest {x : ℚ} {digits : Nat} {d : Decimal} (h : closest x digits = some d) :
    round d.value = x := by
  simp only [closest] at h
  split_ifs at h with habove hbelow
  · cases h
    exact habove.1
  · cases h
    exact hbelow

/-- One of the two multiples of the unit around a number is within half of the unit. -/
theorem exists_near {x unit : ℚ} (hunit : 0 < unit) (hx : 0 ≤ x) {good : ℚ → Prop}
    (hgood : ∀ y, |y - x| ≤ unit / 2 → good y) :
    good ((⌊x / unit⌋₊ + 1 : ℕ) * unit)
        ∧ (⌊x / unit⌋₊ + 1 : ℕ) * unit - x ≤ x - (⌊x / unit⌋₊ : ℕ) * unit
      ∨ good ((⌊x / unit⌋₊ : ℕ) * unit) := by
  have hbelow : (⌊x / unit⌋₊ : ℚ) * unit ≤ x := by
    rw [← le_div_iff₀ hunit]
    exact Nat.floor_le (div_nonneg hx hunit.le)
  have habove : x < ((⌊x / unit⌋₊ + 1 : ℕ) : ℚ) * unit := by
    rw [← div_lt_iff₀ hunit]
    exact_mod_cast Nat.lt_floor_add_one (x / unit)
  have hgap : ((⌊x / unit⌋₊ + 1 : ℕ) : ℚ) * unit = (⌊x / unit⌋₊ : ℚ) * unit + unit := by
    push_cast
    ring
  rcases le_total (((⌊x / unit⌋₊ + 1 : ℕ) : ℚ) * unit - x) (x - (⌊x / unit⌋₊ : ℚ) * unit)
    with hcloser | hcloser
  · refine Or.inl ⟨hgood _ ?_, hcloser⟩
    rw [abs_of_pos (sub_pos.mpr habove)]
    linarith
  · refine Or.inr (hgood _ ?_)
    rw [abs_sub_comm, abs_of_nonneg (sub_nonneg.mpr hbelow)]
    linarith

theorem closest_ne_none {x : ℚ} (hx : 0 ≤ x) {digits : Nat}
    (hnear : ∀ y, |y - x| ≤ 10 ^ (Int.log 10 x + 1 - digits) / 2 → round y = x) :
    closest x digits ≠ none := by
  have hunit : (0 : ℚ) < 10 ^ (Int.log 10 x + 1 - digits) := zpow_pos (by norm_num) _
  unfold closest
  dsimp only
  rcases exists_near hunit hx hnear with ⟨habove, hcloser⟩ | hbelow
  · rw [if_pos ⟨habove, Or.inr hcloser⟩]
    exact Option.some_ne_none _
  · split_ifs
    · exact Option.some_ne_none _
    · exact Option.some_ne_none _
    · exact absurd hbelow ‹_›

/-- Half of the last of seventeen digits is close enough. -/
theorem round_eq_of_seventeen {x : ℚ} (hx : 0 < x) (hfixed : round x = x) {y : ℚ}
    (hy : |y - x| ≤ 10 ^ (Int.log 10 x + 1 - (17 : ℕ)) / 2) : round y = x := by
  refine roundTo_eq_of_near (by norm_num) hx hfixed (hy.trans_lt ?_)
  have hlog : (10 : ℚ) ^ Int.log 10 x ≤ x := by
    exact_mod_cast Int.zpow_log_le_self (by norm_num : 1 < 10) hx
  have hexp : Int.log 10 x + 1 - (17 : ℕ) = Int.log 10 x - (16 : ℕ) := by
    push_cast
    ring
  rw [hexp, zpow_sub₀ (by norm_num), zpow_natCast, div_div,
    div_lt_div_iff₀ (by norm_num) (by norm_num)]
  calc (10 : ℚ) ^ Int.log 10 x * 2 ^ (53 + 1)
      ≤ x * 2 ^ (53 + 1) := mul_le_mul_of_nonneg_right hlog (by norm_num)
    _ < x * (10 ^ 16 * 2) := mul_lt_mul_of_pos_left (by norm_num) hx

theorem exists_shortest {x : ℚ} (hx : 0 < x) (hfixed : round x = x) :
    ∃ d, shortest x = some d ∧ round d.value = x := by
  obtain ⟨d, hd⟩ : ∃ d, shortest x = some d := by
    rw [← Option.ne_none_iff_exists', shortest, ne_eq, List.findSome?_eq_none_iff]
    intro hnone
    exact closest_ne_none hx.le (fun y => round_eq_of_seventeen hx hfixed)
      (hnone 16 (List.mem_range.mpr (by norm_num)))
  obtain ⟨n, -, hn⟩ := List.exists_of_findSome?_eq_some hd
  exact ⟨d, hd, round_of_closest hn⟩

/-- The text of zero. -/
def zeroText : DecimalText where
  int := [Ascii.zero]
  frac := none
  int_digits := isDigit_zeros 1
  frac_digits := fun _ hb => (List.not_mem_nil hb).elim
  nonempty := Or.inl (List.cons_ne_nil _ _)

theorem rationalOf_zeroText : rationalOf zeroText.text = 0 := by
  rw [DecimalText.rationalOf_text]
  have hint : natOf 0 zeroText.int = 0 := rfl
  have hfrac : natOf 0 (zeroText.frac.getD []) = 0 := rfl
  rw [hint, hfrac, Nat.cast_zero, zero_div, add_zero]

/-- The text of a double denotes a number that is rounded to the double. -/
theorem round_display {x : ℚ} (hx : 0 ≤ x) (hfixed : round x = x) :
    IsDecimal (display x) ∧ round (rationalOf (display x)) = x := by
  obtain ⟨text, htext, hround⟩ :
      ∃ text : DecimalText, text.text = display x ∧ round (rationalOf text.text) = x := by
    rcases hx.eq_or_lt with rfl | hpos
    · refine ⟨zeroText, (if_pos rfl).symm, ?_⟩
      rw [rationalOf_zeroText, round, roundTo_zero]
    · obtain ⟨d, hd, hround⟩ := exists_shortest hpos hfixed
      obtain ⟨text, htext, hvalue⟩ := d.exists_text
      refine ⟨text, htext.trans ?_, hvalue ▸ hround⟩
      rw [display, if_neg hpos.ne', hd]
      rfl
  exact ⟨isDecimal_iff_exists.mpr ⟨text, htext⟩, htext ▸ hround⟩

end F64

end OrderbookAggregator
