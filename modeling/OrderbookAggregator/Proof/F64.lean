import OrderbookAggregator.F64

/-!
# What floating point keeps

The conversion to a double keeps the order of fixed-point numbers. Below `2^26` the doubles are close
enough to tell any two of them apart, and below `2^25` to get back the number that was converted.
-/

namespace OrderbookAggregator

open Rounding

theorem F64.round_mono : Monotone F64.round := roundTo_mono (by decide)

theorem F64.round_natCast {n : Nat} (hn : n < 2 ^ 53) : F64.round n = n := by
  have habs : |(n : ℤ)| < 2 ^ 53 := by
    rw [Nat.abs_cast]
    exact_mod_cast hn
  exact_mod_cast roundTo_intCast (K := ℚ) habs

theorem F64.round_scale : F64.round scale = scale := F64.round_natCast (by decide)

theorem scale_pos : (0 : ℚ) < scale := by
  rw [scale]
  norm_num

/-- The quotient of a rounded number is off by two roundings. -/
theorem F64.abs_round_div_sub_le {n c : ℚ} (hn : 0 ≤ n) (hc : 0 < c) :
    |F64.round (F64.round n / c) - n / c| ≤ n / c / 2 ^ 51 := by
  have hrounded : 0 ≤ F64.round n := roundTo_nonneg hn
  have hfirst : |F64.round n - n| ≤ n / 2 ^ 53 := by
    have herror := abs_roundTo_sub_le (p := 53) (x := n)
    rwa [abs_of_nonneg hn] at herror
  have hsecond : |F64.round (F64.round n / c) - F64.round n / c| ≤ F64.round n / c / 2 ^ 53 := by
    have herror := abs_roundTo_sub_le (p := 53) (x := F64.round n / c)
    rwa [abs_of_nonneg (div_nonneg hrounded hc.le)] at herror
  have hquotient : |F64.round n / c - n / c| ≤ n / c / 2 ^ 53 := by
    rw [← sub_div, abs_div, abs_of_pos hc, div_right_comm]
    exact div_le_div_of_nonneg_right hfirst hc.le
  have hnonneg : 0 ≤ n / c := div_nonneg hn hc.le
  rw [abs_le] at hsecond hquotient ⊢
  constructor <;> linarith [hquotient.1, hquotient.2, hsecond.1, hsecond.2]

namespace FixedPoint

theorem abs_toF64_sub_le_relative (a : FixedPoint) :
    |a.toF64 - a.raw / scale| ≤ (a.raw : ℚ) / scale / 2 ^ 51 := by
  rw [toF64, F64.round_scale]
  exact F64.abs_round_div_sub_le (Nat.cast_nonneg _) scale_pos

theorem toF64_mono {a b : FixedPoint} (hle : a.raw ≤ b.raw) : a.toF64 ≤ b.toF64 := by
  have hcast : (a.raw : ℚ) ≤ b.raw := Nat.cast_le.mpr hle
  rw [toF64, toF64, F64.round_scale]
  exact F64.round_mono (div_le_div_of_nonneg_right (F64.round_mono hcast) scale_pos.le)

theorem toF64_of_lt {a : FixedPoint} (h : a.raw < 2 ^ 53) :
    a.toF64 = F64.round (a.raw / scale) := by
  rw [toF64, F64.round_natCast h, F64.round_scale]

/-- Below `2^26` the doubles are closer to each other than the fixed-point numbers. -/
theorem toF64_lt_toF64 {a b : FixedPoint} (hlt : a.raw < b.raw) (hb : b.raw < 2 ^ 26 * scale) :
    a.toF64 < b.toF64 := by
  have hscale := scale_pos
  have hsmall : b.raw < 2 ^ 53 := hb.trans (by decide)
  refine (toF64_mono hlt.le).lt_of_ne fun heq => ?_
  rw [toF64_of_lt hsmall, toF64_of_lt (hlt.trans hsmall)] at heq
  have hbpos : (0 : ℚ) < b.raw / scale :=
    div_pos (Nat.cast_pos.mpr ((Nat.zero_le _).trans_lt hlt)) hscale
  rcases Nat.eq_zero_or_pos a.raw with hzero | hpos
  · rw [hzero, Nat.cast_zero, zero_div] at heq
    have hround : 0 < F64.round (b.raw / scale : ℚ) :=
      (zpow_pos two_pos _).trans_le (zpow_le_roundTo (by decide) hbpos)
    rw [← heq, F64.round, roundTo_zero] at hround
    exact lt_irrefl _ hround
  · have hapos : (0 : ℚ) < a.raw / scale := div_pos (Nat.cast_pos.mpr hpos) hscale
    have hle : (a.raw / scale : ℚ) ≤ b.raw / scale :=
      div_le_div_of_nonneg_right (Nat.cast_le.mpr hlt.le) hscale.le
    have hcast : (b.raw : ℚ) < 2 ^ 26 * scale := by exact_mod_cast hb
    have hbound : (b.raw / scale : ℚ) < 2 ^ (26 : ℤ) := (div_lt_iff₀ hscale).mpr hcast
    have hulp := (sub_le_ulp_of_roundTo_eq hapos hle heq).trans (ulp_le_zpow hbpos hbound)
    have hgap : (1 : ℚ) / scale ≤ b.raw / scale - a.raw / scale := by
      rw [← sub_div]
      refine div_le_div_of_nonneg_right ?_ hscale.le
      have hone : (a.raw : ℚ) + 1 ≤ b.raw := by exact_mod_cast hlt
      linarith
    have hcoarse : ¬ (1 : ℚ) / scale ≤ 2 ^ ((26 : ℤ) - (53 : ℕ)) := by
      rw [scale]
      norm_num
    exact hcoarse (hgap.trans hulp)

theorem toF64_lt_iff {a b : FixedPoint} (hb : b.raw < 2 ^ 26 * scale) :
    a.toF64 < b.toF64 ↔ a.raw < b.raw := by
  refine ⟨fun hlt => ?_, fun hlt => toF64_lt_toF64 hlt hb⟩
  by_contra hle
  exact (toF64_mono (Nat.le_of_not_lt hle)).not_gt hlt

end FixedPoint

/-- Less than a half away from a natural number, that number is the nearest. -/
theorem F64.nearestInt_eq {x : ℚ} {n : Nat} (hx : 0 ≤ x) (h : |x - n| < 1 / 2) :
    F64.nearestInt x = n := by
  obtain ⟨hlower, hupper⟩ := abs_lt.mp h
  rw [nearestInt, if_pos hx, Int.floor_eq_iff]
  push_cast
  constructor <;> linarith

theorem F64.asU64_natCast {n : Nat} (hn : n < 2 ^ 64) : F64.asU64 n = n :=
  Nat.min_eq_left (Nat.le_sub_one_of_lt hn)

/-- Below `2^25` each of the two roundings is off by a quarter at most. -/
theorem F64.abs_round_mul_scale_sub_lt {n : Nat} (hpos : 0 < n) (hn : n < 2 ^ 25 * scale) :
    0 ≤ F64.round (F64.round (n / scale) * scale)
      ∧ |F64.round (F64.round (n / scale) * scale) - n| < 1 / 2 := by
  have hscale := scale_pos
  have hcast : (n : ℚ) < 2 ^ 25 * scale := by exact_mod_cast hn
  have hx : (0 : ℚ) < n / scale := div_pos (Nat.cast_pos.mpr hpos) hscale
  have hxlt : (n / scale : ℚ) < 2 ^ (25 : ℤ) := (div_lt_iff₀ hscale).mpr hcast
  have hv : 0 < F64.round (n / scale) :=
    (zpow_pos two_pos _).trans_le (zpow_le_roundTo (by decide) hx)
  have hfirst : |F64.round (n / scale) * scale - n| < 1 / 4 := by
    have herror : |F64.round (n / scale) - n / scale| ≤ 2 ^ ((25 : ℤ) - (53 : ℕ)) / 2 :=
      abs_roundTo_sub_le_zpow (by rwa [abs_of_pos hx])
    have hmul : F64.round (n / scale) * scale - n = (F64.round (n / scale) - n / scale) * scale := by
      rw [sub_mul, div_mul_cancel₀ _ hscale.ne']
    rw [hmul, abs_mul, abs_of_pos hscale]
    refine (mul_le_mul_of_nonneg_right herror hscale.le).trans_lt ?_
    rw [scale]
    norm_num
  have hw : 0 < F64.round (n / scale) * scale := mul_pos hv hscale
  have hwlt : F64.round (n / scale) * scale < 2 ^ (52 : ℤ) := by
    have hupper := (abs_lt.mp hfirst).2
    have hroom : (2 ^ 25 * scale : ℚ) + 1 / 4 < 2 ^ (52 : ℤ) := by
      rw [scale]
      norm_num
    linarith
  have hsecond : |F64.round (F64.round (n / scale) * scale) - F64.round (n / scale) * scale|
      ≤ 2 ^ ((52 : ℤ) - (53 : ℕ)) / 2 :=
    abs_roundTo_sub_le_zpow (by rwa [abs_of_pos hw])
  have hquarter : (2 : ℚ) ^ ((52 : ℤ) - (53 : ℕ)) / 2 = 1 / 4 := by norm_num
  rw [hquarter] at hsecond
  refine ⟨roundTo_nonneg hw.le, ?_⟩
  calc |F64.round (F64.round (n / scale) * scale) - n|
      ≤ |F64.round (F64.round (n / scale) * scale) - F64.round (n / scale) * scale|
          + |F64.round (n / scale) * scale - n| := abs_sub_le _ _ _
    _ < 1 / 4 + 1 / 4 := add_lt_add_of_le_of_lt hsecond hfirst
    _ = 1 / 2 := by norm_num

theorem FixedPoint.fromF64_eq {v : ℚ} (hv : 0 ≤ v) {n : Nat}
    (hnearest : F64.nearestInt (F64.round (v * scale)) = n) (hn : n < 2 ^ 64) :
    fromF64 v = some ⟨n, hn⟩ := by
  have hargument : v * F64.round scale = v * scale := congrArg (v * ·) F64.round_scale
  rw [fromF64, if_pos hv]
  refine congrArg some (FixedPoint.ext ?_)
  dsimp only
  rw [hargument, hnearest, F64.asU64_natCast hn]

/-- The smallest number from `2^25` on that is not got back. -/
def lostDigit : FixedPoint := ⟨3355443200000019, by decide⟩

theorem lostDigit_toF64 : lostDigit.toF64 = 4503599627370522 / 2 ^ 27 := by
  have hulp : ulp 53 (3355443200000019 / scale : ℚ) = 1 / 2 ^ 27 := by
    rw [scale, ulp_eq (e := 25) (by norm_num) (by norm_num) (by norm_num)]
    norm_num
  have hround := roundTo_eq_of_lt (p := 53) (x := (3355443200000019 / scale : ℚ))
    (n := 4503599627370522) (by rw [hulp, scale]; norm_num [abs_lt])
  rw [FixedPoint.toF64_of_lt (by decide)]
  refine hround.trans ?_
  rw [hulp]
  norm_num

theorem lostDigit_fromF64 : FixedPoint.fromF64 lostDigit.toF64 = some ⟨3355443200000020, by decide⟩ := by
  have hulp : ulp 53 (4503599627370522 / 2 ^ 27 * scale : ℚ) = 1 / 2 := by
    rw [scale, ulp_eq (e := 51) (by norm_num) (by norm_num) (by norm_num)]
    norm_num
  have hround := roundTo_eq_of_lt (p := 53) (x := (4503599627370522 / 2 ^ 27 * scale : ℚ))
    (n := 6710886400000039) (by rw [hulp, scale]; norm_num [abs_lt])
  rw [lostDigit_toF64]
  refine FixedPoint.fromF64_eq (by norm_num) ?_ (by decide)
  rw [F64.round, hround, hulp, F64.nearestInt, if_pos (by norm_num), Int.floor_eq_iff]
  norm_num

/-- **The way to a double and back** loses nothing below `2^25`. From there on it may. -/
theorem FixedPoint.fromF64_toF64 :
    (∀ a : FixedPoint, a.raw < 2 ^ 25 * scale → fromF64 a.toF64 = some a)
    ∧ ∃ a : FixedPoint, a.raw = 2 ^ 25 * scale + 19 ∧ fromF64 a.toF64 ≠ some a := by
  refine ⟨fun a h => ?_, lostDigit, rfl, ?_⟩
  · rw [toF64_of_lt (h.trans (by decide))]
    rcases Nat.eq_zero_or_pos a.raw with hzero | hpos
    · rw [hzero, Nat.cast_zero, zero_div, F64.round, roundTo_zero]
      refine (fromF64_eq (n := 0) le_rfl ?_ (by decide)).trans
        (congrArg some (FixedPoint.ext hzero.symm))
      rw [zero_mul, F64.round, roundTo_zero]
      exact F64.nearestInt_eq le_rfl (by norm_num)
    · obtain ⟨hnonneg, hnear⟩ := F64.abs_round_mul_scale_sub_lt hpos h
      exact fromF64_eq (roundTo_nonneg (div_nonneg (Nat.cast_nonneg _) scale_pos.le))
        (F64.nearestInt_eq hnonneg hnear) a.lt
  · rw [lostDigit_fromF64, lostDigit, ne_eq, Option.some_inj, FixedPoint.mk.injEq]
    decide

end OrderbookAggregator
