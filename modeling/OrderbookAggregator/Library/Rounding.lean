import Mathlib

/-!
# Rounding to a number of significant bits

A number is scaled to a unit in its last place, which depends on its binary order of magnitude, and
rounded to the nearest integer there, the even one of two. This is the arithmetic of binary floating
point where no exponent is too large or too small.

Rounding is monotone, although the unit changes from one order of magnitude to the next: between two
of them lies a power of two, and it is rounded to itself.
-/

namespace Rounding

variable {K : Type*} [Field K] [LinearOrder K] [IsStrictOrderedRing K] [FloorRing K]

/-! ### The nearest integer -/

def nearestEven (x : K) : ℤ :=
  if Int.fract x < 1 / 2 then ⌊x⌋
  else if 1 / 2 < Int.fract x then ⌊x⌋ + 1
  else if Even ⌊x⌋ then ⌊x⌋ else ⌊x⌋ + 1

omit [IsStrictOrderedRing K] in
theorem nearestEven_eq_floor_or (x : K) : nearestEven x = ⌊x⌋ ∨ nearestEven x = ⌊x⌋ + 1 := by
  unfold nearestEven
  split_ifs
  · exact Or.inl rfl
  · exact Or.inr rfl
  · exact Or.inl rfl
  · exact Or.inr rfl

@[simp]
theorem nearestEven_intCast (n : ℤ) : nearestEven (n : K) = n := by
  rw [nearestEven, Int.fract_intCast, if_pos one_half_pos, Int.floor_intCast]

theorem abs_nearestEven_sub_le (x : K) : |(nearestEven x : K) - x| ≤ 1 / 2 := by
  have hfract : Int.fract x = x - ⌊x⌋ := rfl
  have hnonneg := Int.fract_nonneg x
  have hlt := Int.fract_lt_one x
  unfold nearestEven
  rw [abs_le]
  split_ifs with hless hmore heven
  · constructor <;> linarith
  · push_cast
    constructor <;> linarith
  · constructor <;> linarith
  · push_cast
    constructor <;> linarith

theorem nearestEven_mono : Monotone (nearestEven : K → ℤ) := by
  intro x y hle
  rcases (Int.floor_mono hle).lt_or_eq with hlt | heq
  · have hx : nearestEven x ≤ ⌊x⌋ + 1 := by
      rcases nearestEven_eq_floor_or x with h | h <;> omega
    have hy : ⌊y⌋ ≤ nearestEven y := by
      rcases nearestEven_eq_floor_or y with h | h <;> omega
    omega
  · -- the integer part is the same, so the fractions are ordered
    have hfract : Int.fract x ≤ Int.fract y := by
      have hx : Int.fract x = x - ⌊x⌋ := rfl
      have hy : Int.fract y = y - ⌊y⌋ := rfl
      rw [hx, hy, heq]
      linarith
    unfold nearestEven
    rw [heq]
    split_ifs <;> first | exact le_rfl | exact (lt_add_one _).le | (exfalso; linarith)

theorem nearestEven_neg (x : K) : nearestEven (-x) = -nearestEven x := by
  by_cases hint : Int.fract x = 0
  · obtain ⟨n, rfl⟩ := Int.fract_eq_zero_iff.mp hint
    rw [← Int.cast_neg, nearestEven_intCast, nearestEven_intCast]
  have hfract : Int.fract (-x) = 1 - Int.fract x := Int.fract_neg hint
  have hfloor : ⌊-x⌋ = -⌊x⌋ - 1 := by
    have h : (⌊-x⌋ : K) = ((-⌊x⌋ - 1 : ℤ) : K) := by
      have hx : Int.fract x = x - ⌊x⌋ := rfl
      have hneg : Int.fract (-x) = -x - ⌊-x⌋ := rfl
      push_cast
      linarith
    exact_mod_cast h
  have heven : Even ⌊-x⌋ ↔ ¬ Even ⌊x⌋ := by
    rw [hfloor, Int.even_sub_one, even_neg]
  unfold nearestEven
  rw [hfract]
  simp only [heven]
  rw [hfloor]
  split_ifs <;> first | omega | (exfalso; linarith)

/-! ### Significant bits -/

variable (p : ℕ)

/-- The unit in the last of the significant places. -/
def ulp (x : K) : K := 2 ^ (Int.log 2 |x| + 1 - p)

def roundTo (x : K) : K := nearestEven (x / ulp p x) * ulp p x

variable {p}

theorem ulp_pos (x : K) : 0 < ulp p x := zpow_pos two_pos _

omit [IsStrictOrderedRing K] in
theorem ulp_neg (x : K) : ulp p (-x) = ulp p x := by
  rw [ulp, abs_neg, ulp]

@[simp]
theorem roundTo_zero : roundTo p (0 : K) = 0 := by
  rw [roundTo, zero_div, ← Int.cast_zero, nearestEven_intCast, Int.cast_zero, zero_mul]

@[simp]
theorem roundTo_neg (x : K) : roundTo p (-x) = -roundTo p x := by
  rw [roundTo, ulp_neg, neg_div, nearestEven_neg, Int.cast_neg, neg_mul, roundTo]

/-- A multiple of its own unit is a number of the format. -/
theorem roundTo_of_eq_mul {x : K} {n : ℤ} (h : x = n * ulp p x) : roundTo p x = x := by
  have hdiv : x / ulp p x = n := by
    rw [div_eq_iff (ulp_pos x).ne']
    exact h
  rw [roundTo, hdiv, nearestEven_intCast]
  exact h.symm

/-- A multiple of the unit that is less than half of it away is what is rounded to. -/
theorem roundTo_eq_of_lt {x : K} {n : ℤ} (h : |x - n * ulp p x| < ulp p x / 2) :
    roundTo p x = n * ulp p x := by
  have hpos : 0 < ulp p x := ulp_pos x
  have hnear : |x / ulp p x - n| < 1 / 2 := by
    have hsub : x / ulp p x - n = (x - n * ulp p x) / ulp p x := by
      rw [sub_div, mul_div_cancel_right₀ _ hpos.ne']
    rw [hsub, abs_div, abs_of_pos hpos, div_lt_iff₀ hpos]
    linarith
  have herror := abs_nearestEven_sub_le (x / ulp p x)
  have hlt : |((nearestEven (x / ulp p x) - n : ℤ) : K)| < 1 := by
    push_cast
    calc |(nearestEven (x / ulp p x) : K) - n|
        ≤ |(nearestEven (x / ulp p x) : K) - x / ulp p x| + |x / ulp p x - n| := abs_sub_le _ _ _
      _ < 1 / 2 + 1 / 2 := add_lt_add_of_le_of_lt herror hnear
      _ = 1 := by ring
  have hzero : nearestEven (x / ulp p x) - n = 0 := by
    rw [← Int.abs_lt_one_iff]
    exact_mod_cast hlt
  rw [roundTo, sub_eq_zero.mp hzero]

theorem abs_roundTo_sub_le_ulp (x : K) : |roundTo p x - x| ≤ ulp p x / 2 := by
  have hpos : 0 < ulp p x := ulp_pos x
  have hsub : roundTo p x - x = ((nearestEven (x / ulp p x) : K) - x / ulp p x) * ulp p x := by
    rw [roundTo, sub_mul, div_mul_cancel₀ _ hpos.ne']
  rw [hsub, abs_mul, abs_of_pos hpos]
  calc |(nearestEven (x / ulp p x) : K) - x / ulp p x| * ulp p x
      ≤ 1 / 2 * ulp p x := mul_le_mul_of_nonneg_right (abs_nearestEven_sub_le _) hpos.le
    _ = ulp p x / 2 := by ring

theorem zpow_log_le {x : K} (hx : 0 < x) : 2 ^ Int.log 2 |x| ≤ x := by
  rw [abs_of_pos hx]
  exact_mod_cast Int.zpow_log_le_self Nat.one_lt_two hx

theorem lt_zpow_log (x : K) : x < 2 ^ (Int.log 2 |x| + 1) := by
  refine (le_abs_self x).trans_lt ?_
  exact_mod_cast Int.lt_zpow_succ_log_self Nat.one_lt_two |x|

omit [IsStrictOrderedRing K] in
/-- The powers of two from the order of magnitude on are multiples of the unit. -/
theorem zpow_eq_mul_ulp (x : K) (n : ℕ) :
    (2 : K) ^ (Int.log 2 |x| + 1 - p + n) = ((2 ^ n : ℤ) : K) * ulp p x := by
  rw [ulp, zpow_add₀ two_ne_zero, zpow_natCast, mul_comm]
  push_cast
  rfl

theorem roundTo_le_zpow (x : K) : roundTo p x ≤ 2 ^ (Int.log 2 |x| + 1) := by
  have hexp : Int.log 2 |x| + 1 = Int.log 2 |x| + 1 - p + p := by ring
  have hle : x / ulp p x ≤ ((2 ^ p : ℤ) : K) := by
    rw [div_le_iff₀ (ulp_pos x), ← zpow_eq_mul_ulp, ← hexp]
    exact (lt_zpow_log x).le
  have hnearest := nearestEven_mono hle
  rw [nearestEven_intCast] at hnearest
  rw [hexp, zpow_eq_mul_ulp]
  exact mul_le_mul_of_nonneg_right (Int.cast_le.mpr hnearest) (ulp_pos x).le

theorem zpow_le_roundTo (hp : 0 < p) {x : K} (hx : 0 < x) : 2 ^ Int.log 2 |x| ≤ roundTo p x := by
  have hexp : Int.log 2 |x| = Int.log 2 |x| + 1 - p + (p - 1 : ℕ) := by
    push_cast [Nat.one_le_iff_ne_zero.mpr hp.ne']
    ring
  have hle : ((2 ^ (p - 1) : ℤ) : K) ≤ x / ulp p x := by
    rw [le_div_iff₀ (ulp_pos x), ← zpow_eq_mul_ulp, ← hexp]
    exact zpow_log_le hx
  have hnearest := nearestEven_mono hle
  rw [nearestEven_intCast] at hnearest
  rw [hexp, zpow_eq_mul_ulp]
  exact mul_le_mul_of_nonneg_right (Int.cast_le.mpr hnearest) (ulp_pos x).le

theorem roundTo_nonneg {x : K} (hx : 0 ≤ x) : 0 ≤ roundTo p x := by
  have hle : ((0 : ℤ) : K) ≤ x / ulp p x := by
    rw [Int.cast_zero]
    exact div_nonneg hx (ulp_pos x).le
  have hnearest := nearestEven_mono hle
  rw [nearestEven_intCast] at hnearest
  exact mul_nonneg (Int.cast_nonneg hnearest) (ulp_pos x).le

theorem log_le_log {x y : K} (hx : 0 < x) (hle : x ≤ y) : Int.log 2 |x| ≤ Int.log 2 |y| := by
  rw [abs_of_pos hx, abs_of_pos (hx.trans_le hle)]
  exact Int.log_mono_right hx hle

theorem roundTo_le_roundTo_of_pos (hp : 0 < p) {x y : K} (hx : 0 < x) (hle : x ≤ y) :
    roundTo p x ≤ roundTo p y := by
  rcases (log_le_log hx hle).lt_or_eq with hlt | heq
  · calc roundTo p x ≤ 2 ^ (Int.log 2 |x| + 1) := roundTo_le_zpow x
      _ ≤ 2 ^ Int.log 2 |y| := zpow_le_zpow_right₀ one_le_two hlt
      _ ≤ roundTo p y := zpow_le_roundTo hp (hx.trans_le hle)
  · have hulp : ulp p x = ulp p y := by rw [ulp, ulp, heq]
    rw [roundTo, roundTo, hulp]
    have hdiv : x / ulp p y ≤ y / ulp p y := div_le_div_of_nonneg_right hle (ulp_pos y).le
    exact mul_le_mul_of_nonneg_right (Int.cast_le.mpr (nearestEven_mono hdiv)) (ulp_pos y).le

theorem roundTo_mono (hp : 0 < p) : Monotone (roundTo p : K → K) := by
  intro x y hle
  rcases lt_trichotomy x 0 with hx | rfl | hx
  · rcases lt_or_ge y 0 with hy | hy
    · have hneg := roundTo_le_roundTo_of_pos hp (neg_pos.mpr hy) (neg_le_neg hle)
      rwa [roundTo_neg, roundTo_neg, neg_le_neg_iff] at hneg
    · have hneg : 0 ≤ roundTo p (-x) := roundTo_nonneg (neg_nonneg.mpr hx.le)
      rw [roundTo_neg] at hneg
      exact (neg_nonneg.mp hneg).trans (roundTo_nonneg hy)
  · rw [roundTo_zero]
    exact roundTo_nonneg hle
  · exact roundTo_le_roundTo_of_pos hp hx hle

/-- The error is small relative to the number. -/
theorem abs_roundTo_sub_le {x : K} : |roundTo p x - x| ≤ |x| / 2 ^ p := by
  rcases eq_or_ne x 0 with rfl | hx
  · simp
  have hulp : ulp p x / 2 = 2 ^ Int.log 2 |x| / 2 ^ p := by
    rw [ulp, add_sub_right_comm, zpow_add_one₀ two_ne_zero, mul_div_assoc, div_self two_ne_zero,
      mul_one, zpow_sub₀ two_ne_zero, zpow_natCast]
  calc |roundTo p x - x| ≤ ulp p x / 2 := abs_roundTo_sub_le_ulp x
    _ = 2 ^ Int.log 2 |x| / 2 ^ p := hulp
    _ ≤ |x| / 2 ^ p := by
        refine div_le_div_of_nonneg_right ?_ (pow_nonneg zero_le_two p)
        have hlog := zpow_log_le (abs_pos.mpr hx)
        rwa [abs_abs] at hlog

theorem ulp_eq {x : K} (hx : 0 < x) {e : ℤ} (hle : 2 ^ e ≤ x) (hlt : x < 2 ^ (e + 1)) :
    ulp p x = 2 ^ (e + 1 - p) := by
  have hlower : e ≤ Int.log 2 x := by
    rw [← Int.zpow_le_iff_le_log Nat.one_lt_two hx]
    exact_mod_cast hle
  have hupper : Int.log 2 x < e + 1 := by
    rw [← Int.lt_zpow_iff_log_lt Nat.one_lt_two hx]
    exact_mod_cast hlt
  have hlog : Int.log 2 |x| = e := by
    rw [abs_of_pos hx]
    omega
  rw [ulp, hlog]

theorem ulp_le_zpow {x : K} (hx : 0 < x) {n : ℤ} (hlt : x < 2 ^ n) : ulp p x ≤ 2 ^ (n - p) := by
  have hlog : Int.log 2 |x| < n := by
    rw [abs_of_pos hx, ← Int.lt_zpow_iff_log_lt Nat.one_lt_two hx]
    exact_mod_cast hlt
  refine zpow_le_zpow_right₀ one_le_two ?_
  omega

/-- The error, by a bound on the order of magnitude. -/
theorem abs_roundTo_sub_le_zpow {x : K} {n : ℤ} (hlt : |x| < 2 ^ n) :
    |roundTo p x - x| ≤ 2 ^ (n - p) / 2 := by
  have hbound : (0 : K) ≤ 2 ^ (n - p) / 2 := div_nonneg (zpow_nonneg zero_le_two _) zero_le_two
  have hpos {x : K} (hx : 0 < x) (hlt : |x| < 2 ^ n) : |roundTo p x - x| ≤ 2 ^ (n - p) / 2 := by
    rw [abs_of_pos hx] at hlt
    exact (abs_roundTo_sub_le_ulp x).trans (div_le_div_of_nonneg_right (ulp_le_zpow hx hlt) zero_le_two)
  rcases lt_trichotomy x 0 with hx | rfl | hx
  · have hneg := hpos (neg_pos.mpr hx) (by rwa [abs_neg])
    rwa [roundTo_neg, ← neg_add', ← sub_eq_add_neg, abs_neg] at hneg
  · simpa using hbound
  · exact hpos hx hlt

/-- Numbers that are rounded to the same are closer than the unit of the greater. -/
theorem sub_le_ulp_of_roundTo_eq {x y : K} (hx : 0 < x) (hle : x ≤ y)
    (heq : roundTo p x = roundTo p y) : y - x ≤ ulp p y := by
  have herrx := abs_le.mp (abs_roundTo_sub_le_ulp (p := p) x)
  have herry := abs_le.mp (abs_roundTo_sub_le_ulp (p := p) y)
  have hulp : ulp p x ≤ ulp p y := by
    refine zpow_le_zpow_right₀ one_le_two ?_
    have hlog := log_le_log hx hle
    omega
  linarith [herrx.2, herry.1]

theorem roundTo_zpow (hp : 0 < p) (e : ℤ) : roundTo p ((2 : K) ^ e) = 2 ^ e := by
  have hlog : Int.log 2 |(2 : K) ^ e| = e := by
    rw [abs_of_pos (zpow_pos two_pos e)]
    exact_mod_cast Int.log_zpow (R := K) Nat.one_lt_two e
  have hmul := zpow_eq_mul_ulp (p := p) ((2 : K) ^ e) (p - 1)
  rw [hlog] at hmul
  refine roundTo_of_eq_mul (n := 2 ^ (p - 1)) (Eq.trans ?_ hmul)
  congr 1
  push_cast [hp]
  ring

/-- What has been rounded is a number of the format. -/
theorem roundTo_roundTo (hp : 0 < p) (x : K) : roundTo p (roundTo p x) = roundTo p x := by
  have hpositive {x : K} (hx : 0 < x) : roundTo p (roundTo p x) = roundTo p x := by
    have hlower := zpow_le_roundTo hp hx
    rcases (roundTo_le_zpow (p := p) x).lt_or_eq with hlt | heq
    · have hunit : ulp p (roundTo p x) = ulp p x :=
        ulp_eq ((zpow_pos two_pos _).trans_le hlower) hlower hlt
      refine roundTo_of_eq_mul (n := nearestEven (x / ulp p x)) ?_
      rw [hunit, roundTo]
    · rw [heq, roundTo_zpow hp]
  rcases lt_trichotomy x 0 with hx | rfl | hx
  · have hneg := hpositive (neg_pos.mpr hx)
    rwa [roundTo_neg, roundTo_neg, neg_inj] at hneg
  · rw [roundTo_zero, roundTo_zero]
  · exact hpositive hx

/-- What is close enough to a number of the format is rounded to it. Below a power of two the numbers
are twice as dense as above it, so the bound is relative. -/
theorem roundTo_eq_of_near (hp : 0 < p) {x y : K} (hx : 0 < x) (hfixed : roundTo p x = x)
    (hnear : |y - x| < x / 2 ^ (p + 1)) : roundTo p y = x := by
  have hulp : 0 < ulp p x := ulp_pos x
  have hmul : x = nearestEven (x / ulp p x) * ulp p x := hfixed.symm
  generalize nearestEven (x / ulp p x) = n at hmul
  have htop : (2 : K) ^ (Int.log 2 |x| + 1) = ((2 ^ p : ℤ) : K) * ulp p x := by
    rw [← zpow_eq_mul_ulp, sub_add_cancel]
  have hbottom : (2 : K) ^ Int.log 2 |x| = ((2 ^ (p - 1) : ℤ) : K) * ulp p x := by
    rw [← zpow_eq_mul_ulp]
    congr 1
    push_cast [hp]
    ring
  have hlast : ulp p x = 2 ^ (Int.log 2 |x| + 1 - p) := rfl
  generalize ulp p x = u at hulp hmul htop hbottom hlast
  have hpow : (2 : K) ^ p = 2 * 2 ^ (p - 1) := by
    rw [← pow_succ', Nat.sub_add_cancel hp]
  have hle := zpow_log_le hx
  have hlt := lt_zpow_log x
  have hhalf : |y - x| < u / 2 := by
    refine hnear.trans_le ?_
    rw [div_le_iff₀ (by positivity), pow_succ]
    rw [htop] at hlt
    push_cast at hlt
    linarith
  obtain ⟨hlower, hupper⟩ := abs_lt.mp hhalf
  rcases le_or_gt (2 ^ Int.log 2 |x|) y with hge | hbelow
  · -- the same order of magnitude, so the same unit
    have hn : n + 1 ≤ 2 ^ p := by
      rw [htop, hmul] at hlt
      exact_mod_cast (lt_of_mul_lt_mul_right hlt hulp.le : (n : K) < _)
    have hroom : ((n + 1 : ℤ) : K) * u ≤ ((2 ^ p : ℤ) : K) * u :=
      mul_le_mul_of_nonneg_right (Int.cast_le.mpr hn) hulp.le
    have hy : y < 2 ^ (Int.log 2 |x| + 1) := by
      rw [htop]
      push_cast at hroom ⊢
      linarith
    have hsame : ulp p y = u :=
      (ulp_eq ((zpow_pos two_pos _).trans_le hge) hge hy).trans hlast.symm
    rw [roundTo_eq_of_lt (n := n) (by rwa [hsame, ← hmul]), hsame, ← hmul]
  · -- the number is a power of two, and the unit below it is half of the one above
    have hn : n ≤ 2 ^ (p - 1) := by
      have hcast : (n : K) * u < ((2 ^ (p - 1) + 1 : ℤ) : K) * u := by
        rw [hbottom] at hbelow
        push_cast at hbelow ⊢
        linarith
      exact Int.lt_add_one_iff.mp 
        (by exact_mod_cast (lt_of_mul_lt_mul_right hcast hulp.le : (n : K) < _))
    have hxle : x ≤ 2 ^ Int.log 2 |x| := by
      rw [hbottom, hmul]
      exact mul_le_mul_of_nonneg_right (Int.cast_le.mpr hn) hulp.le
    have hxeq : x = 2 ^ Int.log 2 |x| := le_antisymm hxle hle
    have hquarter : |y - x| < u / 4 := by
      refine hnear.trans_le ?_
      rw [div_le_iff₀ (by positivity), pow_succ, hpow]
      rw [hbottom] at hxle
      push_cast at hxle
      linarith
    have hy : 2 ^ (Int.log 2 |x| - 1) ≤ y := by
      rw [zpow_sub_one₀ two_ne_zero, ← hxeq]
      have hone : (1 : K) ≤ 2 ^ (p - 1) := one_le_pow₀ one_le_two
      have hsmall : u ≤ x := by
        rw [hbottom] at hle
        push_cast at hle
        nlinarith
      linarith
    have hunit : ulp p y = u / 2 := by
      rw [ulp_eq ((zpow_pos two_pos _).trans_le hy) hy (by rwa [sub_add_cancel]), hlast,
        sub_add_cancel, add_sub_right_comm, zpow_add_one₀ two_ne_zero,
        mul_div_cancel_right₀ _ two_ne_zero]
    have hdouble : ((2 * n : ℤ) : K) * ulp p y = x := by
      rw [hunit, hmul]
      push_cast
      ring
    refine (roundTo_eq_of_lt (n := 2 * n) ?_).trans hdouble
    rw [hdouble, hunit]
    linarith

/-- Integers of so many bits are numbers of the format. -/
theorem roundTo_intCast {n : ℤ} (hn : |n| < 2 ^ p) : roundTo p (n : K) = n := by
  rcases eq_or_ne n 0 with rfl | hne
  · simp
  have hlog : Int.log 2 |(n : K)| < p := by
    have hpos : 0 < |(n : K)| := abs_pos.mpr (Int.cast_ne_zero.mpr hne)
    rw [← Int.lt_zpow_iff_log_lt Nat.one_lt_two hpos]
    rw [zpow_natCast]
    exact_mod_cast hn
  obtain ⟨d, hd⟩ := Int.eq_ofNat_of_zero_le (show 0 ≤ (p : ℤ) - 1 - Int.log 2 |(n : K)| by omega)
  have hexp : Int.log 2 |(n : K)| + 1 - p = -(d : ℤ) := by omega
  refine roundTo_of_eq_mul (n := n * 2 ^ d) ?_
  rw [ulp, hexp, zpow_neg, zpow_natCast]
  push_cast
  rw [mul_assoc, mul_inv_cancel₀ (pow_ne_zero d two_ne_zero), mul_one]

end Rounding
