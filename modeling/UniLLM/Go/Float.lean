import UniLLM.Go.Number
import Mathlib.Algebra.Order.Floor.Ring
import Mathlib.Tactic.FieldSimp
import Mathlib.Tactic.Linarith
import Mathlib.Tactic.Ring

/-!
# Rounding to `float64`

A `float64` is a number that rounding leaves alone.  Two neighbours are at least half a unit of
the last place apart, on the side of the smaller one, so a number within a quarter of the unit is
rounded back; and seventeen decimal digits come that close.  So the search for the shortest
digits ends, and finds digits that are rounded back.
-/

namespace Go

/-- A finite `float64`. -/
structure IsFloat64 (x : Rat) : Prop where
  rounds : roundFloat64 x = x
  inRange : float64Overflow x = false

/-! ### The nearest integer -/

theorem lt_floor_add_one (q : Rat) : q < q.floor + 1 := by
  have hnext := Rat.lt_floor_add_one q
  push_cast at hnext
  exact hnext

theorem roundHalfEven_eq {q : Rat} {n : Int} (h : |q - n| < 1 / 2) : roundHalfEven q = n := by
  obtain ⟨hlow, hhigh⟩ := abs_lt.mp h
  have hfloor := Rat.floor_le q
  have hnext := lt_floor_add_one q
  unfold roundHalfEven
  simp only
  by_cases hbelow : q.floor < n
  · -- the integer is the next one
    have hn : n = q.floor + 1 := by
      have hlt : (n : Rat) < q.floor + 2 := by linarith
      have : n < q.floor + 2 := by exact_mod_cast hlt
      omega
    subst hn
    push_cast at hlow hhigh
    rw [if_neg (by linarith), if_pos (by linarith)]
  · have hn : n = q.floor := by
      have hlt : (q.floor : Rat) < n + 1 := by linarith
      have : q.floor < n + 1 := by exact_mod_cast hlt
      omega
    subst hn
    rw [if_pos (by linarith)]

/-- The nearest integer is within a half. -/
theorem roundHalfEven_error (q : Rat) : |(roundHalfEven q : Rat) - q| ≤ 1 / 2 := by
  have hfloor := Rat.floor_le q
  have hnext := lt_floor_add_one q
  unfold roundHalfEven
  simp only
  rw [abs_le]
  split
  · constructor <;> linarith
  · split
    · push_cast
      constructor <;> linarith
    · split
      · constructor <;> linarith
      · push_cast
        constructor <;> linarith

theorem le_roundHalfEven {q : Rat} {n : Int} (h : (n : Rat) ≤ q) : n ≤ roundHalfEven q := by
  have hfloor : n ≤ q.floor := Rat.le_floor_iff.mpr h
  unfold roundHalfEven
  simp only
  split
  · exact hfloor
  · split
    · omega
    · split <;> omega

/-- From half below an even number on it is rounded up. -/
theorem le_roundHalfEven_of_even {q : Rat} {n : Int} (heven : n % 2 = 0)
    (h : (n : Rat) - 1 / 2 ≤ q) : n ≤ roundHalfEven q := by
  by_cases hn : (n : Rat) ≤ q
  · exact le_roundHalfEven hn
  · have hfloor : q.floor = n - 1 := by
      have hlow : n - 1 ≤ q.floor := Rat.le_floor_iff.mpr (by push_cast; linarith)
      have hlt : q.floor < n := Rat.floor_lt_iff.mpr (not_le.mp hn)
      omega
    unfold roundHalfEven
    simp only [hfloor]
    push_cast
    rw [if_neg (by linarith)]
    split
    · omega
    · rw [if_neg (by omega)]
      omega

/-! ### The unit of the last place -/

/-- The exponent of the last of 53 bits. -/
def floatExp (x : Rat) : Int := max (Int.log 2 |x| - 52) (-1074)

theorem roundFloat64_of_pos {x : Rat} (h : 0 < x) :
    roundFloat64 x = (roundHalfEven (x / (2 : Rat) ^ floatExp x) : Rat) * (2 : Rat) ^ floatExp x := by
  unfold roundFloat64 floatExp
  rw [if_neg h.ne', abs_of_pos h]
  simp only
  rw [if_neg (not_lt.mpr h.le), one_mul]

theorem roundFloat64_neg (x : Rat) : roundFloat64 (-x) = -roundFloat64 x := by
  unfold roundFloat64
  by_cases h : x = 0
  · subst h
    simp
  · rw [if_neg (neg_ne_zero.mpr h), if_neg h, abs_neg]
    simp only
    rcases lt_or_gt_of_ne h with hneg | hpos
    · rw [if_neg (by linarith), if_pos hneg]
      ring
    · rw [if_pos (by linarith), if_neg (by linarith)]
      ring

theorem two_zpow_pos (e : Int) : (0 : Rat) < 2 ^ e := zpow_pos (by norm_num) e

/-- A positive `float64` is a multiple of the unit of its last place. -/
theorem exists_units {x : Rat} (hpos : 0 < x) (hx : roundFloat64 x = x) :
    ∃ n : Int, 0 < n ∧ x = n * (2 : Rat) ^ floatExp x := by
  have hround := roundFloat64_of_pos hpos
  rw [hx] at hround
  refine ⟨_, ?_, hround⟩
  have hpow := two_zpow_pos (floatExp x)
  have hn : (0 : Rat) < roundHalfEven (x / (2 : Rat) ^ floatExp x) := by
    by_contra hle
    have : x ≤ 0 := by
      rw [hround]
      exact mul_nonpos_of_nonpos_of_nonneg (not_lt.mp hle) hpow.le
    linarith
  exact_mod_cast hn

/-! ### What is rounded back -/

section Near
variable {x y : Rat}

theorem abs_log_bounds (h : 0 < x) :
    (2 : Rat) ^ Int.log 2 x ≤ x ∧ x < (2 : Rat) ^ (Int.log 2 x + 1) :=
  ⟨Int.zpow_log_le_self (by norm_num) h, Int.lt_zpow_succ_log_self (by norm_num) x⟩

/-- A multiple of the unit below a power of two is at least one unit below it. -/
theorem add_unit_le {n e k : Int} (hk : e ≤ k) (h : (n : Rat) * 2 ^ e < 2 ^ k) :
    ((n : Rat) + 1) * 2 ^ e ≤ 2 ^ k := by
  obtain ⟨j, rfl⟩ := Int.le.dest hk
  rw [zpow_add₀ (by norm_num : (2 : Rat) ≠ 0)] at h ⊢
  have hpow := two_zpow_pos e
  have hlt : (n : Rat) < 2 ^ (j : Int) := by
    by_contra hle
    have := mul_le_mul_of_nonneg_right (not_lt.mp hle) hpow.le
    linarith
  have hint : n < 2 ^ j := by
    rw [zpow_natCast] at hlt
    exact_mod_cast hlt
  have hle : n + 1 ≤ 2 ^ j := hint
  have hcast : (n : Rat) + 1 ≤ 2 ^ (j : Int) := by
    rw [zpow_natCast]
    exact_mod_cast hle
  calc ((n : Rat) + 1) * 2 ^ e ≤ 2 ^ (j : Int) * 2 ^ e := mul_le_mul_of_nonneg_right hcast hpow.le
    _ = 2 ^ e * 2 ^ (j : Int) := mul_comm _ _

/-- The unit of a number is at most the number. -/
theorem floatExp_le_log (hpos : 0 < x) (hx : roundFloat64 x = x) : floatExp x ≤ Int.log 2 x := by
  obtain ⟨n, hn, hunits⟩ := exists_units hpos hx
  have hone : (1 : Rat) ≤ n := by exact_mod_cast hn
  have hle : (2 : Rat) ^ floatExp x ≤ x := by
    calc (2 : Rat) ^ floatExp x = 1 * 2 ^ floatExp x := (one_mul _).symm
      _ ≤ n * 2 ^ floatExp x := mul_le_mul_of_nonneg_right hone (two_zpow_pos _).le
      _ = x := hunits.symm
  exact (Int.zpow_le_iff_le_log (by norm_num) hpos).mp (by exact_mod_cast hle)

/-- A number close by has the same unit, or half of it. -/
theorem floatExp_near (hpos : 0 < x) (hx : roundFloat64 x = x)
    (hnear : |y - x| < (2 : Rat) ^ floatExp x / 4) :
    0 < y ∧ floatExp y ≤ floatExp x ∧ floatExp x - 1 ≤ floatExp y := by
  obtain ⟨n, hn, hunits⟩ := exists_units hpos hx
  obtain ⟨hlow, hhigh⟩ := abs_lt.mp hnear
  have hlog := floatExp_le_log hpos hx
  obtain ⟨hpow, hnext⟩ := abs_log_bounds hpos
  have hunit : (2 : Rat) ^ floatExp x ≤ 2 ^ Int.log 2 x := zpow_le_zpow_right₀ (by norm_num) hlog
  have hhalf : (2 : Rat) ^ Int.log 2 x = 2 * 2 ^ (Int.log 2 x - 1) := by
    rw [zpow_sub_one₀ (by norm_num)]
    ring
  have hposy : 0 < y := by
    have := two_zpow_pos (floatExp x)
    linarith
  have hupper : y < (2 : Rat) ^ (Int.log 2 x + 1) := by
    have hroom := add_unit_le (n := n) (e := floatExp x) (k := Int.log 2 x + 1) (by omega)
      (hunits ▸ hnext)
    have := two_zpow_pos (floatExp x)
    nlinarith
  have hlower : (2 : Rat) ^ (Int.log 2 x - 1) ≤ y := by
    have := two_zpow_pos (Int.log 2 x - 1)
    linarith
  have hle : Int.log 2 y ≤ Int.log 2 x := by
    have := (Int.lt_zpow_iff_log_lt (by norm_num : 1 < 2) hposy).mp (by exact_mod_cast hupper)
    omega
  have hge : Int.log 2 x - 1 ≤ Int.log 2 y :=
    (Int.zpow_le_iff_le_log (by norm_num) hposy).mp (by exact_mod_cast hlower)
  refine ⟨hposy, ?_, ?_⟩
  · unfold floatExp
    rw [abs_of_pos hpos, abs_of_pos hposy]
    omega
  · unfold floatExp
    rw [abs_of_pos hpos, abs_of_pos hposy]
    omega

/-- **A number within a quarter of the last unit is rounded back.** -/
theorem roundFloat64_near (hpos : 0 < x) (hx : roundFloat64 x = x)
    (hnear : |y - x| < (2 : Rat) ^ floatExp x / 4) : roundFloat64 y = x := by
  obtain ⟨n, hn, hunits⟩ := exists_units hpos hx
  obtain ⟨hposy, hle, hge⟩ := floatExp_near hpos hx hnear
  have hunity := two_zpow_pos (floatExp y)
  -- in units of the other number it is a whole number too
  obtain ⟨j, hj⟩ := Int.le.dest hle
  have hsplit : (2 : Rat) ^ floatExp x = 2 ^ j * 2 ^ floatExp y := by
    rw [← hj, zpow_add₀ (by norm_num : (2 : Rat) ≠ 0), zpow_natCast]
    ring
  have hwhole : x = ((n * 2 ^ j : Int) : Rat) * 2 ^ floatExp y := by
    conv_lhs => rw [hunits]
    rw [hsplit]
    push_cast
    ring
  have hsmall : (2 : Rat) ^ j ≤ 2 := by
    have hj1 : j ≤ 1 := by omega
    calc (2 : Rat) ^ j ≤ 2 ^ 1 := pow_le_pow_right₀ (by norm_num) hj1
      _ = 2 := pow_one 2
  have hdist : |y / (2 : Rat) ^ floatExp y - ((n * 2 ^ j : Int) : Rat)| < 1 / 2 := by
    have hscaled : |y / (2 : Rat) ^ floatExp y - ((n * 2 ^ j : Int) : Rat)| * 2 ^ floatExp y =
        |y - x| := by
      conv_rhs => rw [hwhole]
      rw [← abs_of_pos hunity, ← abs_mul, abs_of_pos hunity]
      congr 1
      field_simp
    have hbound : |y - x| < 1 / 2 * 2 ^ floatExp y := by
      calc |y - x| < (2 : Rat) ^ floatExp x / 4 := hnear
        _ = 2 ^ j / 4 * 2 ^ floatExp y := by rw [hsplit]; ring
        _ ≤ 1 / 2 * 2 ^ floatExp y := by
          refine mul_le_mul_of_nonneg_right ?_ hunity.le
          linarith
    rw [← hscaled] at hbound
    exact lt_of_mul_lt_mul_right hbound hunity.le
  rw [roundFloat64_of_pos hposy, roundHalfEven_eq hdist, ← hwhole]

end Near

/-! ### The shortest digits -/

theorem zpow_add_53 (e : Int) : (2 : Rat) ^ (53 + e) = 9007199254740992 * 2 ^ e := by
  rw [zpow_add₀ (by norm_num : (2 : Rat) ≠ 0)]
  norm_num

theorem zpow_add_52 (e : Int) : (2 : Rat) ^ (52 + e) = 4503599627370496 * 2 ^ e := by
  rw [zpow_add₀ (by norm_num : (2 : Rat) ≠ 0)]
  norm_num

/-- The bound in units of half the last place of the largest number. -/
theorem float64Overflow_eq (x : Rat) :
    float64Overflow x = decide (18014398509481983 * (2 : Rat) ^ (970 : Int) ≤ |x|) := by
  have h54 : (2 : Rat) ^ 54 = 18014398509481984 := by norm_num
  have htop : (2 : Rat) ^ 1024 = 18014398509481984 * (2 : Rat) ^ 970 := by rw [← h54, ← pow_add]
  have hcast : (2 : Rat) ^ (970 : Int) = (2 : Rat) ^ 970 := zpow_natCast 2 970
  unfold float64Overflow
  rw [htop, hcast]
  generalize (2 : Rat) ^ 970 = u
  have hsame : 18014398509481984 * u - u = 18014398509481983 * u := by ring
  rw [hsame]

/-- What is out of range is not rounded into it. -/
theorem inRange_of_round {y : Rat} (hpos : 0 < y) (h : float64Overflow (roundFloat64 y) = false) :
    float64Overflow y = false := by
  by_contra hover
  rw [Bool.not_eq_false, float64Overflow_eq, decide_eq_true_iff, abs_of_pos hpos] at hover
  rw [float64Overflow_eq, decide_eq_false_iff_not] at h
  have hu := two_zpow_pos 970
  have hlog : 1023 ≤ Int.log 2 y := by
    refine (Int.zpow_le_iff_le_log (by norm_num) hpos).mp ?_
    have hsum : (1023 : Int) = 53 + 970 := by norm_num
    rw [hsum, Nat.cast_ofNat, zpow_add_53]
    generalize (2 : Rat) ^ (970 : Int) = u at hover hu ⊢
    linarith
  have hexp : floatExp y = Int.log 2 y - 52 := by
    unfold floatExp
    rw [abs_of_pos hpos]
    omega
  have hpow := two_zpow_pos (floatExp y)
  have hrounded : 18014398509481984 * (2 : Rat) ^ (970 : Int) ≤ roundFloat64 y := by
    rw [roundFloat64_of_pos hpos]
    rcases eq_or_lt_of_le hlog with heq | hlt
    · -- in the last binade it is rounded up to the next power of two
      have hunit : (2 : Rat) ^ floatExp y = 2 * 2 ^ (970 : Int) := by
        have hexp' : floatExp y = 1 + 970 := by omega
        rw [hexp', zpow_add₀ (by norm_num : (2 : Rat) ≠ 0), zpow_one]
      have hquot : ((9007199254740992 : Int) : Rat) - 1 / 2 ≤ y / (2 : Rat) ^ floatExp y := by
        rw [le_div_iff₀ hpow, hunit]
        generalize (2 : Rat) ^ (970 : Int) = u at hover hu ⊢
        push_cast
        linarith
      have hn : (9007199254740992 : Rat) ≤ roundHalfEven (y / (2 : Rat) ^ floatExp y) := by
        exact_mod_cast le_roundHalfEven_of_even (by decide) hquot
      calc 18014398509481984 * (2 : Rat) ^ (970 : Int)
          = 9007199254740992 * (2 : Rat) ^ floatExp y := by
            rw [hunit]
            generalize (2 : Rat) ^ (970 : Int) = u
            ring
        _ ≤ _ := mul_le_mul_of_nonneg_right hn hpow.le
    · have hquot : ((4503599627370496 : Int) : Rat) ≤ y / (2 : Rat) ^ floatExp y := by
        rw [le_div_iff₀ hpow]
        have hlow := (abs_log_bounds hpos).1
        have hsplit : Int.log 2 y = 52 + floatExp y := by omega
        rw [hsplit, zpow_add_52] at hlow
        exact_mod_cast hlow
      have hn : (4503599627370496 : Rat) ≤ roundHalfEven (y / (2 : Rat) ^ floatExp y) := by
        exact_mod_cast le_roundHalfEven hquot
      have hunit : 4 * (2 : Rat) ^ (970 : Int) ≤ 2 ^ floatExp y := by
        calc 4 * (2 : Rat) ^ (970 : Int) = 2 ^ (2 + 970 : Int) := by
              rw [zpow_add₀ (by norm_num : (2 : Rat) ≠ 0)]
              generalize (2 : Rat) ^ (970 : Int) = u
              norm_num
          _ ≤ 2 ^ floatExp y := zpow_le_zpow_right₀ (by norm_num) (by omega)
      calc 18014398509481984 * (2 : Rat) ^ (970 : Int)
          ≤ 4503599627370496 * (2 : Rat) ^ floatExp y := by
            generalize (2 : Rat) ^ (970 : Int) = u at hunit ⊢
            linarith
        _ ≤ _ := mul_le_mul_of_nonneg_right hn hpow.le
  refine h (le_trans ?_ (le_abs_self _))
  generalize (2 : Rat) ^ (970 : Int) = u at hrounded hu ⊢
  linarith

/-- Seventeen digits are within a quarter of the last unit. -/
theorem seventeen_near {x : Rat} (hpos : 0 < x) :
    |(roundHalfEven (x / (10 : Rat) ^ (Int.log 10 x - 17)) : Rat) * 10 ^ (Int.log 10 x - 17) - x| <
      (2 : Rat) ^ floatExp x / 4 := by
  have hten : (0 : Rat) < 10 ^ (Int.log 10 x - 17) := zpow_pos (by norm_num) _
  have herror := roundHalfEven_error (x / (10 : Rat) ^ (Int.log 10 x - 17))
  have hscaled : |(roundHalfEven (x / (10 : Rat) ^ (Int.log 10 x - 17)) : Rat) *
      10 ^ (Int.log 10 x - 17) - x| ≤ 1 / 2 * 10 ^ (Int.log 10 x - 17) := by
    calc _ = |(roundHalfEven (x / (10 : Rat) ^ (Int.log 10 x - 17)) : Rat) -
          x / 10 ^ (Int.log 10 x - 17)| * 10 ^ (Int.log 10 x - 17) := by
          rw [← abs_of_pos hten, ← abs_mul, abs_of_pos hten]
          congr 1
          field_simp
      _ ≤ 1 / 2 * 10 ^ (Int.log 10 x - 17) := mul_le_mul_of_nonneg_right herror hten.le
  have hlog : (10 : Rat) ^ (Int.log 10 x - 17) * 10 ^ 17 ≤ x := by
    have hle : ((10 : Nat) : Rat) ^ Int.log 10 x ≤ x := Int.zpow_log_le_self (by norm_num) hpos
    calc (10 : Rat) ^ (Int.log 10 x - 17) * 10 ^ 17
        = (10 : Rat) ^ Int.log 10 x := by
          rw [← zpow_natCast, ← zpow_add₀ (by norm_num : (10 : Rat) ≠ 0)]
          congr 1
          push_cast
          ring
      _ ≤ x := by exact_mod_cast hle
  have hbinade : x < 2 ^ 53 * (2 : Rat) ^ floatExp x := by
    calc x < (2 : Rat) ^ (Int.log 2 x + 1) := (abs_log_bounds hpos).2
      _ ≤ (2 : Rat) ^ (53 + floatExp x) := by
          refine zpow_le_zpow_right₀ (by norm_num) ?_
          unfold floatExp
          rw [abs_of_pos hpos]
          omega
      _ = 2 ^ 53 * (2 : Rat) ^ floatExp x := by
          rw [zpow_add₀ (by norm_num : (2 : Rat) ≠ 0)]
          norm_num
  have hunit := two_zpow_pos (floatExp x)
  refine lt_of_le_of_lt hscaled ?_
  generalize (10 : Rat) ^ (Int.log 10 x - 17) = t at hlog ⊢
  generalize (2 : Rat) ^ floatExp x = u at hbinade hunit ⊢
  linarith

theorem shortestFuel_spec {x : Rat} {top : Int} (fuel : Nat) {n k : Nat} (hnk : n ≤ k)
    (hk : k < n + fuel) (hnear : roundFloat64
      ((roundHalfEven (x / (10 : Rat) ^ (top - k)) : Rat) * 10 ^ (top - k)) = x) :
    roundFloat64 (((shortestFuel x top fuel n).1 : Rat) * 10 ^ (shortestFuel x top fuel n).2) = x := by
  induction fuel generalizing n with
  | zero => omega
  | succ fuel ih =>
    rw [shortestFuel]
    split
    · rename_i m hfind
      have hfound := List.find?_some hfind
      exact of_decide_eq_true hfound
    · rename_i hfind
      refine ih ?_ (by omega)
      by_contra hlt
      obtain rfl : k = n := by omega
      have hnot := List.find?_eq_none.mp hfind _ (List.mem_cons_self ..)
      exact hnot (decide_eq_true hnear)

/-- The digits and the exponent that are printed. -/
def shortest (x : Rat) : Int × Int := shortestFuel x (Int.log 10 x) 18 0

/-- **The shortest digits are rounded back.** -/
theorem shortest_rounds {x : Rat} (hpos : 0 < x) (hx : roundFloat64 x = x) :
    roundFloat64 (((shortest x).1 : Rat) * 10 ^ (shortest x).2) = x :=
  shortestFuel_spec 18 (Nat.zero_le 17) (by omega)
    (roundFloat64_near hpos hx (by exact_mod_cast seventeen_near hpos))

theorem shortest_pos {x : Rat} (hpos : 0 < x) (hx : roundFloat64 x = x) : 0 < (shortest x).1 := by
  have hround := shortest_rounds hpos hx
  have hten : (0 : Rat) < 10 ^ (shortest x).2 := zpow_pos (by norm_num) _
  by_contra hle
  rcases eq_or_lt_of_le (not_lt.mp hle) with hzero | hneg
  · rw [hzero, Int.cast_zero, zero_mul] at hround
    rw [← hround] at hpos
    exact absurd hpos (by decide +kernel)
  · -- a negative number is not rounded to a positive one
    have hcast : ((shortest x).1 : Rat) < 0 := by exact_mod_cast hneg
    have hprod : 0 < -(((shortest x).1 : Rat) * 10 ^ (shortest x).2) := by
      have := mul_neg_of_neg_of_pos hcast hten
      linarith
    have hopposite := roundFloat64_neg (((shortest x).1 : Rat) * 10 ^ (shortest x).2)
    rw [hround, roundFloat64_of_pos hprod] at hopposite
    have hnonneg : (0 : Int) ≤ roundHalfEven (-(((shortest x).1 : Rat) * 10 ^ (shortest x).2) /
        (2 : Rat) ^ floatExp (-(((shortest x).1 : Rat) * 10 ^ (shortest x).2))) := by
      refine le_roundHalfEven ?_
      rw [Int.cast_zero]
      exact div_nonneg hprod.le (two_zpow_pos _).le
    have hcastn : (0 : Rat) ≤ roundHalfEven (-(((shortest x).1 : Rat) * 10 ^ (shortest x).2) /
        (2 : Rat) ^ floatExp (-(((shortest x).1 : Rat) * 10 ^ (shortest x).2))) := by
      exact_mod_cast hnonneg
    have := mul_nonneg hcastn (two_zpow_pos
      (floatExp (-(((shortest x).1 : Rat) * 10 ^ (shortest x).2)))).le
    linarith

/-! ### What is rounded is a `float64` -/

/-- Up to half above a number it is rounded down to it. -/
theorem roundHalfEven_le {q : Rat} {n : Int} (h : q < n + 1 / 2) : roundHalfEven q ≤ n := by
  have hfloor := Rat.floor_le q
  have hnext := lt_floor_add_one q
  have hle : q.floor ≤ n := by
    have hlt : (q.floor : Rat) < n + 1 := by linarith
    have : q.floor < n + 1 := by exact_mod_cast hlt
    omega
  unfold roundHalfEven
  simp only
  split
  · exact hle
  · rename_i hhalf
    have hbelow : q.floor < n := by
      have hlt : (q.floor : Rat) < n := by linarith
      exact_mod_cast hlt
    split
    · omega
    · split <;> omega

/-- A multiple of its unit is a `float64`. -/
theorem round_of_units {x : Rat} (hpos : 0 < x) {k : Int} (h : x = k * (2 : Rat) ^ floatExp x) :
    roundFloat64 x = x := by
  have hpow := two_zpow_pos (floatExp x)
  have hquot : x / (2 : Rat) ^ floatExp x = k := by
    rw [div_eq_iff hpow.ne']
    exact h
  have hwhole : roundHalfEven (k : Rat) = k := roundHalfEven_eq (by simp)
  rw [roundFloat64_of_pos hpos, hquot, hwhole, ← h]

section Rounded
variable {y : Rat}

/-- How many units a number is rounded to. -/
def units (y : Rat) : Int := roundHalfEven (y / (2 : Rat) ^ floatExp y)

theorem units_bounds (hpos : 0 < y) : 0 ≤ units y ∧ units y ≤ 9007199254740992 := by
  have hpow := two_zpow_pos (floatExp y)
  constructor
  · refine le_roundHalfEven ?_
    rw [Int.cast_zero]
    exact div_nonneg hpos.le hpow.le
  · refine roundHalfEven_le ?_
    have hbinade : y < 9007199254740992 * (2 : Rat) ^ floatExp y := by
      calc y < (2 : Rat) ^ (Int.log 2 y + 1) := (abs_log_bounds hpos).2
        _ ≤ (2 : Rat) ^ (53 + floatExp y) := by
            refine zpow_le_zpow_right₀ (by norm_num) ?_
            unfold floatExp
            rw [abs_of_pos hpos]
            omega
        _ = 9007199254740992 * (2 : Rat) ^ floatExp y := zpow_add_53 _
    have hquot : y / (2 : Rat) ^ floatExp y < 9007199254740992 := (div_lt_iff₀ hpow).mpr hbinade
    push_cast
    linarith

/-- Rounding once is enough: only a full count of units moves the exponent, and that is even. -/
theorem round_round_of_pos (hpos : 0 < y) : roundFloat64 (roundFloat64 y) = roundFloat64 y := by
  obtain ⟨hlow, hhigh⟩ := units_bounds hpos
  have hround : roundFloat64 y = (units y : Rat) * (2 : Rat) ^ floatExp y := roundFloat64_of_pos hpos
  rcases eq_or_lt_of_le hlow with hzero | hn
  · rw [hround, ← hzero, Int.cast_zero, zero_mul]
    rfl
  have hpow := two_zpow_pos (floatExp y)
  have hcast : (0 : Rat) < units y := by exact_mod_cast hn
  have hv : 0 < roundFloat64 y := by
    rw [hround]
    exact mul_pos hcast hpow
  have he : -1074 ≤ floatExp y := le_max_right ..
  rcases eq_or_lt_of_le hhigh with hfull | hless
  · have hvalue : roundFloat64 y = (2 : Rat) ^ (53 + floatExp y) := by
      rw [hround, hfull, zpow_add_53]
      norm_num
    have hlog : Int.log 2 (roundFloat64 y) = 53 + floatExp y := by
      rw [hvalue]
      exact Int.log_zpow (by norm_num) _
    have hexp : floatExp (roundFloat64 y) = 1 + floatExp y := by
      have hdef : floatExp (roundFloat64 y) = max (Int.log 2 (roundFloat64 y) - 52) (-1074) := by
        rw [floatExp, abs_of_pos hv]
      rw [hdef, hlog]
      omega
    refine round_of_units hv (k := 4503599627370496) ?_
    rw [hexp, hround, hfull, zpow_add₀ (by norm_num : (2 : Rat) ≠ 0)]
    push_cast
    ring
  · have hbelow : roundFloat64 y < (2 : Rat) ^ (53 + floatExp y) := by
      have hlt : (units y : Rat) < 9007199254740992 := by exact_mod_cast hless
      rw [hround, zpow_add_53]
      exact mul_lt_mul_of_pos_right hlt hpow
    have hlog : Int.log 2 (roundFloat64 y) < 53 + floatExp y :=
      (Int.lt_zpow_iff_log_lt (by norm_num : 1 < 2) hv).mp (by exact_mod_cast hbelow)
    have hexp : floatExp (roundFloat64 y) ≤ floatExp y := by
      have hdef : floatExp (roundFloat64 y) = max (Int.log 2 (roundFloat64 y) - 52) (-1074) := by
        rw [floatExp, abs_of_pos hv]
      omega
    obtain ⟨j, hj⟩ := Int.le.dest hexp
    refine round_of_units hv (k := units y * 2 ^ j) ?_
    have hsplit : (2 : Rat) ^ floatExp y = 2 ^ j * 2 ^ floatExp (roundFloat64 y) := by
      rw [← hj, zpow_add₀ (by norm_num : (2 : Rat) ≠ 0), zpow_natCast]
      ring
    conv_lhs => rw [hround, hsplit]
    push_cast
    ring

theorem round_round (y : Rat) : roundFloat64 (roundFloat64 y) = roundFloat64 y := by
  rcases lt_trichotomy y 0 with hneg | rfl | hpos
  · have hopposite := round_round_of_pos (y := -y) (by linarith)
    rw [roundFloat64_neg, roundFloat64_neg] at hopposite
    exact neg_inj.mp hopposite
  · rfl
  · exact round_round_of_pos hpos

theorem inRange_round_of_pos (hpos : 0 < y) (h : float64Overflow y = false) :
    float64Overflow (roundFloat64 y) = false := by
  obtain ⟨hlow, hhigh⟩ := units_bounds hpos
  have hround : roundFloat64 y = (units y : Rat) * (2 : Rat) ^ floatExp y := roundFloat64_of_pos hpos
  have hpow := two_zpow_pos (floatExp y)
  have hu := two_zpow_pos 970
  have hnonneg : 0 ≤ roundFloat64 y := by
    rw [hround]
    exact mul_nonneg (by exact_mod_cast hlow) hpow.le
  rw [float64Overflow_eq, decide_eq_false_iff_not, abs_of_pos hpos, not_le] at h
  rw [float64Overflow_eq, decide_eq_false_iff_not, abs_of_nonneg hnonneg, not_le, hround]
  have hlog : Int.log 2 y < 54 + 970 := by
    refine (Int.lt_zpow_iff_log_lt (by norm_num : 1 < 2) hpos).mp ?_
    rw [Nat.cast_ofNat, zpow_add₀ (by norm_num : (2 : Rat) ≠ 0)]
    generalize (2 : Rat) ^ (970 : Int) = u at h hu ⊢
    norm_num
    linarith
  have hexp : floatExp y ≤ 1 + 970 := by
    unfold floatExp
    rw [abs_of_pos hpos]
    omega
  rcases eq_or_lt_of_le hexp with heq | hless
  · have hunit : (2 : Rat) ^ floatExp y = 2 * 2 ^ (970 : Int) := by
      rw [heq, zpow_add₀ (by norm_num : (2 : Rat) ≠ 0), zpow_one]
    have hquot : y / (2 : Rat) ^ floatExp y < ((9007199254740991 : Int) : Rat) + 1 / 2 := by
      rw [div_lt_iff₀ hpow, hunit]
      generalize (2 : Rat) ^ (970 : Int) = u at h hu ⊢
      push_cast
      linarith
    have hn : (units y : Rat) ≤ 9007199254740991 := by exact_mod_cast roundHalfEven_le hquot
    have hle := mul_le_mul_of_nonneg_right hn hpow.le
    rw [hunit] at hle ⊢
    generalize (2 : Rat) ^ (970 : Int) = u at hle hu ⊢
    linarith
  · have hunit : (2 : Rat) ^ floatExp y ≤ 2 ^ (970 : Int) :=
      zpow_le_zpow_right₀ (by norm_num) (by omega)
    have hn : (units y : Rat) ≤ 9007199254740992 := by exact_mod_cast hhigh
    have hle : (units y : Rat) * (2 : Rat) ^ floatExp y ≤ 9007199254740992 * 2 ^ (970 : Int) := by
      calc (units y : Rat) * (2 : Rat) ^ floatExp y
          ≤ 9007199254740992 * (2 : Rat) ^ floatExp y := mul_le_mul_of_nonneg_right hn hpow.le
        _ ≤ _ := mul_le_mul_of_nonneg_left hunit (by norm_num)
    generalize (2 : Rat) ^ (970 : Int) = u at hle hu ⊢
    linarith

end Rounded

theorem float64Overflow_neg (x : Rat) : float64Overflow (-x) = float64Overflow x := by
  unfold float64Overflow
  rw [abs_neg]

theorem IsFloat64.neg {x : Rat} (h : IsFloat64 x) : IsFloat64 (-x) :=
  ⟨by rw [roundFloat64_neg, h.rounds], by rw [float64Overflow_neg, h.inRange]⟩

theorem isFloat64_zero : IsFloat64 0 := ⟨rfl, by decide +kernel⟩

/-- **What is read is a `float64`.** -/
theorem isFloat64_of_parseFloat {s : GoString} {x : Rat} (h : parseFloat s = some x) :
    IsFloat64 x := by
  unfold parseFloat at h
  simp only at h
  split at h
  · cases h
  rename_i hrange
  rw [Bool.not_eq_true] at hrange
  obtain rfl := Option.some.inj h
  refine ⟨round_round _, ?_⟩
  rcases lt_trichotomy (numberValue s) 0 with hneg | hzero | hpos
  · have hopposite := inRange_round_of_pos (y := -numberValue s) (by linarith)
      (by rw [float64Overflow_neg, hrange])
    rwa [roundFloat64_neg, float64Overflow_neg] at hopposite
  · rw [hzero]
    exact isFloat64_zero.inRange
  · exact inRange_round_of_pos hpos hrange

end Go
