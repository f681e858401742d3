import Mathlib.Algebra.Order.Field.Power
import Mathlib.Data.Int.Log
import Mathlib.Data.Rat.Floor
import Mathlib.Tactic.FieldSimp
import Mathlib.Tactic.Linarith
import Mathlib.Tactic.Positivity
import Mathlib.Tactic.Ring

-- The nearest integer, which is the even one if there are two.
def roundHalfEven (x : ℚ) : Int :=
  let n := x.floor
  if x - n < 1 / 2 then n else if 1 / 2 < x - n then n + 1 else n + n % 2

section Nearest

variable {x : ℚ} {n : Int}

theorem floor_bounds : x.floor ≤ x ∧ x < x.floor + 1 := 
  ⟨Rat.floor_le x, by exact_mod_cast Rat.lt_floor_add_one x⟩

-- Rounding does not leave an interval between integers.
theorem roundHalfEven_le (h : x ≤ n) : roundHalfEven x ≤ n := by
  have ⟨hl, hu⟩ := @floor_bounds x
  have hn : x.floor ≤ n := by exact_mod_cast hl.trans h
  rcases hn.lt_or_eq with hn | hn
  case inr => simp [roundHalfEven, h.antisymm (hn ▸ hl)]
  case inl =>
    simp only [roundHalfEven]
    split <;> try split
    all_goals omega

theorem le_roundHalfEven (h : n ≤ x) : n ≤ roundHalfEven x := by
  have hn : n ≤ x.floor := Rat.le_floor_iff.mpr h
  simp only [roundHalfEven]
  split <;> try split
  all_goals omega

@[simp]
theorem roundHalfEven_intCast : roundHalfEven n = n :=
  (roundHalfEven_le le_rfl).antisymm <| le_roundHalfEven le_rfl

theorem roundHalfEven_neg : roundHalfEven (-x) = -roundHalfEven x := by
  have ⟨hl, hu⟩ := @floor_bounds x
  rcases hl.lt_or_eq with hl | hl
  case inr => rw [← hl, ← Int.cast_neg, roundHalfEven_intCast, roundHalfEven_intCast]
  case inl =>
    have hn : (-x).floor = -x.floor - 1 := by
      have ⟨hl', hu'⟩ := @floor_bounds (-x)
      have h₁ : (-x).floor < -x.floor := by
        have : ((-x).floor : ℚ) < -x.floor := by linarith
        exact_mod_cast this
      have h₂ : -x.floor - 1 < (-x).floor + 1 := by
        have : (-x.floor - 1 : ℚ) < (-x).floor + 1 := by linarith
        exact_mod_cast this
      omega
    have hc : -x - ((-x.floor - 1 : Int) : ℚ) = 1 - (x - x.floor) := by
      push_cast
      ring
    simp only [roundHalfEven, hn, hc]
    generalize x - x.floor = t
    split_ifs <;> first | omega | linarith

end Nearest

-- A binary floating-point format. Its numbers are the rationals that they stand for, and there is no largest one.
structure FloatFormat where
  precision     : Nat
  minExponent   : Int
  precision_pos : 0 < precision

namespace FloatFormat

def binary64 : FloatFormat where
  precision     := 53
  minExponent   := -1074
  precision_pos := Nat.succ_pos _

variable (f : FloatFormat) {x : ℚ} {n : Int}

def IsFloat (x : ℚ) : Prop :=
  ∃ m e : Int, |m| < 2 ^ f.precision ∧ f.minExponent ≤ e ∧ x = m * 2 ^ e

-- The exponent of the last digit that there is for `x`.
def exponent (x : ℚ) : Int :=
  max (Int.log 2 |x| + 1 - f.precision) f.minExponent

def round (x : ℚ) : ℚ :=
  roundHalfEven (x / 2 ^ f.exponent x) * 2 ^ f.exponent x

variable {f}

theorem round_neg : f.round (-x) = -f.round x := by
  have he : f.exponent (-x) = f.exponent x := by rw [exponent, exponent, abs_neg]
  rw [round, round, he, neg_div, roundHalfEven_neg, Int.cast_neg, neg_mul]

@[simp]
theorem round_zero : f.round 0 = 0 := by
  rw [round, zero_div, ← Int.cast_zero, roundHalfEven_intCast, Int.cast_zero, zero_mul]

-- A float has no more digits than there are.
theorem exponent_le {m e : Int} (hz : m ≠ 0) (hm : |m| < 2 ^ f.precision) (he : f.minExponent ≤ e) : 
    f.exponent (m * 2 ^ e) ≤ e := by
  apply max_le _ he
  have hz : (m : ℚ) ≠ 0 := by exact_mod_cast hz
  have ha : 0 < |(m * 2 ^ e : ℚ)| := by positivity
  have hl : |(m * 2 ^ e : ℚ)| < (2 : ℕ) ^ (f.precision + e : Int) := by
    rw [abs_mul, abs_of_pos (a := 2 ^ e) (by positivity), Nat.cast_ofNat, zpow_add₀ two_ne_zero, zpow_natCast]
    gcongr
    exact_mod_cast hm
  have := Int.lt_zpow_iff_log_lt Nat.one_lt_two ha |>.mp hl
  omega

theorem round_of_isFloat (h : f.IsFloat x) : f.round x = x := by
  obtain ⟨m, e, hm, he, rfl⟩ := h
  rcases eq_or_ne m 0 with rfl | hz
  case inl => rw [Int.cast_zero, zero_mul, round_zero]
  case inr =>
    have ⟨k, hk⟩ := Int.le.dest <| exponent_le hz hm he
    rw [round]
    generalize f.exponent (m * 2 ^ e) = d at hk ⊢
    have hi : (m * 2 ^ e : ℚ) / 2 ^ d = ((m * 2 ^ k : Int) : ℚ) := by
      rw [← hk, zpow_add₀ two_ne_zero, zpow_natCast]
      push_cast
      field_simp
    rw [hi, roundHalfEven_intCast, ← hi]
    field_simp

-- A digit too many is zero.
theorem isFloat_round : f.IsFloat (f.round x) := by
  have hp := f.precision_pos
  have hx : |x| < 2 ^ (f.precision + f.exponent x : Int) := by
    have hl : |x| < (2 : ℕ) ^ (Int.log 2 |x| + 1) := Int.lt_zpow_succ_log_self Nat.one_lt_two _
    refine hl.trans_le <| zpow_le_zpow_right₀ one_le_two ?_
    have := le_max_left (Int.log 2 |x| + 1 - f.precision) f.minExponent
    rw [exponent]
    omega
  have he : f.minExponent ≤ f.exponent x := le_max_right ..
  rw [round]
  generalize f.exponent x = e at hx he ⊢
  have hd : |x / 2 ^ e| ≤ ((2 ^ f.precision : Int) : ℚ) := by
    rw [abs_div, abs_of_pos (a := 2 ^ e) (by positivity), div_le_iff₀ (by positivity)]
    push_cast
    rw [← zpow_natCast, ← zpow_add₀ two_ne_zero]
    exact hx.le
  have ⟨hl, hu⟩ := abs_le.mp hd
  have hm : |roundHalfEven (x / 2 ^ e)| ≤ 2 ^ f.precision := 
    abs_le.mpr ⟨le_roundHalfEven (by rwa [Int.cast_neg]), roundHalfEven_le hu⟩
  generalize roundHalfEven (x / 2 ^ e) = m at hm ⊢
  rcases hm.lt_or_eq with hm | hm
  case inl => exact ⟨m, e, hm, he, rfl⟩
  case inr =>
    obtain ⟨p, hp⟩ : ∃ p, f.precision = p + 1 := ⟨f.precision - 1, by omega⟩
    have hs : |m / 2| < 2 ^ f.precision ∧ m = m / 2 * 2 := by
      have h2 : (0 : Int) < 2 ^ p := by positivity
      rw [hp, pow_succ] at hm ⊢
      rcases abs_cases m with ⟨ha, _⟩ | ⟨ha, _⟩ <;> rcases abs_cases (m / 2) with ⟨hb, _⟩ | ⟨hb, _⟩ <;> omega
    refine ⟨m / 2, e + 1, hs.left, by omega, ?_⟩
    conv_lhs => rw [hs.right]
    push_cast
    rw [zpow_add_one₀ two_ne_zero]
    ring

theorem isFloat_intCast (h : |n| < 2 ^ f.precision) (he : f.minExponent ≤ 0) : f.IsFloat n :=
  ⟨n, 0, h, he, by simp⟩

theorem round_round : f.round (f.round x) = f.round x :=
  round_of_isFloat isFloat_round

-- What is not too small does not vanish.
theorem round_pos (h : 2 ^ f.minExponent ≤ x) : 0 < f.round x := by
  have hx : 0 < x := lt_of_lt_of_le (by positivity) h
  have hle : (2 : ℚ) ^ f.exponent x ≤ x := by
    rcases max_choice (Int.log 2 |x| + 1 - f.precision) f.minExponent with he | he <;> rw [exponent, he]
    case inr => exact h
    case inl =>
      have hl := Int.zpow_log_le_self Nat.one_lt_two hx
      have hp := f.precision_pos
      rw [abs_of_pos hx]
      refine (zpow_le_zpow_right₀ one_le_two ?_).trans hl
      omega
  have hd : ((1 : Int) : ℚ) ≤ x / 2 ^ f.exponent x := by
    rw [Int.cast_one, one_le_div₀ (by positivity)]
    exact hle
  have hr : (0 : ℚ) < roundHalfEven (x / 2 ^ f.exponent x) := by exact_mod_cast le_roundHalfEven hd
  rw [round]
  positivity

theorem round_intCast_pos_iff (h : f.minExponent ≤ 0) : 0 < f.round n ↔ 0 < n := by
  have hpos {n : Int} (hn : 0 < n) : 0 < f.round n := by
    apply round_pos
    have h1 : (1 : ℚ) ≤ n := by exact_mod_cast hn
    exact (zpow_le_one_of_nonpos₀ one_le_two h).trans h1
  constructor
  case mpr => exact hpos
  case mp  =>
    intro hr
    by_contra hn
    rcases (not_lt.mp hn).lt_or_eq with hn | rfl
    case inr => simp at hr
    case inl =>
      have hr' : 0 < f.round (-n : Int) := hpos <| Int.neg_pos.mpr hn
      rw [Int.cast_neg, round_neg] at hr'
      linarith

end FloatFormat
