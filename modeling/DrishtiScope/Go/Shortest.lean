import DrishtiScope.Go.Strconv
import Mathlib.Data.Nat.Digits.Lemmas

-- The decimals that `strconv.FormatFloat` writes for floats.
namespace Go

-- The number with these digits and the point at a certain position.
def decimal (ds : List Nat) (dp : Int) : ℚ :=
  (Nat.ofDigits 10 ds.reverse : Nat) * 10 ^ (dp - ds.length)

-- The digits of the shortest decimal that a float is the nearest one to, and the position of its point. A number
-- that is not a float stands for the float next to it.
class Shortest where
  digits : ℚ → List Nat
  point  : ℚ → Int
  digits_lt   : ∀ x, ∀ d ∈ digits x, d < 10
  digits_head : ∀ x, (digits x).head? ≠ some 0
  point_nil   : ∀ x, digits x = [] → point x = 0
  nearest     : ∀ x, FloatFormat.binary64.round (decimal (digits x) (point x)) = FloatFormat.binary64.round |x|

section Zeros

variable {ds : List Nat} {dp : Int} {n : Nat}

-- Zeros at the end do not count, and those at the front move the point.
theorem decimal_append_replicate : decimal (ds ++ .replicate n 0) dp = decimal ds dp := by
  rw [decimal, List.reverse_append, List.reverse_replicate, Nat.ofDigits_append, Nat.ofDigits_replicate_zero, 
    List.length_append, List.length_replicate, zero_add, decimal]
  push_cast
  rw [mul_comm ((10 : ℚ) ^ n), mul_assoc, ← zpow_natCast, ← zpow_add₀ (by norm_num)]
  congr 2
  ring

theorem decimal_replicate_append : decimal (.replicate n 0 ++ ds) (dp + n) = decimal ds dp := by
  rw [decimal, List.reverse_append, List.reverse_replicate, Nat.ofDigits_append_replicate_zero, List.length_append, 
    List.length_replicate, decimal]
  push_cast
  congr 2
  ring

end Zeros

-- The shortest decimal is found among those that are next to the float.
namespace Shortest

open FloatFormat

variable {n : Nat} {k : Int} {x y : ℚ}

def digitsOf (n : Nat) : List Nat :=
  ((Nat.digits 10 n).dropWhile (· = 0)).reverse

def pointOf (n : Nat) (k : Int) : Int :=
  if n = 0 then 0 else (Nat.digits 10 n).length + k

def value (d : Nat × Int) : ℚ :=
  d.fst * 10 ^ d.snd

theorem digitsOf_lt : ∀ d ∈ digitsOf n, d < 10 := by
  intro d hd
  exact Nat.digits_lt_base (by decide) <| (List.dropWhile_sublist _).subset <| List.mem_reverse.mp hd

theorem digitsOf_append : ∃ z, digitsOf n ++ .replicate z 0 = (Nat.digits 10 n).reverse := by
  refine ⟨((Nat.digits 10 n).takeWhile (· = 0)).length, ?_⟩
  have hz : (Nat.digits 10 n).takeWhile (· = 0) = .replicate ((Nat.digits 10 n).takeWhile (· = 0)).length 0 := 
    List.eq_replicate_iff.mpr ⟨rfl, fun d hd => by simpa using List.mem_takeWhile_imp hd⟩
  rw [digitsOf, ← List.reverse_replicate, ← hz, ← List.reverse_append, List.takeWhile_append_dropWhile]

theorem digitsOf_head : (digitsOf n).head? ≠ some 0 := by
  intro hz
  have ⟨z, h⟩ := @digitsOf_append n
  have hg : (Nat.digits 10 n).getLast? = some 0 := by
    rw [← List.head?_reverse, ← h, List.head?_append, hz, Option.some_or]
  have hn : Nat.digits 10 n ≠ [] := fun hn => by simp [hn] at hg
  rw [List.getLast?_eq_some_getLast hn] at hg
  exact Nat.getLast_digit_ne_zero 10 (Nat.digits_ne_nil_iff_ne_zero.mp hn) <| Option.some.inj hg

theorem eq_zero_of_digitsOf (h : digitsOf n = []) : n = 0 := by
  have ⟨z, hz⟩ := @digitsOf_append n
  rw [h, List.nil_append] at hz
  rw [← Nat.ofDigits_digits 10 n, ← List.reverse_reverse (Nat.digits 10 n), ← hz, List.reverse_replicate, 
    Nat.ofDigits_replicate_zero]

theorem decimal_digitsOf : decimal (digitsOf n) (pointOf n k) = value (n, k) := by
  have ⟨z, hz⟩ := @digitsOf_append n
  rw [← decimal_append_replicate, hz, decimal, List.reverse_reverse, Nat.ofDigits_digits, List.length_reverse, pointOf,
    value]
  split
  case isTrue h => simp [h]
  case isFalse  => rw [add_sub_cancel_left]

-- The decimal with `n + 1` digits.
def candidate (y : ℚ) (n : Nat) : Nat × Int :=
  let k := Int.log 10 y - n
  ((roundHalfEven (y / 10 ^ k)).toNat, k)

-- A float has a decimal of its own.
def exact (y : ℚ) : Nat × Int :=
  let e := binary64.exponent y
  let m := (roundHalfEven (y / 2 ^ e)).toNat
  if 0 ≤ e then (m * 2 ^ e.toNat, 0) else (m * 5 ^ (-e).toNat, e)

def search (y : ℚ) : Nat × Int :=
  ((List.range 17).map (candidate y)).find? (fun d => binary64.round (value d) = binary64.round y) |>.getD (exact y)

theorem value_exact (hy : 0 ≤ y) : value (exact y) = binary64.round y := by
  have hm : (((roundHalfEven (y / 2 ^ binary64.exponent y)).toNat : Int) : ℚ) = 
      roundHalfEven (y / 2 ^ binary64.exponent y) := by
    have hd : ((0 : Int) : ℚ) ≤ y / 2 ^ binary64.exponent y := by
      rw [Int.cast_zero]
      positivity
    rw [Int.toNat_of_nonneg (le_roundHalfEven hd)]
  rw [FloatFormat.round, exact, ← hm]
  generalize (roundHalfEven (y / 2 ^ binary64.exponent y)).toNat = m
  generalize binary64.exponent y = e
  split
  case isTrue h  =>
    obtain ⟨n, rfl⟩ := Int.eq_ofNat_of_zero_le h
    simp [value]
  case isFalse h =>
    obtain ⟨n, hn⟩ := Int.eq_ofNat_of_zero_le (a := -e) (by omega)
    obtain rfl : e = -n := by omega
    simp only [value, neg_neg, Int.toNat_natCast]
    push_cast
    rw [zpow_neg, zpow_neg, zpow_natCast, zpow_natCast, show (10 : ℚ) = 2 * 5 by norm_num, mul_pow]
    field_simp

theorem round_search (hy : 0 ≤ y) : binary64.round (value <| search y) = binary64.round y := by
  rw [search]
  cases h : ((List.range 17).map (candidate y)).find? (fun d => binary64.round (value d) = binary64.round y)
  case none   => rw [Option.getD_none, value_exact hy, round_round]
  case some d => simpa using List.find?_some h

theorem round_nonneg (hx : 0 ≤ x) : 0 ≤ binary64.round x := by
  have hd : ((0 : Int) : ℚ) ≤ x / 2 ^ binary64.exponent x := by
    rw [Int.cast_zero]
    positivity
  have hr : (0 : ℚ) ≤ roundHalfEven (x / 2 ^ binary64.exponent x) := by exact_mod_cast le_roundHalfEven hd
  rw [FloatFormat.round]
  positivity

@[reducible]
def ofSearch : Shortest where
  digits x      := digitsOf (search <| binary64.round |x|).fst
  point x       := pointOf (search <| binary64.round |x|).fst (search <| binary64.round |x|).snd
  digits_lt _   := digitsOf_lt
  digits_head _ := digitsOf_head
  point_nil _ h := if_pos <| eq_zero_of_digitsOf h
  nearest x     := by
    rw [decimal_digitsOf, Prod.mk.eta, round_search (round_nonneg <| abs_nonneg x), round_round]

example : ofSearch.digits (1 / 10) = [1] ∧ ofSearch.point (1 / 10) = 0 := by 
  decide +kernel

end Shortest
end Go
