import Mathlib.Data.List.Sort
import Mathlib.Order.Defs.LinearOrder
import Mathlib.Tactic.Common

-- Deleting all rows of a table but those with the greatest keys, as a query does that selects the
-- keys of the rows to delete: a row goes if its key is among them.
namespace Retention

variable {α κ : Type*} [LinearOrder κ] {key : α → κ} {max : Nat} {rows : List α}

-- The keys after the first `max` ones in descending order.
def doomed (key : α → κ) (max : Nat) (rows : List α) : List κ :=
  ((rows.map key).mergeSort fun a b => b ≤ a).drop max

def keepGreatest (key : α → κ) (max : Nat) (rows : List α) : List α :=
  rows.filter (key · ∉ doomed key max rows)

-- The row at the boundary has the key of the row behind it.
def Tie (key : α → κ) (max : Nat) (rows : List α) : Prop :=
  ∃ a b, rows[max - 1]? = some a ∧ rows[max]? = some b ∧ key a = key b

-- The row behind the boundary has the key of the row with the number `n`.
def Reaches (key : α → κ) (n max : Nat) (rows : List α) : Prop :=
  ∃ a b, rows[n - 1]? = some a ∧ rows[max]? = some b ∧ key a = key b

-- The rows are listed from the greatest key to the least one.
def Descending (key : α → κ) (rows : List α) : Prop :=
  rows.Pairwise fun a b => key b ≤ key a

theorem Descending.getElem_le (h : Descending key rows) {i j : Nat} (hij : i ≤ j) 
    (hj : j < rows.length) : key rows[j] ≤ key rows[i] := by
  cases Nat.lt_or_eq_of_le hij
  case inl hl => exact List.pairwise_iff_getElem.mp h i j _ hj hl
  case inr he => simp only [he, le_refl]

theorem Descending.take (h : Descending key rows) (n : Nat) : Descending key (rows.take n) :=
  h.sublist <| List.take_sublist n rows

-- A filter that keeps all of the first rows.
theorem take_filter {l : List α} {n : Nat} {p : α → Bool} (h : ∀ x ∈ l.take n, p x) : (l.filter p).take n = l.take n := by
  induction l generalizing n
  case nil         => simp
  case cons x l hi =>
    cases n
    case zero   => simp
    case succ n =>
      have hx : p x := h x (by simp)
      rw [List.filter_cons_of_pos hx, List.take_succ_cons, List.take_succ_cons, 
        hi fun y hy => h y (by simp [hy])]

theorem doomed_eq (h : Descending key rows) : doomed key max rows = (rows.drop max).map key := by
  have hs : (rows.map key).Pairwise fun a b => decide (b ≤ a) := by
    rw [List.pairwise_map]
    exact h.imp fun hab => by simpa using hab
  rw [doomed, List.mergeSort_of_pairwise hs, List.map_drop]

theorem mem_keepGreatest {r : α} : 
    r ∈ keepGreatest key max rows ↔ r ∈ rows ∧ key r ∉ doomed key max rows := by
  simp [keepGreatest]

theorem keepGreatest_eq_self (h : Descending key rows) (hl : rows.length ≤ max) : 
    keepGreatest key max rows = rows := by
  rw [keepGreatest, doomed_eq h, List.drop_of_length_le hl]
  simp

-- The first `n` rows are kept if none of them has the key of a row that goes.
theorem keepGreatest_eq_append {n : Nat} (h : Descending key rows) (hm : n ≤ max) 
    (hb : max < rows.length) (hr : ¬Reaches key n max rows) : 
    keepGreatest key max rows = 
      rows.take n ++ (rows.drop n).filter (key · ∉ (rows.drop max).map key) := by
  have hk : ∀ a ∈ rows.take n, key a ∉ (rows.drop max).map key := by
    intro a ha hd
    have ⟨b, hb', he⟩ := List.mem_map.mp hd
    have ⟨i, hi, hia⟩ := List.mem_take_iff_getElem.mp ha
    have ⟨j, hj, hjb⟩ := List.mem_drop_iff_getElem.mp hb'
    -- Between equal keys all keys are equal, the one behind the boundary included.
    have h₁ := h.getElem_le (i := i) (j := n - 1) (by omega) (by omega)
    have h₂ := h.getElem_le (i := n - 1) (j := max) (by omega) hb
    have h₃ := h.getElem_le (i := max) (j := max + j) (by omega) (by omega)
    rw [hia] at h₁
    rw [hjb, he] at h₃
    apply hr
    refine ⟨_, _, List.getElem?_eq_getElem (by omega), List.getElem?_eq_getElem hb, ?_⟩
    exact le_antisymm (h₁.trans h₃) h₂
  rw [keepGreatest, doomed_eq h]
  conv_lhs => arg 2; rw [← List.take_append_drop n rows]
  rw [List.filter_append, List.filter_eq_self.mpr (by simpa using hk)]

theorem take_keepGreatest {n : Nat} (h : Descending key rows) (hm : n ≤ max) 
    (hr : ¬Reaches key n max rows) : (keepGreatest key max rows).take n = rows.take n := by
  by_cases hb : max < rows.length
  case neg => rw [keepGreatest_eq_self h (not_lt.mp hb)]
  case pos =>
    rw [keepGreatest_eq_append h hm hb hr, List.take_append_of_le_length (by simp; omega), 
      List.take_of_length_le (by simp)]

-- Without a tie the first `max` rows are kept.
theorem keepGreatest_eq_take (h : Descending key rows) (ht : ¬Tie key max rows) : 
    keepGreatest key max rows = rows.take max := by
  by_cases hb : max < rows.length
  case neg => 
    rw [keepGreatest_eq_self h (not_lt.mp hb), List.take_of_length_le (not_lt.mp hb)]
  case pos =>
    have hd : ∀ a ∈ rows.drop max, key a ∈ (rows.drop max).map key := 
      fun a ha => List.mem_map_of_mem ha
    rw [keepGreatest_eq_append h le_rfl hb ht, List.filter_eq_nil_iff.mpr (by simpa using hd), 
      List.append_nil]

-- Otherwise one of them is deleted.
theorem exists_not_mem_of_reaches {n : Nat} (h : Descending key rows) (hr : Reaches key n max rows) 
    (hn : 0 < n) : ∃ r ∈ rows.take n, r ∉ keepGreatest key max rows := by
  have ⟨a, b, ha, hb, he⟩ := hr
  have ⟨hla, hga⟩ := List.getElem?_eq_some_iff.mp ha
  have ⟨hlb, hgb⟩ := List.getElem?_eq_some_iff.mp hb
  refine ⟨a, ?_, fun hk => ?_⟩
  · rw [List.mem_take_iff_getElem]
    exact ⟨n - 1, by omega, hga⟩
  · apply mem_keepGreatest.mp hk |>.right
    rw [doomed_eq h, he]
    apply List.mem_map_of_mem
    rw [List.mem_drop_iff_getElem]
    exact ⟨0, by omega, by simpa using hgb⟩

-- With a tie the last of the first `max` rows is deleted, too.
theorem exists_not_mem_of_tie (h : Descending key rows) (ht : Tie key max rows) (hm : 0 < max) : 
    ∃ r ∈ rows.take max, r ∉ keepGreatest key max rows :=
  exists_not_mem_of_reaches h ht hm

theorem not_tie_of_strict (h : rows.Pairwise fun a b => key b < key a) (hm : 0 < max) : 
    ¬Tie key max rows := by
  rintro ⟨a, b, ha, hb, he⟩
  have ⟨hla, hga⟩ := List.getElem?_eq_some_iff.mp ha
  have ⟨hlb, hgb⟩ := List.getElem?_eq_some_iff.mp hb
  have hl := List.pairwise_iff_getElem.mp h (max - 1) max hla hlb (by omega)
  rw [hga, hgb, he] at hl
  exact lt_irrefl _ hl

end Retention
