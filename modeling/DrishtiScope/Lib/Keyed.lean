import Mathlib.Data.List.Nodup
import Mathlib.Data.List.Perm.Subperm
import Mathlib.Tactic.Common

-- Lists whose elements have keys, of which only the first element with each key may count.
namespace Keyed

variable {α κ : Type*} [DecidableEq κ] {key : α → κ} {l m : List α} {a : α} {k : κ}

def firsts (key : α → κ) : List α → List α
  | []     => []
  | a :: l => a :: (firsts key l).filter (key · ≠ key a)

-- The other elements.
def repeats (key : α → κ) : List α → List α
  | []     => []
  | a :: l => (firsts key l).filter (key · = key a) ++ repeats key l

theorem perm_firsts_append_repeats : l.Perm (firsts key l ++ repeats key l) := by
  induction l
  case nil         => exact .nil
  case cons a l hi =>
    have hn : (firsts key l).filter (fun b => !decide (key b = key a)) = 
        (firsts key l).filter (key · ≠ key a) := by simp
    have hp := List.filter_append_perm (key · = key a) (firsts key l)
    rw [hn] at hp
    have hl : l.Perm ((firsts key l).filter (key · ≠ key a) ++ 
        ((firsts key l).filter (key · = key a) ++ repeats key l)) := by
      rw [← List.append_assoc]
      exact hi.trans <| (hp.symm.trans List.perm_append_comm).append_right _
    exact hl.cons a

-- Each key is kept.
theorem mem_map_firsts_iff : k ∈ (firsts key l).map key ↔ k ∈ l.map key := by
  induction l
  case nil         => rfl
  case cons a l hi => 
    simp only [firsts, List.map_cons, List.mem_cons, ← hi]
    simp only [List.mem_map, List.mem_filter, decide_eq_true_eq]
    grind

theorem nodup_map_firsts : ((firsts key l).map key).Nodup := by
  induction l
  case nil         => exact List.nodup_nil
  case cons a l hi =>
    rw [firsts, List.map_cons, List.nodup_cons]
    refine ⟨fun hm => ?_, hi.sublist <| List.filter_sublist.map key⟩
    obtain ⟨b, hb, he⟩ := List.mem_map.mp hm
    simpa [he] using (List.mem_filter.mp hb).right

theorem firsts_append : 
    firsts key (l ++ m) = firsts key l ++ (firsts key m).filter (key · ∉ l.map key) := by
  induction l
  case nil         => simp [firsts]
  case cons a l hi =>
    rw [List.cons_append, firsts, hi, List.filter_append, List.filter_filter, firsts, List.cons_append]
    congr 3
    ext b
    simp only [List.map_cons, List.mem_cons]
    grind

theorem repeats_eq_nil_iff : repeats key l = [] ↔ (l.map key).Nodup := by
  induction l
  case nil         => simp [repeats]
  case cons a l hi =>
    rw [repeats, List.append_eq_nil_iff, hi, List.map_cons, List.nodup_cons, ← mem_map_firsts_iff]
    simp [List.filter_eq_nil_iff]

theorem mem_of_mem_firsts (h : a ∈ firsts key l) : a ∈ l := by
  induction l generalizing a
  case nil         => exact h
  case cons b l hi =>
    cases List.mem_cons.mp h
    case inl he => exact he ▸ List.mem_cons_self
    case inr hm => exact List.mem_cons_of_mem _ <| hi (List.mem_filter.mp hm).left

theorem firsts_filter {p : κ → Bool} : 
    firsts key (l.filter fun a => p (key a)) = (firsts key l).filter fun a => p (key a) := by
  induction l
  case nil         => rfl
  case cons a l hi =>
    rw [firsts, List.filter_cons, List.filter_cons]
    split
    case isTrue         =>
      rw [firsts, hi, List.filter_filter, List.filter_filter]
      simp only [Bool.and_comm]
    case isFalse hn     =>
      rw [hi, List.filter_filter]
      refine List.filter_congr fun b _ => ?_
      by_cases he : key b = key a <;> simp_all

-- The first elements with keys that are not known yet.
def fresh (key : α → κ) (known : List κ) (l : List α) : List α :=
  firsts key <| l.filter (key · ∉ known)

section Fresh

variable {known : List κ}

theorem fresh_cons_of_mem (h : key a ∈ known) : fresh key known (a :: l) = fresh key known l := by
  simp [fresh, h]

theorem fresh_cons_of_not_mem (h : key a ∉ known) : 
    fresh key known (a :: l) = a :: fresh key (known ++ [key a]) l := by
  have hf : l.filter (key · ∉ known ++ [key a]) = 
      (l.filter (key · ∉ known)).filter (key · ≠ key a) := by
    rw [List.filter_filter]
    refine List.filter_congr fun b _ => ?_
    simp [and_comm]
  rw [fresh, List.filter_cons_of_pos (by simpa using h), firsts, fresh, hf]
  exact congrArg _ (firsts_filter (p := (· ≠ key a))).symm

theorem nodup_map_fresh : ((fresh key known l).map key).Nodup :=
  nodup_map_firsts

theorem mem_map_fresh_iff : k ∈ (fresh key known l).map key ↔ k ∈ l.map key ∧ k ∉ known := by
  rw [fresh, mem_map_firsts_iff]
  simp only [List.mem_map, List.mem_filter, decide_eq_true_eq]
  grind

theorem mem_of_mem_fresh (h : a ∈ fresh key known l) : a ∈ l ∧ key a ∉ known := by
  simpa using mem_of_mem_firsts h

section Identity

-- Elements have an identity that says more than their keys.
variable {ι : Type*} [DecidableEq ι] {ident : α → ι} {history : List ι} {n : Nat} 

-- What is new by its key is new by its identity.
theorem mem_map_ident_fresh (hh : ∀ a, ident a ∈ history → key a ∈ known) (ha : a ∈ fresh key known l) : 
    ident a ∈ (fresh ident history l).map ident :=
  have ⟨hl, ha⟩ := mem_of_mem_fresh ha
  mem_map_fresh_iff.mpr ⟨List.mem_map_of_mem hl, ha ∘ hh a⟩

theorem length_fresh_le (hk : ∀ a b, ident a = ident b → key a = key b) 
    (hh : ∀ a, ident a ∈ history → key a ∈ known) : 
    (fresh key known l).length ≤ (fresh ident history l).length := by
  have hs : (fresh key known l).map key ⊆ (fresh ident history l).map key := by
    intro x hx
    obtain ⟨b, hb, rfl⟩ := List.mem_map.mp hx
    obtain ⟨a, ha, he⟩ := List.mem_map.mp (mem_map_ident_fresh hh hb)
    exact List.mem_map.mpr ⟨a, ha, hk _ _ he⟩
  have hf := (nodup_map_fresh.subperm hs).length_le
  rwa [List.length_map, List.length_map] at hf

theorem nodup_map_key_fresh (hk : ∀ a b, ident a = ident b → key a = key b) 
    (hc : ∀ a ∈ fresh ident history l, ∃ b ∈ fresh key known l, ident b = ident a) : 
    ((fresh ident history l).map key).Nodup := by
  refine List.Nodup.map_on (fun a ha b hb he => ?_) (List.Nodup.of_map ident nodup_map_fresh)
  obtain ⟨a', ha', hea⟩ := hc a ha
  obtain ⟨b', hb', heb⟩ := hc b hb
  have hab : a' = b' := 
    List.inj_on_of_nodup_map nodup_map_fresh ha' hb' <| (hk _ _ hea).trans <| he.trans (hk _ _ heb).symm
  exact List.inj_on_of_nodup_map nodup_map_fresh ha hb <| hea.symm.trans <| hab ▸ heb

-- The first elements with new keys, up to `n` of them, cover all new elements if and only if these have new keys, 
-- each its own, and are not too many.
theorem covers_iff (hk : ∀ a b, ident a = ident b → key a = key b) 
    (hh : ∀ a, ident a ∈ history → key a ∈ known) : 
    (∀ a ∈ fresh ident history l, ident a ∈ ((fresh key known l).take n).map ident) ↔ 
      (fresh ident history l).length ≤ n ∧ ((fresh ident history l).map key).Nodup ∧ 
      ∀ a ∈ fresh ident history l, key a ∉ known := by
  constructor
  case mp =>
    intro h
    have hc : ∀ a ∈ fresh ident history l, ∃ b ∈ fresh key known l, ident b = ident a := by
      intro a ha
      obtain ⟨b, hb, he⟩ := List.mem_map.mp (h a ha)
      exact ⟨b, List.mem_of_mem_take hb, he⟩
    refine ⟨?length, nodup_map_key_fresh hk hc, ?known⟩
    case length =>
      have hs : (fresh ident history l).map ident ⊆ ((fresh key known l).take n).map ident := by
        intro x hx
        obtain ⟨a, ha, rfl⟩ := List.mem_map.mp hx
        exact h a ha
      have hl := (nodup_map_fresh.subperm hs).length_le
      rw [List.length_map, List.length_map, List.length_take] at hl
      exact Nat.le_trans hl <| Nat.min_le_left _ _
    case known =>
      intro a ha
      obtain ⟨b, hb, he⟩ := hc a ha
      exact hk _ _ he ▸ (mem_of_mem_fresh hb).right
  case mpr =>
    rintro ⟨hl, hn, hu⟩ a ha
    rw [List.take_of_length_le (Nat.le_trans (length_fresh_le hk hh) hl)]
    have hm : key a ∈ (fresh key known l).map key := 
      mem_map_fresh_iff.mpr ⟨List.mem_map_of_mem (mem_of_mem_fresh ha).left, hu a ha⟩
    obtain ⟨b, hb, he⟩ := List.mem_map.mp hm
    obtain ⟨c, hc, hec⟩ := List.mem_map.mp (mem_map_ident_fresh hh hb)
    have hca : c = a := List.inj_on_of_nodup_map hn hc ha <| (hk _ _ hec).trans he
    exact List.mem_map.mpr ⟨b, hb, by rw [← hec, hca]⟩

end Identity
end Fresh
end Keyed
