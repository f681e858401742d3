import Mathlib.Data.List.Sort
import Mathlib.Tactic.Common

namespace Go

-- What the language leaves open: the order in which `range` visits a map, which may be another one
-- for each loop, and where `sort.Slice` puts elements that compare equal.
class Runtime where
  mapOrder : {α : Type} → Nat → List α → List α
  sortSlice : {α : Type} → (α → α → Bool) → List α → List α
  mapOrder_perm : ∀ {α : Type} n (l : List α), (mapOrder n l).Perm l
  sortSlice_perm : ∀ {α : Type} (less : α → α → Bool) (l : List α), (sortSlice less l).Perm l
  sortSlice_sorted : ∀ {α : Type} (less : α → α → Bool) (l : List α),
    (∀ a b, less a b → !less b a) → (∀ a b c, less a c → less a b || less b c) → 
      (sortSlice less l).Pairwise fun a b => !less b a

-- Maps are visited in the order of insertion, and sorting is stable.
@[reducible]
def Runtime.stable : Runtime where
  mapOrder _ l := l
  sortSlice less l := l.mergeSort fun a b => !less b a
  mapOrder_perm _ _ := .refl _
  sortSlice_perm _ _ := List.mergeSort_perm ..
  sortSlice_sorted less l ha ht := by
    apply List.pairwise_mergeSort
    case trans => 
      intro a b c hab hbc
      simp only [Bool.not_eq_true'] at hab hbc ⊢
      cases hca : less c a
      case false => rfl
      case true  => simpa [hab, hbc] using ht c b a hca
    case total =>
      intro a b
      cases hba : less b a
      case false => rfl
      case true  => simpa using ha b a hba

section Choice

open Classical

variable {α : Type} {less : α → α → Bool} {l r : List α}

-- One list is sorted in the given way, all others are sorted as above.
@[reducible]
noncomputable def Runtime.choosing (less : α → α → Bool) (l r : List α) (hp : r.Perm l) 
    (hs : r.Pairwise fun a b => !less b a) : Runtime where
  mapOrder _ l := l
  sortSlice less' l' := Function.update 
    (fun x : (α : Type) × (α → α → Bool) × List α => Runtime.stable.sortSlice x.snd.fst x.snd.snd) 
    ⟨α, less, l⟩ r ⟨_, less', l'⟩
  mapOrder_perm _ _ := .refl _
  sortSlice_perm {β} less' l' := by
    by_cases h : (⟨β, less', l'⟩ : (α : Type) × (α → α → Bool) × List α) = ⟨α, less, l⟩
    case pos =>
      cases h
      rwa [Function.update_self]
    case neg =>
      rw [Function.update_of_ne h]
      exact Runtime.stable.sortSlice_perm ..
  sortSlice_sorted {β} less' l' ha ht := by
    by_cases h : (⟨β, less', l'⟩ : (α : Type) × (α → α → Bool) × List α) = ⟨α, less, l⟩
    case pos =>
      cases h
      rwa [Function.update_self]
    case neg =>
      rw [Function.update_of_ne h]
      exact Runtime.stable.sortSlice_sorted _ _ ha ht

-- Sorting may yield each permutation in which no element should come before an earlier one.
theorem exists_sortSlice_eq (hp : r.Perm l) (hs : r.Pairwise fun a b => !less b a) : 
    ∃ R : Runtime, R.sortSlice less l = r :=
  ⟨.choosing less l r hp hs, Function.update_self ..⟩

end Choice

variable [Runtime] {α : Type}

@[simp]
theorem mem_mapOrder {n : Nat} {l : List α} {a : α} : a ∈ Runtime.mapOrder n l ↔ a ∈ l :=
  Runtime.mapOrder_perm n l |>.mem_iff

@[simp]
theorem mem_sortSlice {less : α → α → Bool} {l : List α} {a : α} : 
    a ∈ Runtime.sortSlice less l ↔ a ∈ l :=
  Runtime.sortSlice_perm less l |>.mem_iff

section Rank

-- The comparison is that of a rank, and greater elements come first.
variable {β : Type} [LinearOrder β] {rank : α → β} {less : α → α → Bool} {l : List α} {a b : α}

theorem sortSlice_pairwise (h : ∀ a b, less a b ↔ rank b < rank a) : 
    (Runtime.sortSlice less l).Pairwise fun a b => rank b ≤ rank a := by
  refine Runtime.sortSlice_sorted less l ?_ ?_ |>.imp fun {a b} hn => ?_
  · intro a b hab
    have hn : ¬less b a := fun hba => lt_asymm (h _ _ |>.mp hab) (h _ _ |>.mp hba)
    simpa using hn
  · intro a b c hac
    rw [Bool.or_eq_true, h, h]
    exact (lt_or_ge (rank b) (rank a)).imp_right fun hab => lt_of_lt_of_le (h _ _ |>.mp hac) hab
  · exact le_of_not_gt fun hlt => by simp [h _ _ |>.mpr hlt] at hn

omit [Runtime] in
-- Ties may be broken in favour of any element.
theorem exists_favouring (h : ∀ a b, less a b ↔ rank b < rank a) (a : α) (l : List α) : 
    ∃ R : Runtime, (R.sortSlice less l).Pairwise fun x y => 
      rank y < rank x ∨ rank x = rank y ∧ (x = a ∨ y ≠ a) := by
  classical
  let le (x y : α) : Bool := rank y < rank x ∨ rank x = rank y ∧ (x = a ∨ y ≠ a)
  have hle : (l.mergeSort le).Pairwise fun x y => le x y := by
    apply List.pairwise_mergeSort
    case trans =>
      simp only [le, decide_eq_true_eq]
      rintro x y z (hxy | ⟨hxy, hx⟩) (hyz | ⟨hyz, hy⟩)
      · exact .inl <| hyz.trans hxy
      · exact .inl <| hyz ▸ hxy
      · exact .inl <| hxy ▸ hyz
      · exact .inr ⟨hxy.trans hyz, hx.imp_right hy.resolve_left⟩
    case total =>
      intro x y
      simp only [le, Bool.or_eq_true, decide_eq_true_eq]
      rcases lt_trichotomy (rank x) (rank y) with hlt | heq | hgt
      · exact .inr <| .inl hlt
      · by_cases hx : x = a
        case pos => exact .inl <| .inr ⟨heq, .inl hx⟩
        case neg => exact .inr <| .inr ⟨heq.symm, .inr hx⟩
      · exact .inl <| .inl hgt
  have hless : (l.mergeSort le).Pairwise fun x y => !less y x := by
    refine hle.imp fun {x y} hxy => ?_
    rw [Bool.not_eq_true', ← Bool.not_eq_true, h, not_lt]
    exact (of_decide_eq_true hxy).elim le_of_lt fun he => he.left.ge
  have ⟨R, hR⟩ := exists_sortSlice_eq (List.mergeSort_perm ..) hless
  exact ⟨R, hR ▸ hle.imp of_decide_eq_true⟩

omit [Runtime] in
theorem pair_sublist_or_reverse (ha : a ∈ l) (hb : b ∈ l) (hne : b ≠ a) : 
    [b, a].Sublist l ∨ [b, a].Sublist l.reverse := by
  have ⟨s, t, he⟩ := List.append_of_mem hb
  subst he
  cases List.mem_append.mp ha
  case inl ha =>
    have hs : [a, b].Sublist (s ++ b :: t) := 
      (List.singleton_sublist.mpr ha).append <| List.singleton_sublist.mpr List.mem_cons_self
    exact .inr hs.reverse
  case inr ha =>
    have ha := List.mem_cons.mp ha |>.resolve_left hne.symm
    have hs : [b, a].Sublist (b :: t) := .cons_cons b <| List.singleton_sublist.mpr ha
    exact .inl <| hs.trans <| List.sublist_append_right ..

omit [Runtime] in
-- An element comes first however ties are broken if and only if it is greater than all others.
theorem forall_head_iff (h : ∀ a b, less a b ↔ rank b < rank a) (ha : a ∈ l) : 
    (∀ R : Runtime, ∃ m, R.sortSlice less l = a :: m) ↔ ∀ b ∈ l, b ≠ a → rank b < rank a := by
  constructor
  case mp =>
    intro hs b hb hne
    have ⟨R, hp⟩ := exists_favouring h b l
    have ⟨m, hm⟩ := hs R
    have hb : b ∈ a :: m := hm ▸ mem_sortSlice.mpr hb
    rw [hm, List.pairwise_cons] at hp
    rcases hp.left b <| List.mem_cons.mp hb |>.resolve_left hne with hlt | ⟨_, heq | hnb⟩
    · exact hlt
    · exact absurd heq.symm hne
    · contradiction
  case mpr =>
    intro hs R
    cases hm : R.sortSlice less l
    case nil      => 
      have ha : a ∈ Runtime.sortSlice less l := mem_sortSlice.mpr ha
      simp [hm] at ha
    case cons c m =>
      by_cases hc : c = a
      case pos => exact ⟨m, hc ▸ rfl⟩
      case neg =>
        have hp := sortSlice_pairwise (l := l) h
        have hc' : c ∈ l := (Runtime.sortSlice_perm less l).mem_iff.mp <| hm ▸ List.mem_cons_self
        have ha' : a ∈ c :: m := hm ▸ mem_sortSlice.mpr ha
        have ha' := List.mem_cons.mp ha' |>.resolve_left (Ne.symm hc)
        rw [hm, List.pairwise_cons] at hp
        exact absurd (hs c hc' hc) <| not_lt.mpr <| hp.left a ha'

omit [Runtime] in
-- The first part of a sorted list is a given part of the same length if no element is lost to the other part.
theorem perm_of_le {t d s u : List α} (hp : (t ++ d).Perm (s ++ u)) (hl : t.length = u.length) 
    (hr : ∀ a ∈ t, ∀ b ∈ d, rank b ≤ rank a) (hs : ∀ a ∈ s, ∀ b ∈ u, rank a < rank b ∨ a = b) : t.Perm u := by
  classical
  by_contra hn
  have ⟨a, hat, ha⟩ : ∃ a ∈ t, u.count a < t.count a := by
    by_contra hc
    push Not at hc
    exact hn <| (List.subperm_ext_iff.mpr hc).perm_of_length_le hl.ge
  have ⟨b, hbu, hb⟩ : ∃ b ∈ u, t.count b < u.count b := by
    by_contra hc
    push Not at hc
    exact hn <| ((List.subperm_ext_iff.mpr hc).perm_of_length_le hl.le).symm
  have hc (x : α) : t.count x + d.count x = s.count x + u.count x := by
    rw [← List.count_append, ← List.count_append, hp.count_eq]
  have has : a ∈ s := List.count_pos_iff.mp <| by have := hc a; omega
  have hbd : b ∈ d := List.count_pos_iff.mp <| by have := hc b; omega
  rcases hs a has b hbu with hlt | rfl
  · exact not_le.mpr hlt <| hr a hat b hbd
  · exact lt_asymm ha hb

omit [Runtime] in
-- The last elements come first however ties are broken if and only if each of them is greater than each earlier 
-- element, or the same.
theorem forall_take_perm_iff {k : Nat} (h : ∀ a b, less a b ↔ rank b < rank a) : 
    (∀ R : Runtime, ((R.sortSlice less l).take k).Perm (l.drop (l.length - k))) ↔ 
      ∀ a ∈ l.take (l.length - k), ∀ b ∈ l.drop (l.length - k), rank a < rank b ∨ a = b := by
  have hl : l.take (l.length - k) ++ l.drop (l.length - k) = l := List.take_append_drop ..
  constructor
  case mp =>
    classical
    intro hs a ha b hb
    by_contra hn
    push Not at hn
    have ⟨R, hp⟩ := exists_favouring h a l
    rw [← List.take_append_drop k (R.sortSlice less l), List.pairwise_append] at hp
    -- All copies of `a` come before `b`, and there are more of them than among the last elements.
    have hd : a ∉ (R.sortSlice less l).drop k := by
      intro hd
      rcases hp.right.right b ((hs R).mem_iff.mpr hb) a hd with hlt | ⟨_, he | hne⟩
      · exact not_lt.mpr hn.left hlt
      · exact hn.right he.symm
      · contradiction
    have hc : ((R.sortSlice less l).take k ++ (R.sortSlice less l).drop k).count a = 
        (l.take (l.length - k) ++ l.drop (l.length - k)).count a := by
      rw [List.take_append_drop, hl, (R.sortSlice_perm less l).count_eq]
    rw [List.count_append, List.count_append, List.count_eq_zero.mpr hd, (hs R).count_eq] at hc
    have hpos := List.count_pos_iff.mpr ha
    omega
  case mpr =>
    intro hs R
    have hp : (R.sortSlice less l).Pairwise fun a b => rank b ≤ rank a := sortSlice_pairwise h
    rw [← List.take_append_drop k (R.sortSlice less l), List.pairwise_append] at hp
    refine perm_of_le ?_ ?_ hp.right.right hs
    · rw [List.take_append_drop, hl]
      exact R.sortSlice_perm less l
    · rw [List.length_take, List.length_drop, (R.sortSlice_perm less l).length_eq]
      omega

end Rank
end Go
