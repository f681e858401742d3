import Mathlib.Data.List.AList
import Mathlib.Tactic.Common

-- A map in which all that is seen is entered under its key, and from which nothing is removed.
namespace Directory

variable {α κ : Type*} [DecidableEq κ] {key : α → κ} {m : AList fun _ : κ => α} {xs : List α} {k : κ} {x : α}

abbrev values (m : AList fun _ : κ => α) : List α :=
  m.entries.map (·.snd)

def enter (key : α → κ) (m : AList fun _ : κ => α) (xs : List α) : AList fun _ : κ => α :=
  xs.foldl (fun m x => m.insert (key x) x) m

theorem enter_append {ys : List α} : enter key m (xs ++ ys) = enter key (enter key m xs) ys :=
  List.foldl_append

-- What is entered last under a key is found there, and any other entry is the one before.
theorem lookup_enter_cases (h : (enter key m xs).lookup k = some x) : 
    (x ∈ xs ∧ key x = k) ∨ (k ∉ xs.map key ∧ m.lookup k = some x) := by
  induction xs generalizing m
  case nil          => exact .inr ⟨List.not_mem_nil, h⟩
  case cons y ys hi =>
    rcases hi (m := m.insert (key y) y) h with ⟨hm, hk⟩ | ⟨hm, hl⟩
    · exact .inl ⟨List.mem_cons_of_mem _ hm, hk⟩
    · by_cases hk : k = key y
      case pos =>
        rw [hk, AList.lookup_insert, Option.some.injEq] at hl
        exact .inl ⟨hl ▸ List.mem_cons_self, hl ▸ hk.symm⟩
      case neg =>
        rw [AList.lookup_insert_ne hk] at hl
        exact .inr ⟨by simp_all, hl⟩

theorem lookup_enter_of_notMem (h : k ∉ xs.map key) : (enter key m xs).lookup k = m.lookup k := by
  induction xs generalizing m
  case nil          => rfl
  case cons y ys hi =>
    rw [List.map_cons, List.mem_cons, not_or] at h
    exact (hi h.right).trans <| AList.lookup_insert_ne h.left

theorem mem_enter_iff : k ∈ enter key m xs ↔ k ∈ xs.map key ∨ k ∈ m := by
  induction xs generalizing m
  case nil          => simp [enter]
  case cons y ys hi =>
    have he : enter key m (y :: ys) = enter key (m.insert (key y) y) ys := rfl
    rw [he, hi, AList.mem_insert, List.map_cons, List.mem_cons, or_left_comm, or_assoc]

theorem exists_lookup_enter (h : k ∈ xs.map key) : 
    ∃ x ∈ xs, key x = k ∧ (enter key m xs).lookup k = some x := by
  have hs := AList.lookup_isSome.mpr <| mem_enter_iff (m := m).mpr <| .inl h
  obtain ⟨x, hx⟩ := Option.isSome_iff_exists.mp hs
  rcases lookup_enter_cases hx with ⟨hm, hk⟩ | ⟨hm, _⟩
  · exact ⟨x, hm, hk, hx⟩
  · contradiction

theorem mem_values_iff : x ∈ values m ↔ ∃ k, m.lookup k = some x := by
  rw [List.mem_map]
  constructor
  case mp =>
    rintro ⟨⟨k, x⟩, he, rfl⟩
    exact ⟨k, AList.mem_lookup_iff.mpr he⟩
  case mpr =>
    rintro ⟨k, hk⟩
    exact ⟨⟨k, x⟩, AList.mem_lookup_iff.mp hk, rfl⟩

-- A condition on any two entries is one on any two keys.
theorem pairwise_values_iff {r : α → α → Prop} (hr : ∀ x y, r x y → r y x) : 
    (values m).Pairwise r ↔ 
      ∀ k k' x y, k ≠ k' → m.lookup k = some x → m.lookup k' = some y → r x y := by
  rw [List.pairwise_map]
  constructor
  case mp =>
    intro h k k' x y hk hx hy
    have hn : (⟨k, x⟩ : Sigma fun _ : κ => α) ≠ ⟨k', y⟩ := fun he => hk <| congrArg Sigma.fst he
    have : Std.Symm fun e e' : Sigma fun _ : κ => α => r e.snd e'.snd := ⟨fun _ _ => hr _ _⟩
    exact h.forall (AList.mem_lookup_iff.mp hx) (AList.mem_lookup_iff.mp hy) hn
  case mpr =>
    intro h
    have hp : m.entries.Pairwise fun e e' => e.fst ≠ e'.fst := List.pairwise_map.mp m.nodupKeys
    refine hp.imp_of_mem fun {e e'} he he' hk => ?_
    exact h _ _ _ _ hk (AList.mem_lookup_iff.mpr he) (AList.mem_lookup_iff.mpr he')

theorem forall_lookup_insert {p : α → Prop} (h : ∀ k, ∀ x ∈ m.lookup k, p x) (hx : p x) : 
    ∀ k', ∀ y ∈ (m.insert k x).lookup k', p y := by
  intro k' y hy
  by_cases hk : k' = k
  case neg => exact h k' y <| by rwa [AList.lookup_insert_ne hk] at hy
  case pos =>
    rw [hk, AList.lookup_insert, Option.mem_some_iff] at hy
    exact hy ▸ hx

theorem forall_lookup_erase {p : α → Prop} (h : ∀ k, ∀ x ∈ m.lookup k, p x) : 
    ∀ k', ∀ y ∈ (m.erase k).lookup k', p y := by
  intro k' y hy
  by_cases hk : k' = k
  case neg => exact h k' y <| by rwa [AList.lookup_erase_ne hk] at hy
  case pos =>
    rw [hk, AList.lookup_erase] at hy
    contradiction

theorem countP_values_insert {p : α → Bool} (h : k ∉ m) : 
    (values <| m.insert k x).countP p = (values m).countP p + if p x then 1 else 0 := by
  rw [values, AList.entries_insert_of_notMem h, List.map_cons, List.countP_cons]

theorem countP_values_erase {p : α → Bool} (h : m.lookup k = some x) : 
    (values m).countP p = (values <| m.erase k).countP p + if p x then 1 else 0 := by
  have hk : k ∈ m.entries.keys := AList.mem_keys.mp <| AList.lookup_isSome.mp <| by simp [h]
  obtain ⟨y, l₁, l₂, _, hm, he⟩ := List.exists_of_kerase hk
  have hy : y = x := by
    have hl : ⟨k, y⟩ ∈ m.entries := hm ▸ by simp
    exact Option.some.inj <| (AList.mem_lookup_iff.mpr hl).symm.trans h
  have he : (m.erase k).entries = l₁ ++ l₂ := he
  simp only [values, he, hm, hy, List.map_append, List.map_cons, List.countP_append, List.countP_cons]
  omega

end Directory
