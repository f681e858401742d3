import Mathlib.Data.Finset.Card
import Mathlib.Data.List.AList
import Mathlib.Tactic.Common

-- A hash table of fixed capacity: a new key is refused while the table is full.
structure BoundedMap (κ ν : Type*) [DecidableEq κ] (cap : Nat) where
  table   : AList fun _ : κ => ν
  bounded : table.entries.length ≤ cap

namespace BoundedMap

variable {κ ν : Type*} [DecidableEq κ] {cap : Nat}

def lookup (m : BoundedMap κ ν cap) (k : κ) : Option ν :=
  m.table.lookup k

def keys (m : BoundedMap κ ν cap) : List κ :=
  m.table.keys

def toList (m : BoundedMap κ ν cap) : List (κ × ν) :=
  m.table.entries.map fun e => (e.fst, e.snd)

instance : Membership κ (BoundedMap κ ν cap) where
  mem m k := k ∈ m.table

instance {m : BoundedMap κ ν cap} {k : κ} : Decidable (k ∈ m) :=
  inferInstanceAs <| Decidable (k ∈ m.table)

instance : EmptyCollection (BoundedMap κ ν cap) where
  emptyCollection := { table := ∅, bounded := by simp }

-- There is room for the key.
def Room (m : BoundedMap κ ν cap) (k : κ) : Prop :=
  k ∈ m ∨ m.table.entries.length < cap

instance {m : BoundedMap κ ν cap} {k : κ} : Decidable (m.Room k) :=
  inferInstanceAs <| Decidable (_ ∨ _)

theorem length_insert {m : BoundedMap κ ν cap} {k : κ} {v : ν} (h : m.Room k) : 
    (m.table.insert k v).entries.length ≤ cap := by
  have he : (m.table.insert k v).entries.length = (k :: m.table.keys.erase k).length := by
    rw [← AList.keys_insert, AList.keys, List.keys, List.length_map]
  have hk : m.table.keys.length = m.table.entries.length := by
    simp [AList.keys, List.keys]
  have hb := m.bounded
  rw [he, List.length_cons, List.length_erase]
  cases h
  case inl h =>
    have hp := List.length_pos_of_mem (AList.mem_keys.mp h)
    rw [if_pos (AList.mem_keys.mp h)]
    omega
  case inr h =>
    split <;> omega

-- Sets the value of a key, or fails where there is no room for it.
def insert? (m : BoundedMap κ ν cap) (k : κ) (v : ν) : Option (BoundedMap κ ν cap) :=
  if h : m.Room k then
    some { table := m.table.insert k v, bounded := length_insert h }
  else
    none

-- Sets the value of a key for a caller who ignores the failure.
def insert (m : BoundedMap κ ν cap) (k : κ) (v : ν) : BoundedMap κ ν cap :=
  (m.insert? k v).getD m

-- Adds a key that is not in the table yet.
def insertNew (m : BoundedMap κ ν cap) (k : κ) (v : ν) : BoundedMap κ ν cap :=
  if k ∈ m then m else m.insert k v

def erase (m : BoundedMap κ ν cap) (k : κ) : BoundedMap κ ν cap where
  table   := m.table.erase k
  bounded := by
    have he : (m.table.erase k).entries.length = (m.table.keys.erase k).length := by
      rw [← AList.keys_erase, AList.keys, List.keys, List.length_map]
    have hk : m.table.keys.length = m.table.entries.length := by
      simp [AList.keys, List.keys]
    have hb := m.bounded
    have hl := List.length_erase_le (a := k) (l := m.table.keys)
    omega

-- Changes the value of a key in place.
def modify (m : BoundedMap κ ν cap) (k : κ) (f : ν → ν) : BoundedMap κ ν cap :=
  match m.lookup k with
  | some v => m.insert k (f v)
  | none   => m

variable {m : BoundedMap κ ν cap} {k k' : κ} {v : ν} {f : ν → ν}

theorem mem_iff_isSome : k ∈ m ↔ (m.lookup k).isSome :=
  AList.lookup_isSome.symm

theorem mem_keys : k ∈ m.keys ↔ k ∈ m :=
  AList.mem_keys.symm

theorem keys_nodup : m.keys.Nodup :=
  m.table.keys_nodup

theorem not_mem_iff : k ∉ m ↔ m.lookup k = none :=
  AList.lookup_eq_none.symm

theorem mem_of_lookup (h : m.lookup k = some v) : k ∈ m :=
  mem_iff_isSome.mpr <| by simp [h]

theorem Room.of_mem (h : k ∈ m) : m.Room k :=
  .inl h

@[simp]
theorem not_mem_empty : k ∉ (∅ : BoundedMap κ ν cap) :=
  AList.notMem_empty k

@[simp]
theorem lookup_empty : (∅ : BoundedMap κ ν cap).lookup k = none :=
  AList.lookup_empty k

theorem insert_eq_self (h : ¬m.Room k) : m.insert k v = m := by
  simp [insert, insert?, h]

theorem insert_table (h : m.Room k) : (m.insert k v).table = m.table.insert k v := by
  simp [insert, insert?, h]

@[simp]
theorem lookup_insert_ne (h : k' ≠ k) : (m.insert k v).lookup k' = m.lookup k' := by
  by_cases hr : m.Room k
  case pos => rw [lookup, insert_table hr, AList.lookup_insert_ne h, lookup]
  case neg => rw [insert_eq_self hr]

theorem lookup_insert (h : m.Room k) : (m.insert k v).lookup k = some v := by
  rw [lookup, insert_table h, AList.lookup_insert]

theorem mem_insert (h : m.Room k) : k' ∈ m.insert k v ↔ k' = k ∨ k' ∈ m := by
  change k' ∈ (m.insert k v).table ↔ _
  rw [insert_table h, AList.mem_insert]
  rfl

@[simp]
theorem lookup_erase : (m.erase k).lookup k = none :=
  AList.lookup_erase k m.table

@[simp]
theorem lookup_erase_ne (h : k' ≠ k) : (m.erase k).lookup k' = m.lookup k' :=
  AList.lookup_erase_ne h

theorem mem_erase : k' ∈ m.erase k ↔ k' ≠ k ∧ k' ∈ m :=
  AList.mem_erase

theorem not_mem_erase : k ∉ m.erase k :=
  fun h => mem_erase.mp h |>.left rfl

theorem lookup_insertNew (h : m.Room k) : 
    (m.insertNew k v).lookup k = some ((m.lookup k).getD v) := by
  simp only [insertNew]
  split
  case isTrue hm =>
    have ⟨w, hw⟩ := Option.isSome_iff_exists.mp <| mem_iff_isSome.mp hm
    simp [hw]
  case isFalse hm => rw [lookup_insert h, not_mem_iff.mp hm, Option.getD_none]

theorem lookup_insertNew_ne (h : k' ≠ k) : (m.insertNew k v).lookup k' = m.lookup k' := by
  simp only [insertNew]
  split
  · rfl
  · exact lookup_insert_ne h

theorem insertNew_eq_self (h : ¬m.Room k) : m.insertNew k v = m := by
  simp only [insertNew]
  split
  · rfl
  · exact insert_eq_self h

@[simp]
theorem lookup_modify : (m.modify k f).lookup k = (m.lookup k).map f := by
  simp only [modify]
  split
  case h_1 w hw => rw [lookup_insert (.of_mem <| mem_of_lookup hw), hw, Option.map_some]
  case h_2 hn   => rw [hn, Option.map_none]

@[simp]
theorem lookup_modify_ne (h : k' ≠ k) : (m.modify k f).lookup k' = m.lookup k' := by
  simp only [modify]
  split
  · exact lookup_insert_ne h
  · rfl

-- Inserting keys one after the other, with every insertion finding room.
def AllRoom (m : BoundedMap κ ν cap) (v : ν) : List κ → Prop
  | []      => True
  | k :: ks => m.Room k ∧ AllRoom (m.insert k v) v ks

instance AllRoom.decidable : (m : BoundedMap κ ν cap) → (ks : List κ) → Decidable (m.AllRoom v ks)
  | _, []      => isTrue trivial
  | m, k :: ks => @instDecidableAnd _ _ _ (decidable (m.insert k v) ks)

theorem mem_foldl_insert {ks : List κ} (h : m.AllRoom v ks) : 
    k' ∈ ks.foldl (fun m k => m.insert k v) m ↔ k' ∈ ks ∨ k' ∈ m := by
  induction ks generalizing m
  case nil => simp
  case cons k ks hi =>
    rw [List.foldl_cons, hi h.right, mem_insert h.left, List.mem_cons]
    tauto

theorem card_keys : m.keys.toFinset.card = m.table.entries.length := by
  rw [List.toFinset_card_of_nodup keys_nodup]
  simp [keys, AList.keys, List.keys]

theorem card_keys_le : m.keys.toFinset.card ≤ cap :=
  card_keys.trans_le m.bounded

variable (v) in
theorem toFinset_keys_insert (h : m.Room k) : 
    (m.insert k v).keys.toFinset = Insert.insert k m.keys.toFinset := by
  ext k'
  simp [mem_keys, mem_insert h]

theorem room_iff : m.Room k ↔ (Insert.insert k m.keys.toFinset).card ≤ cap := by
  by_cases hk : k ∈ m
  case pos =>
    rw [Finset.insert_eq_of_mem (by simpa [mem_keys] using hk)]
    exact iff_of_true (.inl hk) card_keys_le
  case neg =>
    rw [Finset.card_insert_of_notMem (by simpa [mem_keys] using hk), card_keys]
    exact or_iff_right hk

-- No insertion is refused if and only if the old keys and the new ones fit together.
theorem allRoom_iff {ks : List κ} : 
    m.AllRoom v ks ↔ (m.keys.toFinset ∪ ks.toFinset).card ≤ cap := by
  induction ks generalizing m
  case nil          => simp [AllRoom, card_keys_le]
  case cons k ks hi =>
    rw [AllRoom, hi, List.toFinset_cons, Finset.union_insert, ← Finset.insert_union]
    constructor
    case mp  => exact fun h => toFinset_keys_insert v h.left ▸ h.right
    case mpr =>
      intro h
      have hr : m.Room k := room_iff.mpr <| (Finset.card_le_card Finset.subset_union_left).trans h
      exact ⟨hr, toFinset_keys_insert v hr ▸ h⟩

theorem mem_insert_of_mem (h : k' ∈ m) : k' ∈ m.insert k v := by
  by_cases hr : m.Room k
  case pos => exact mem_insert hr |>.mpr <| .inr h
  case neg => rwa [insert_eq_self hr]

theorem mem_foldl_insert_of_mem {ks : List κ} (h : k ∈ m) : 
    k ∈ ks.foldl (fun m k => m.insert k v) m := by
  induction ks generalizing m
  case nil          => exact h
  case cons k ks hi => exact hi <| mem_insert_of_mem h

-- If all keys are in the table afterwards, then no insertion has been refused.
theorem allRoom_of_forall_mem {ks : List κ} 
    (h : ∀ k ∈ ks, k ∈ ks.foldl (fun m k => m.insert k v) m) : m.AllRoom v ks := by
  let m' := ks.foldl (fun m k => m.insert k v) m
  have hs : m.keys.toFinset ∪ ks.toFinset ⊆ m'.keys.toFinset := by
    intro k hk
    simp only [Finset.mem_union, List.mem_toFinset, mem_keys] at hk ⊢
    exact hk.elim mem_foldl_insert_of_mem (h k)
  exact allRoom_iff.mpr <| (Finset.card_le_card hs).trans card_keys_le

theorem mem_foldl_erase {ks : List κ} : 
    k' ∈ ks.foldl (fun m k => m.erase k) m ↔ k' ∉ ks ∧ k' ∈ m := by
  induction ks generalizing m
  case nil => simp
  case cons k ks hi =>
    rw [List.foldl_cons, hi, mem_erase, List.mem_cons]
    tauto

end BoundedMap
