import Mathlib.Data.Finset.Card

-- Counts of what has been started and of what has failed, and the keys under which something that has been 
-- counted is in progress: whatever is in progress can still fail.
namespace Inflight

variable {κ : Type*} {busy : Finset κ} {failed started : Nat} {k : κ}

def Covers (busy : Finset κ) (failed started : Nat) : Prop :=
  failed + busy.card ≤ started

namespace Covers

theorem empty (h : failed ≤ started) : Covers (∅ : Finset κ) failed started :=
  h

theorem le (h : Covers busy failed started) : failed ≤ started :=
  Nat.le_of_add_right_le h

variable [DecidableEq κ]

theorem start (h : Covers busy failed started) : Covers (insert k busy) failed (started + 1) :=
  have hc := Finset.card_insert_le k busy
  (Nat.add_le_add_left hc failed).trans <| Nat.succ_le_succ h

-- What is given up, or has ended well.
theorem leave (h : Covers busy failed started) : Covers (busy.erase k) failed started :=
  have hc := Finset.card_erase_le (s := busy) (a := k)
  (Nat.add_le_add_left hc failed).trans h

theorem fail (h : Covers busy failed started) (hk : k ∈ busy) : 
    Covers (busy.erase k) (failed + 1) started := by
  have hc := Finset.card_erase_add_one hk
  rw [Covers] at h ⊢
  omega

end Covers
end Inflight
