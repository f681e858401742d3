import DrishtiScope.Lib.BufferedChannel

-- A bounded queue that counts what it has no room for, together with its history.
structure LossyQueue (α : Type*) where
  channel : BufferedChannel α
  offered : List α
  lost    : Nat
  ordered : channel.sent.Sublist offered
  counted : offered.length = channel.sent.length + lost

namespace LossyQueue

variable {α : Type*} {q : LossyQueue α} {a : α}

def make (capacity : Nat) : LossyQueue α where
  channel := .make capacity
  offered := []
  lost    := 0
  ordered := .refl _
  counted := rfl

def offer (q : LossyQueue α) (a : α) : LossyQueue α where
  channel := q.channel.trySend a
  offered := q.offered ++ [a]
  lost    := if q.channel.HasRoom then q.lost else q.lost + 1
  ordered := BufferedChannel.sent_trySend_sublist.trans <| q.ordered.append_right _
  counted := by
    have hc := q.counted
    split
    case isTrue h  => rw [BufferedChannel.sent_trySend h]; simp only [List.length_append]; omega
    case isFalse h => rw [BufferedChannel.trySend, dif_neg h, List.length_append, hc, Nat.add_assoc]; rfl

-- A receive from a queue that is not empty takes what has been queued first.
def take (q : LossyQueue α) (c : BufferedChannel α) (h : c.sent = q.channel.sent) : LossyQueue α where
  channel := c
  offered := q.offered
  lost    := q.lost
  ordered := h ▸ q.ordered
  counted := h ▸ q.counted

-- Everything that has been offered has been taken, is still queued or has been lost.
theorem length_offered : 
    q.offered.length = q.channel.received.length + q.channel.buffer.length + q.lost := by
  rw [q.counted, BufferedChannel.length_sent]

theorem taken_queued_sublist : (q.channel.received ++ q.channel.buffer).Sublist q.offered :=
  q.channel.fifo ▸ q.ordered

theorem lost_eq_zero_iff : q.lost = 0 ↔ q.channel.received ++ q.channel.buffer = q.offered := by
  rw [← q.channel.fifo]
  have hc := q.counted
  constructor
  case mp  => exact fun h => q.ordered.eq_of_length (by omega)
  case mpr =>
    intro h
    rw [h] at hc
    omega

theorem lost_offer_eq_zero_iff : (q.offer a).lost = 0 ↔ q.lost = 0 ∧ q.channel.HasRoom := by
  simp only [offer]
  split
  case isTrue h  => simp [h]
  case isFalse h => simp [h]

end LossyQueue
