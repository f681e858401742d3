import DrishtiScope.Lib.Execution
import Mathlib.Data.List.Infix

-- A channel with a buffer of bounded capacity, together with its history. Values come out in the
-- order in which they were accepted.
structure BufferedChannel (α : Type*) where
  capacity : Nat
  buffer   : List α
  sent     : List α
  received : List α
  fifo     : sent = received ++ buffer
  bounded  : buffer.length ≤ capacity

namespace BufferedChannel

variable {α : Type*} {c c' : BufferedChannel α} {a b : α} {l : List α}

def make (capacity : Nat) : BufferedChannel α where
  capacity := capacity
  buffer   := []
  sent     := []
  received := []
  fifo     := rfl
  bounded  := Nat.zero_le _

def HasRoom (c : BufferedChannel α) : Prop :=
  c.buffer.length < c.capacity

instance : Decidable c.HasRoom :=
  inferInstanceAs (Decidable (_ < _))

-- A send that gives up if the buffer is full.
def trySend (c : BufferedChannel α) (a : α) : BufferedChannel α :=
  if h : c.HasRoom then
    { c with
      buffer  := c.buffer ++ [a]
      sent    := c.sent ++ [a]
      fifo    := by rw [c.fifo, List.append_assoc]
      bounded := by rw [List.length_append]; exact h
    }
  else
    c

-- A receive. It is not possible if the buffer is empty.
def tryReceive (c : BufferedChannel α) : Option (α × BufferedChannel α) :=
  match h : c.buffer with
  | []     => none
  | a :: l => some (a, { c with
      buffer   := l
      received := c.received ++ [a]
      fifo     := by rw [c.fifo, h, List.append_assoc, List.singleton_append]
      bounded  := by have := c.bounded; simp only [h, List.length_cons] at this; omega
    })

@[simp]
theorem received_trySend : (c.trySend a).received = c.received := by
  simp only [trySend]
  split <;> rfl

theorem sent_trySend (h : c.HasRoom) : (c.trySend a).sent = c.sent ++ [a] := by
  rw [trySend, dif_pos h]

theorem sent_trySend_sublist : (c.trySend a).sent.Sublist (c.sent ++ [a]) := by
  simp only [trySend]
  split
  case isTrue  => exact .refl _
  case isFalse => exact List.sublist_append_left ..

-- A value is only given up if the buffer is full.
theorem full_of_sent_trySend_ne (h : (c.trySend a).sent ≠ c.sent ++ [a]) :
    c.buffer.length = c.capacity := by
  by_contra hf
  exact h <| sent_trySend <| Nat.lt_of_le_of_ne c.bounded hf

@[simp]
theorem capacity_trySend : (c.trySend a).capacity = c.capacity := by
  simp only [trySend]
  split <;> rfl

theorem sent_prefix_trySend : c.sent <+: (c.trySend a).sent := by
  simp only [trySend]
  split
  case isTrue  => exact List.prefix_append ..
  case isFalse => exact List.prefix_rfl

theorem tryReceive_eq_some (h : c.tryReceive = some (a, c')) : 
    c.buffer = a :: c'.buffer ∧ c'.sent = c.sent ∧ c'.received = c.received ++ [a] := by
  simp only [tryReceive] at h
  split at h
  case h_1 => contradiction
  case h_2 hb =>
    simp only [Option.some_inj, Prod.mk.injEq] at h
    have ⟨ha, hc⟩ := h
    subst ha hc
    exact ⟨hb, rfl, rfl⟩

theorem capacity_tryReceive (h : c.tryReceive = some (a, c')) : c'.capacity = c.capacity := by
  simp only [tryReceive] at h
  split at h
  case h_1 => contradiction
  case h_2 =>
    simp only [Option.some_inj, Prod.mk.injEq] at h
    rw [← h.right]

theorem tryReceive_of_cons (h : c.buffer = a :: l) : ∃ c', c.tryReceive = some (a, c') ∧ c'.buffer = l := by
  cases hr : c.tryReceive
  case none =>
    simp only [tryReceive] at hr
    split at hr
    case h_1 hb => rw [h] at hb; contradiction
    case h_2    => contradiction
  case some r =>
    have ⟨a', c'⟩ := r
    have hb := (tryReceive_eq_some hr).left
    rw [h] at hb
    cases hb
    exact ⟨c', rfl, rfl⟩

theorem received_prefix_sent : c.received <+: c.sent :=
  c.fifo ▸ List.prefix_append ..

theorem length_sent : c.sent.length = c.received.length + c.buffer.length := by
  rw [c.fifo, List.length_append]

-- Of what was accepted first, nothing is left in the buffer if and only if it has been received.
theorem prefix_received_iff (h : l <+: c.sent) : 
    l <+: c.received ↔ l.length + c.buffer.length ≤ c.sent.length := by
  rw [length_sent, Nat.add_le_add_iff_right]
  exact ⟨List.IsPrefix.length_le, List.prefix_of_prefix_length_le h received_prefix_sent⟩

-- In a step a channel stays as it is, a value that is submitted is sent to it, or one is received.
inductive Moves (c : BufferedChannel α) : Option α → BufferedChannel α → Prop
  | stay (submitted : Option α) : Moves c submitted c
  | send (a : α) : Moves c (some a) (c.trySend a)
  | receive (submitted : Option α) {a : α} {c' : BufferedChannel α} : 
      c.tryReceive = some (a, c') → Moves c submitted c'

namespace Moves

variable {submitted : Option α}

theorem sent_sublist (h : c.Moves submitted c') : c'.sent.Sublist (c.sent ++ submitted.toList) := by
  cases h
  case stay       => exact List.sublist_append_left ..
  case send       => exact sent_trySend_sublist
  case receive hr =>
    rw [(tryReceive_eq_some hr).right.left]
    exact List.sublist_append_left ..

theorem capacity (h : c.Moves submitted c') : c'.capacity = c.capacity := by
  cases h
  case stay       => rfl
  case send       => exact capacity_trySend
  case receive hr => exact capacity_tryReceive hr

-- What a channel has accepted in a run has been submitted in this order.
theorem sent_exec {σ ε : Type*} {step : σ → ε → σ} {submitted : ε → Option α} {s : σ} 
    {es : List ε} (chan : σ → BufferedChannel α) 
    (h : ∀ s e, (chan s).Moves (submitted e) (chan (step s e))) : 
    (chan (Execution.exec step s es)).sent.Sublist ((chan s).sent ++ es.filterMap submitted) := by
  induction es using List.reverseRecOn
  case nil => exact List.sublist_append_left ..
  case append_singleton es e hi =>
    have he : [e].filterMap submitted = (submitted e).toList := by cases hs : submitted e <;> simp [hs]
    rw [Execution.exec_concat, List.filterMap_append, he, ← List.append_assoc]
    exact (h _ e).sent_sublist.trans <| hi.append_right _

end Moves
end BufferedChannel
