import Mathlib.Data.List.Nodup

-- Resources that a program acquires, uses and closes, and the log that it leaves.
namespace Resources

inductive Op (ρ : Type*)
  | acquire (r : ρ)
  | use (r : ρ)
  | close (r : ρ)
  deriving DecidableEq

variable {ρ : Type*} [DecidableEq ρ] {held : List ρ} {ops ops' : List (Op ρ)} {r : ρ} {rs : List ρ}

-- What is open after the operations. Nothing may be acquired while it is open, and only what is open may be
-- used or closed.
def replay : List ρ → List (Op ρ) → Option (List ρ)
  | held, []                => some held
  | held, .acquire r :: ops => if r ∈ held then none else replay (held ++ [r]) ops
  | held, .use r :: ops     => if r ∈ held then replay held ops else none
  | held, .close r :: ops   => if r ∈ held then replay (held.erase r) ops else none

@[simp]
theorem replay_nil : replay held [] = some held := by
  cases held <;> rfl

theorem replay_acquire (h : r ∉ held) : replay held (.acquire r :: ops) = replay (held ++ [r]) ops := by
  rw [replay, if_neg h]

theorem replay_use (h : r ∈ held) : replay held (.use r :: ops) = replay held ops := by
  rw [replay, if_pos h]

theorem replay_uses (h : ∀ r ∈ rs, r ∈ held) : replay held (rs.map .use) = some held := by
  induction rs
  case nil          => exact replay_nil
  case cons r rs hi =>
    rw [List.map_cons, replay_use <| h r List.mem_cons_self]
    exact hi fun r hr => h r <| List.mem_cons_of_mem _ hr

theorem replay_append : replay held (ops ++ ops') = (replay held ops).bind (replay · ops') := by
  induction ops generalizing held
  case nil => simp
  case cons op ops hi =>
    cases op
    case acquire r       =>
      simp only [List.cons_append, replay]
      split
      · rfl
      · exact hi
    case use r | close r =>
      simp only [List.cons_append, replay]
      split
      · exact hi
      · rfl

-- Closing what has been acquired last, in the order in which it is listed.
theorem replay_close (h : (held ++ rs).Nodup) : replay (held ++ rs) (rs.map .close) = some held := by
  induction rs
  case nil          => simp
  case cons r rs hi =>
    have hn := List.nodup_cons.mp <| h.perm List.perm_middle
    have he : (held ++ r :: rs).erase r = held ++ rs := by
      rw [List.erase_append_right _ fun hm => hn.left (by simp [hm]), List.erase_cons_head]
    rw [List.map_cons, replay, if_pos (by simp), he, hi hn.right]

end Resources
