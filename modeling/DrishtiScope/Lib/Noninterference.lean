import DrishtiScope.Lib.Execution

-- Systems whose steps yield an output. An observer who only sees the outputs learns nothing about a
-- part of the state if the steps commute with replacing that part.
namespace Noninterference

variable {σ ι ω π : Type*}

-- A part of the state that can be read and replaced.
structure Part (σ π : Type*) where
  get     : σ → π
  put     : σ → π → σ
  put_get : ∀ s, put s (get s) = s
  get_put : ∀ s p, get (put s p) = p

abbrev next (step : σ → ι → σ × ω) (s : σ) (i : ι) : σ :=
  (step s i).fst

-- What a run yields, one output for each step.
def outputs (step : σ → ι → σ × ω) : σ → List ι → List ω
  | _, []      => []
  | s, i :: is => (step s i).snd :: outputs step (next step s i) is

namespace Part

-- The step neither depends on the part nor changes it.
def Hides (P : Part σ π) (step : σ → ι → σ × ω) (s : σ) (i : ι) : Prop :=
  ∀ p, step (P.put s p) i = (P.put (step s i).fst p, (step s i).snd)

-- The states agree on everything else.
def Agree (P : Part σ π) (s t : σ) : Prop :=
  P.put s (P.get t) = t

variable {P : Part σ π} {step : σ → ι → σ × ω} {s t : σ} {i : ι} {is : List ι}

theorem agree_put {p : π} : P.Agree s (P.put s p) := by
  rw [Agree, P.get_put]

namespace Hides

theorem output_eq (h : P.Hides step s i) (ha : P.Agree s t) : (step t i).snd = (step s i).snd := by
  rw [← ha, h]

-- Replacing the part by itself shows that the step keeps it.
theorem get_eq (h : P.Hides step s i) : P.get (next step s i) = P.get s := by
  have hp := h (P.get s)
  rw [P.put_get] at hp
  rw [next, hp, P.get_put]

theorem next_put (h : P.Hides step s i) {p : π} : 
    next step (P.put s p) i = P.put (next step s i) p := by
  rw [next, h]

theorem agree (h : P.Hides step s i) (ha : P.Agree s t) : 
    P.Agree (next step s i) (next step t i) := by
  rw [← ha, h.next_put]
  exact agree_put

end Hides

-- The same for the steps of a run.
theorem outputs_eq (h : Execution.Always (next step) (P.Hides step) s is) (ha : P.Agree s t) : 
    outputs step t is = outputs step s is := by
  induction is generalizing s t
  case nil          => rfl
  case cons i is hi => 
    rw [outputs, outputs, h.left.output_eq ha, hi h.right (h.left.agree ha)]

theorem get_exec_eq (h : Execution.Always (next step) (P.Hides step) s is) : 
    P.get (Execution.exec (next step) s is) = P.get s := by
  apply h.invariant (I := fun t => P.get t = P.get s) rfl
  exact fun t i ht hi => hi.get_eq.trans ht

end Part
end Noninterference
