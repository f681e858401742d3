import Mathlib.Data.List.Basic

-- Runs of a system that is given by a step function. An event carries everything the environment
-- decides about the step (which party moves, what it reads), so a run is a list of events.
namespace Execution

variable {σ ε : Type*}

def exec (step : σ → ε → σ) (s : σ) (es : List ε) : σ :=
  es.foldl step s

-- `P` holds of every step of the run: of the state before the step and the event that is handled.
def Always (step : σ → ε → σ) (P : σ → ε → Prop) : σ → List ε → Prop
  | _, []      => True
  | s, e :: es => P s e ∧ Always step P (step s e) es

-- What the steps of a run show, in order.
def outputs {α : Type*} (step : σ → ε → σ) (out : σ → ε → List α) : σ → List ε → List α
  | _, []      => []
  | s, e :: es => out s e ++ outputs step out (step s e) es

variable {step : σ → ε → σ} {P Q : σ → ε → Prop} {I : σ → Prop} {s : σ} {es es₁ es₂ : List ε}

@[simp]
theorem exec_nil : exec step s [] = s :=
  rfl

@[simp]
theorem exec_cons : exec step s (e :: es) = exec step (step s e) es :=
  rfl

theorem exec_append : exec step s (es₁ ++ es₂) = exec step (exec step s es₁) es₂ :=
  List.foldl_append

theorem exec_concat : exec step s (es ++ [e]) = step (exec step s es) e := by
  simp [exec_append]

namespace Always

@[simp]
theorem nil : Always step P s [] :=
  trivial

@[simp]
theorem cons_iff : Always step P s (e :: es) ↔ P s e ∧ Always step P (step s e) es :=
  Iff.rfl

instance decidable [∀ s e, Decidable (P s e)] : (s : σ) → (es : List ε) → 
    Decidable (Always step P s es)
  | _, []      => isTrue trivial
  | s, e :: es => @instDecidableAnd _ _ _ (decidable (step s e) es)

theorem append_iff :
    Always step P s (es₁ ++ es₂) ↔ Always step P s es₁ ∧ Always step P (exec step s es₁) es₂ := by
  induction es₁ generalizing s
  case nil          => simp
  case cons e es hi => simp [hi, and_assoc]

theorem concat_iff : 
    Always step P s (es ++ [e]) ↔ Always step P s es ∧ P (exec step s es) e := by
  simp [append_iff]

theorem mono (h : Always step P s es) (hpq : ∀ s e, P s e → Q s e) : Always step Q s es := by
  induction es generalizing s
  case nil       => trivial
  case cons _ hi => exact ⟨hpq _ _ h.left, hi h.right⟩

theorem and_iff :
    Always step (fun s e => P s e ∧ Q s e) s es ↔ Always step P s es ∧ Always step Q s es := by
  induction es generalizing s
  case nil       => simp
  case cons _ hi => simp [hi]; tauto

-- An invariant that each step of the run keeps holds after the run.
theorem invariant (h : Always step P s es) (hs : I s) 
    (hk : ∀ s e, I s → P s e → I (step s e)) : I (exec step s es) := by
  induction es generalizing s
  case nil       => exact hs
  case cons _ hi => exact hi h.right (hk _ _ hs h.left)

-- What each step grants under an invariant, the run grants.
theorem imp (h : Always step P s es) (hs : I s) (hk : ∀ s e, I s → P s e → I (step s e)) 
    (hpq : ∀ s e, I s → P s e → Q s e) : Always step Q s es := by
  induction es generalizing s
  case nil       => trivial
  case cons _ hi => exact ⟨hpq _ _ hs h.left, hi h.right (hk _ _ hs h.left)⟩

-- Two step conditions that agree wherever the invariant holds have the same runs. 
theorem congr (hs : I s) (hk : ∀ s e, I s → P s e → I (step s e)) 
    (hpq : ∀ s e, I s → (P s e ↔ Q s e)) : Always step P s es ↔ Always step Q s es where
  mp h  := h.imp hs hk fun s e hs => (hpq s e hs).mp
  mpr h := h.imp hs (fun s e hs hq => hk s e hs <| (hpq s e hs).mpr hq) 
    fun s e hs => (hpq s e hs).mpr

-- The same, along a run whose steps meet a further condition.
theorem congr_of {R : σ → ε → Prop} (hr : Always step R s es) (hs : I s) 
    (hk : ∀ s e, I s → R s e → P s e → I (step s e)) 
    (hpq : ∀ s e, I s → R s e → (P s e ↔ Q s e)) : Always step P s es ↔ Always step Q s es := by
  have hc : Always step (fun s e => R s e ∧ P s e) s es ↔ 
      Always step (fun s e => R s e ∧ Q s e) s es := by
    apply congr hs
    case hk  => exact fun s e hs h => hk s e hs h.left h.right
    case hpq => exact fun s e hs => and_congr_right <| hpq s e hs
  simpa only [and_iff, hr, true_and] using hc

end Always

-- What an invariant of all steps grants holds of every step of a run.
theorem Always.of_invariant (hs : I s) (hk : ∀ s e, I s → I (step s e)) 
    (hp : ∀ s e, I s → P s e) : Always step P s es := by
  induction es generalizing s
  case nil       => trivial
  case cons _ hi => exact ⟨hp _ _ hs, hi (hk _ _ hs)⟩

-- What holds of everything that a run shows holds step by step.
theorem forall_mem_outputs {α : Type*} {out : σ → ε → List α} {R : α → Prop} :
    (∀ a ∈ outputs step out s es, R a) ↔ Always step (fun s e => ∀ a ∈ out s e, R a) s es := by
  induction es generalizing s
  case nil          => simp [outputs]
  case cons e es hi => simp [outputs, or_imp, forall_and, hi]

theorem outputs_concat {α : Type*} {out : σ → ε → List α} : 
    outputs step out s (es ++ [e]) = outputs step out s es ++ out (exec step s es) e := by
  induction es generalizing s
  case nil       => simp [outputs]
  case cons _ hi => simp [outputs, hi]

-- A run without a condition on its steps.
theorem invariant (hs : I s) (hk : ∀ s e, I s → I (step s e)) : I (exec step s es) := by
  induction es generalizing s
  case nil       => exact hs
  case cons _ hi => exact hi (hk _ _ hs)

end Execution
