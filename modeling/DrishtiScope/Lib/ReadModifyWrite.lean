import DrishtiScope.Lib.Execution
import Mathlib.Logic.Function.Basic

-- Requests that read a shared value in one step and write it in another, so that others may write it in
-- between.
namespace ReadModifyWrite

inductive Access (ι : Type*)
  | read (i : ι)
  | write (i : ι)

inductive Phase (ρ : Type*)
  | ready
  | holding (r : ρ)
  | done

-- What a request sees of the shared value, and what it makes of the value with that. A request that is
-- rejected leaves the value alone.
structure System (ι σ ρ : Type*) where
  view   : σ → ρ
  update : ι → ρ → σ → Option σ

-- The requests that have been accepted are listed in the order of their writes.
structure State (ι σ ρ : Type*) where
  shared   : σ
  phase    : ι → Phase ρ
  accepted : List ι

variable {ι σ ρ : Type*} [DecidableEq ι]

def State.start (s : σ) : State ι σ ρ where
  shared   := s
  phase _  := .ready
  accepted := []

namespace System

variable (sys : System ι σ ρ)

def step (s : State ι σ ρ) : Access ι → State ι σ ρ
  | .read i  =>
    match s.phase i with
    | .ready => { s with phase := Function.update s.phase i (.holding <| sys.view s.shared) }
    | _      => s
  | .write i =>
    match s.phase i with
    | .holding r =>
      match sys.update i r s.shared with
      | some s' => ⟨s', Function.update s.phase i .done, s.accepted ++ [i]⟩
      | none    => { s with phase := Function.update s.phase i .done }
    | _          => s

-- The request without interruption.
def serve (s : σ) (i : ι) : σ :=
  (sys.update i (sys.view s) s).getD s

-- The shared value is what serving the accepted requests one after the other would have led to.
def Serializable (s₀ : σ) (s : State ι σ ρ) : Prop :=
  ∃ is : List ι, is.Perm s.accepted ∧ is.foldl sys.serve s₀ = s.shared

-- A write does what it would have done with a read at the last moment.
def Current (s : State ι σ ρ) : Access ι → Prop
  | .read _  => True
  | .write i => 
    ∀ r, s.phase i = .holding r → sys.update i r s.shared = sys.update i (sys.view s.shared) s.shared

-- Everything that a step does to the shared value.
theorem step_cases (s : State ι σ ρ) (a : Access ι) : 
    (sys.step s a).shared = s.shared ∧ (sys.step s a).accepted = s.accepted ∨ 
    ∃ i r, a = .write i ∧ s.phase i = .holding r ∧ 
      sys.update i r s.shared = some (sys.step s a).shared ∧ 
      (sys.step s a).accepted = s.accepted ++ [i] := by
  cases a <;> rw [step]
  case read i  => cases s.phase i <;> exact .inl ⟨rfl, rfl⟩
  case write i =>
    cases hp : s.phase i
    case ready | done => exact .inl ⟨rfl, rfl⟩
    case holding r    =>
      cases hu : sys.update i r s.shared
      case none   => exact .inl ⟨by simp [hu], by simp [hu]⟩
      case some x => exact .inr ⟨i, r, rfl, hp, by simp [hu], by simp [hu]⟩

variable {sys} {s₀ : σ} {s : State ι σ ρ} {a : Access ι} {as : List (Access ι)}

-- The order of the writes will do.
theorem step_serve (h : s.accepted.foldl sys.serve s₀ = s.shared) (hc : sys.Current s a) : 
    (sys.step s a).accepted.foldl sys.serve s₀ = (sys.step s a).shared := by
  cases sys.step_cases s a
  case inl he =>
    rw [he.left, he.right]
    exact h
  case inr he =>
    have ⟨i, r, ha, hp, hu, hl⟩ := he
    subst ha
    rw [hl, List.foldl_concat, h, serve, ← hc r hp, hu]
    rfl

theorem serializable_of_always (h : Execution.Always sys.step sys.Current (.start s₀) as) : 
    sys.Serializable s₀ (Execution.exec sys.step (.start s₀) as) := by
  refine ⟨_, .refl _, ?_⟩
  exact h.invariant (I := fun s => s.accepted.foldl sys.serve s₀ = s.shared) rfl fun s a => step_serve

end System
end ReadModifyWrite
