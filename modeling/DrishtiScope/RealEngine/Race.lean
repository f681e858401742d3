import DrishtiScope.Api.Target
import DrishtiScope.RealEngine.Scan

open Go Linux ReadModifyWrite

-- The collector and the handler of POST /api/target run side by side, and each of them reads the target
-- some time before it writes it.
namespace RealEngine.Race

section Run

variable [Unicode] [Runtime] [Zone] {ι : Type*} [DecidableEq ι]

-- The collector holds the target that it has read in the tick at hand. The books keep the comm that the
-- last successful request has installed.
structure State (ι : Type*) where
  engine    : Engine
  collector : Option (Int × Bytes)
  api       : ReadModifyWrite.State ι Config (Int × Bytes)
  last      : Option Bytes

def start (e : Engine) (cfg : Config) : State ι where
  engine    := e
  collector := none
  api       := .start cfg
  last      := none

-- A tick is a read of the target and, when /proc has been scanned, perhaps a write.
inductive Action (ι : Type*)
  | tick
  | finish (t : Tick)
  | request (a : Access ι)

variable (request : ι → Api.TargetRequest)

def step (s : State ι) : Action ι → State ι
  | .tick      => { s with collector := s.collector.or (some s.api.shared.target) }
  | .finish t  =>
    match s.collector with
    | none        => s
    | some target =>
      let c := collectFrom (advance s.engine) target s.api.shared t
      { s with engine := c.engine, collector := none, api := { s.api with shared := c.cfg } }
  | .request a =>
    let api := (Api.targetSystem request).step s.api a
    { s with
      api  := api
      last := if api.accepted = s.api.accepted then s.last else some api.shared.targetComm
    }

def installs (cfg : Config) (targetPid : Int) (c : Bytes) (pid : Int) : Bool :=
  targetPid ≤ 0 && 0 < pid && (cfg.setTarget pid c).toOption.isSome

-- The pid that a step installs because it has been detected, and the comm it has been detected for.
def installed (s : State ι) : Action ι → Option (Int × Bytes)
  | .finish t => 
    match s.collector with
    | none                   => none
    | some (targetPid, comm) =>
      let c := targetComm comm
      let pid := (scanAllProcesses (advance s.engine) t targetPid c).autoDetectedPID
      if installs s.api.shared targetPid c pid then some (pid, c) else none
  | _         => none

-- The user's choice of the comm stays in force.
structure Respects (s : State ι) (a : Action ι) : Prop where
  comm : ∀ c, (step request s a).last = some c → (step request s a).api.shared.targetComm = c
  pid  : ∀ pid c c', installed s a = some (pid, c) → s.last = some c' → c = c'

-- If the user has made a choice, a pid is only installed if the comm it has been detected for is the one
-- that is in the configuration at that moment.
def Undisturbed (s : State ι) (a : Action ι) : Prop :=
  ∀ pid c, installed s a = some (pid, c) → s.last = none ∨ c = s.api.shared.targetComm

structure Invariant (s : State ι) : Prop where
  cfg       : s.api.shared.WellFormed
  collector : ∀ pid comm, s.collector = some (pid, comm) → Config.Sanitized comm
  last      : ∀ c, s.last = some c → s.api.shared.targetComm = c

variable {s : State ι} {a : Action ι} {as : List (Action ι)} {t : Tick} 
         {e : Engine} {cfg : Config} {pid : Int} {c : Bytes}

-- Everything that a request does.
theorem step_request (s : State ι) (b : Access ι) : 
    (step request s (.request b)).api.shared = s.api.shared ∧ 
      (step request s (.request b)).last = s.last ∨ 
    (∃ pid comm, s.api.shared.setTarget pid comm = .ok (step request s (.request b)).api.shared) ∧ 
      (step request s (.request b)).last = some (step request s (.request b)).api.shared.targetComm := by
  cases (Api.targetSystem request).step_cases s.api b
  case inl he => exact .inl ⟨he.left, by simp [step, he.right]⟩
  case inr he =>
    have ⟨i, r, _, _, hu, hl⟩ := he
    exact .inr ⟨⟨_, _, Config.toOption_setTarget.mp hu⟩, by simp [step, hl]⟩

variable {request}

omit [Runtime] [Zone] in
theorem installDetected_eq {targetPid : Int} : 
    installDetected cfg targetPid c pid = 
      if installs cfg targetPid c pid then 
        { cfg with targetPid := pid, targetComm := Config.installComm cfg.targetComm c } 
      else 
        cfg := by
  by_cases hp : targetPid ≤ 0 ∧ 0 < pid
  case neg => simp [installDetected, installs, hp]
  case pos =>
    rw [installDetected, if_pos hp, installs]
    cases hs : cfg.setTarget pid c
    case error => simp [Except.toOption]
    case ok    => simp [Except.toOption, hp, Config.setTarget_ok_iff.mp hs]

-- Everything that the end of a tick does to the configuration.
theorem finish_cfg : 
    (step request s (.finish t)).api.shared = 
      match installed s (.finish t) with
      | none          => s.api.shared
      | some (pid, c) => 
        { s.api.shared with 
          targetPid  := pid
          targetComm := Config.installComm s.api.shared.targetComm c
        } := by
  cases hc : s.collector
  case none        => simp [step, installed, hc]
  case some target =>
    have (targetPid, comm) := target
    simp only [step, installed, hc, collectFrom_eq, installDetected_eq]
    split <;> rfl

namespace Invariant

omit [Runtime] [Zone] [DecidableEq ι] in
theorem start (h : cfg.Reachable) : Invariant (start e cfg : State ι) where
  cfg       := h.wellFormed
  collector := by simp [Race.start]
  last      := by simp [Race.start]

omit [Zone] [DecidableEq ι] in
-- A pid that is installed brings the comm along that it has been detected for.
theorem installComm_eq {old : Bytes} (h : Invariant s) (hi : installed s a = some (pid, c)) : 
    Config.installComm old c = c := by
  cases a <;> try contradiction
  case finish t =>
    cases hc : s.collector
    case none        => simp [installed, hc] at hi
    case some target =>
      have (targetPid, comm) := target
      have hs := h.collector _ _ hc
      simp only [installed, hc] at hi
      split at hi <;> try contradiction
      case _ hp =>
        have hc := (Prod.mk.inj <| Option.some.inj hi).right
        subst hc
        have ⟨cfg', ha⟩ := Option.isSome_iff_exists.mp <| Bool.and_eq_true_iff.mp hp |>.right
        have hn := Config.setTarget_ok_iff.mp (Config.toOption_setTarget.mp ha) |>.right |>.left
        rw [Config.installComm, if_neg targetComm_ne_nil]
        exact sanitized_targetComm hs |>.sanitizeComm_eq.resolve_right <| hn targetComm_ne_nil

theorem last_finish : (step request s (.finish t)).last = s.last := by
  rw [step]
  split <;> rfl

theorem respects_of_not_installed (h : Invariant s) (hi : installed s a = none) : 
    Respects request s a where
  pid  := by simp [hi]
  comm := by
    intro c hl
    cases a
    case tick      => exact h.last c hl
    case request b =>
      cases step_request request s b
      case inl he => exact he.left ▸ h.last c (he.right ▸ hl)
      case inr he => exact Option.some.inj <| he.right.symm.trans hl
    case finish t  =>
      rw [last_finish] at hl
      rw [finish_cfg, hi]
      exact h.last c hl

theorem respects_iff_of_installed (h : Invariant s) (hi : installed s a = some (pid, c)) : 
    Respects request s a ↔ s.last = none ∨ c = s.api.shared.targetComm := by
  cases a <;> try contradiction
  case finish t =>
    have hc : (step request s (.finish t)).api.shared.targetComm = c := by
      rw [finish_cfg, hi]
      exact h.installComm_eq hi
    constructor
    case mp =>
      intro hr
      cases hs : s.last
      case none    => exact .inl rfl
      case some c' => exact .inr <| (hr.pid _ _ _ hi hs).trans (h.last _ hs).symm
    case mpr =>
      intro hu
      have hc' : ∀ c', s.last = some c' → c = c' := by
        intro c' hs
        cases hu
        case inl hn => simp [hn] at hs
        case inr he => exact he.trans (h.last _ hs)
      constructor
      case comm => 
        intro c' hs
        rw [last_finish] at hs
        exact hc.trans <| hc' _ hs
      case pid  =>
        rintro _ _ c' he hs
        cases hi.symm.trans he
        exact hc' _ hs

theorem respects_iff (h : Invariant s) : Respects request s a ↔ Undisturbed s a := by
  cases hi : installed s a
  case none   => simp [h.respects_of_not_installed hi, Undisturbed, hi]
  case some x =>
    have (pid, c) := x
    simp [h.respects_iff_of_installed hi, Undisturbed, hi]

omit [Runtime] [Zone] in
theorem wellFormed_installDetected {targetPid : Int} (w : cfg.WellFormed) : 
    (installDetected cfg targetPid c pid).WellFormed := by
  rw [installDetected]
  split <;> try exact w
  cases hs : cfg.setTarget pid c
  case error => exact w
  case ok    => exact w.setTarget hs

theorem step (h : Invariant s) (hr : Respects request s a) : Invariant (step request s a) where
  last      := hr.comm
  cfg       := by
    cases a
    case tick      => exact h.cfg
    case request b =>
      cases step_request request s b
      case inl he => exact he.left ▸ h.cfg
      case inr he => 
        have ⟨⟨_, _, hs⟩, _⟩ := he
        exact h.cfg.setTarget hs
    case finish t  =>
      rw [Race.step]
      split
      case _ => exact h.cfg
      case _ => exact wellFormed_installDetected h.cfg
  collector := by
    intro pid comm hc
    cases a
    case request b => exact h.collector pid comm hc
    case tick      =>
      cases Option.or_eq_some_iff.mp hc
      case inl hc => exact h.collector pid comm hc
      case inr hc => exact (Prod.mk.inj <| Option.some.inj hc.right).right ▸ h.cfg.comm
    case finish t  =>
      rw [Race.step] at hc
      split at hc
      case _ hn => simp [hn] at hc
      case _    => contradiction

end Invariant

-- The user's choice stays in force over a run if and only if no detected pid is written over a newer
-- choice.
theorem always_respects_iff (hr : cfg.Reachable) : 
    Execution.Always (step request) (Respects request) (start e cfg) as ↔ 
      Execution.Always (step request) Undisturbed (start e cfg) as := by
  apply Execution.Always.congr (Invariant.start hr)
  case hk  => exact fun s a h => h.step
  case hpq => exact fun s a h => h.respects_iff

end Run

section Overwritten

attribute [local instance] Unicode.ascii Runtime.stable Zone.utcEpoch

def agy : Config :=
  Config.loadTarget 0 (str "agy")

def running : Tick where
  now  := Time.epoch
  wall := Time.epoch
  fs   := { 
    processes := [.single 21 (.ofBytes <| str "agy") none (by decide)]
    nodup     := List.nodup_singleton _ 
  }

def codex (_ : Unit) : Api.TargetRequest :=
  ⟨none, some <| str "codex"⟩

-- The request is served during a scan.
def duringScan : List (Action Unit) :=
  [.tick, .request (.read ()), .request (.write ()), .finish running]

-- The scan restores the comm that the user has replaced.
theorem not_always_respects_duringScan : 
    ¬(agy.Reachable → Execution.Always (step codex) (Respects codex) 
      (start (newEngine Time.epoch) agy) duringScan) := by
  intro h
  have ⟨_, _, _, hr, _⟩ := h (.load _)
  have hc := hr.comm (str "codex") rfl
  exact absurd hc (by decide)

theorem always_respects_iff_duringScan : 
    Execution.Always (step codex) (Respects codex) (start (newEngine Time.epoch) agy) duringScan ↔ 
      Execution.Always (step codex) Undisturbed (start (newEngine Time.epoch) agy) duringScan :=
  always_respects_iff (.load _)

end Overwritten
end RealEngine.Race
