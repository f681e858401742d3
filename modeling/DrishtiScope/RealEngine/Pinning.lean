import DrishtiScope.Lib.Execution
import DrishtiScope.RealEngine.Scan

open Go Linux

-- The engine writes the pid that it has detected back to the configuration, where it stays.
namespace RealEngine.Pinning

section Run

variable [Unicode] [Runtime] [Zone]

structure State where
  engine : Engine
  cfg    : Config

def step (s : State) (t : Tick) : State :=
  let c := onTick s.engine s.cfg t
  ⟨c.engine, c.cfg⟩

-- If a process matches, one that does is reported.
def Follows (c : Bytes) (s : State) (t : Tick) : Prop :=
  (∃ p ∈ t.fs.processes, matchesTarget c p) → 
    ∃ p ∈ t.fs.processes, matchesTarget c p ∧ (onTick s.engine s.cfg t).snapshot.info.target.pid = p.pid

-- The process that is detected first is alive and matches whenever another one does.
def Outlives (c : Bytes) : Option Int → List Tick → Prop
  | _, []             => True
  | none, t :: ts     => Outlives c (detect t.fs c) ts
  | some pid, t :: ts => 
    ((∃ p ∈ t.fs.processes, matchesTarget c p) → ∃ p ∈ t.fs.processes, matchesTarget c p ∧ pid = p.pid) ∧ 
    Outlives c (some pid) ts

-- The pid that has been pinned so far.
structure Pinned (c : Bytes) (pin : Option Int) (s : State) : Prop where
  comm : targetComm s.cfg.targetComm = c
  free : pin = none → s.cfg.targetPid ≤ 0
  pid  : ∀ x, pin = some x → 0 < x ∧ s.cfg.targetPid = x

variable {s : State} {t : Tick} {c comm : Bytes} {cfg : Config} {x : Int} {pin : Option Int} {e : Engine} 
         {ts : List Tick}

theorem follows_iff (hc : targetComm s.cfg.targetComm = c) : 
    Follows c s t ↔ ((∃ p ∈ t.fs.processes, matchesTarget c p) → 
      ∃ p ∈ t.fs.processes, matchesTarget c p ∧ reportedPid t.fs s.cfg.targetPid c = p.pid) := by
  rw [Follows, onTick, collect_target, hc]

theorem step_cfg (hc : targetComm s.cfg.targetComm = c) : 
    (step s t).cfg = installDetected s.cfg s.cfg.targetPid c ((detect t.fs c).getD 0) := by
  rw [step, onTick, collect_cfg, hc]

-- As long as no pid is pinned, the engine detects a process in every tick.
theorem follows_of_free (hc : targetComm s.cfg.targetComm = c) (hp : s.cfg.targetPid ≤ 0) : 
    Follows c s t := by
  rw [follows_iff hc]
  intro ⟨p, hm, ht⟩
  cases hd : detect t.fs c
  case none   => exact absurd ht <| detect_eq_none_iff.mp hd p hm
  case some x =>
    have ⟨q, hq, hmq, he⟩ := detect_eq_some hd
    exact ⟨q, hq, hmq, by simp [reportedPid, hp, hd, he]⟩

omit [Runtime] [Zone] in
-- The comm that the engine writes back is the one it has read, if it is accepted.
theorem setTarget_detected (hs : Config.sanitizeComm c = c) (hc : c ≠ []) (hx : 0 ≤ x ∧ x ≤ Config.maxPID) : 
    cfg.setTarget x c = .ok { cfg with targetPid := x, targetComm := c } := by
  have hi : Config.installComm cfg.targetComm c = c := by rw [Config.installComm, if_neg hc, hs]
  rw [Config.setTarget_ok_iff, hi, hs]
  exact ⟨hx, fun _ => hc, rfl⟩

omit [Unicode] [Runtime] [Zone] in
theorem Pinned.congr {s' : State} (h : Pinned c pin s) (he : s'.cfg = s.cfg) : Pinned c pin s' where
  comm := he ▸ h.comm
  free := he ▸ h.free
  pid  := he ▸ h.pid

theorem Pinned.step (h : Pinned c pin s) (hs : Config.sanitizeComm c = c) (hc : c ≠ []) : 
    Pinned c (pin.or (detect t.fs c)) (step s t) := by
  cases pin
  case some x =>
    have hx := h.pid x rfl
    apply h.congr
    rw [step_cfg h.comm, installDetected, if_neg fun hn => by omega]
  case none =>
    cases hd : detect t.fs c
    case none =>
      apply h.congr
      rw [step_cfg h.comm, installDetected, hd, if_neg (by simp)]
    case some x =>
      have hx := detect_pos hd
      have he : (Pinning.step s t).cfg = { s.cfg with targetPid := x, targetComm := c } := by
        rw [step_cfg h.comm, installDetected, hd, if_pos ⟨h.free rfl, hx.left⟩, Option.getD_some, 
          setTarget_detected hs hc ⟨hx.left.le, hx.right⟩]
        rfl
      constructor <;> rw [he]
      case comm => exact if_neg hc
      case free => exact fun hn => by simp at hn
      case pid  => 
        rintro _ ⟨_⟩
        exact ⟨hx.left, rfl⟩

-- A comm that is not accepted is never written back.
theorem step_cfg_of_rejected (hc : targetComm s.cfg.targetComm = c) (hs : Config.sanitizeComm c = []) 
    (hn : c ≠ []) : (step s t).cfg = s.cfg := by
  rw [step_cfg hc, installDetected]
  split <;> try rfl
  cases he : s.cfg.setTarget ((detect t.fs c).getD 0) c
  case error => rfl
  case ok    => exact absurd hs <| Config.setTarget_ok_iff.mp he |>.right |>.left hn

theorem always_follows_of_rejected (hc : targetComm s.cfg.targetComm = c) (hp : s.cfg.targetPid ≤ 0)
    (hs : Config.sanitizeComm c = []) (hn : c ≠ []) : Execution.Always step (Follows c) s ts := by
  induction ts generalizing s
  case nil          => trivial
  case cons t ts hi =>
    have he := step_cfg_of_rejected (t := t) hc hs hn
    exact ⟨follows_of_free hc hp, hi (he ▸ hc) (he ▸ hp)⟩

theorem Pinned.run_iff (h : Pinned c pin s) (hs : Config.sanitizeComm c = c) (hc : c ≠ []) : 
    Execution.Always Pinning.step (Follows c) s ts ↔ Outlives c pin ts := by
  induction ts generalizing s pin
  case nil => cases pin <;> exact Iff.rfl
  case cons t ts hi =>
    rw [Execution.Always.cons_iff, hi (h.step hs hc)]
    cases pin
    case none   => exact and_iff_right <| follows_of_free h.comm (h.free rfl)
    case some x =>
      have ⟨hx, hp⟩ := h.pid x rfl
      rw [follows_iff h.comm, reportedPid, hp, if_neg (Int.not_le.mpr hx)]
      exact Iff.rfl

-- The engine follows the comm over a run if and only if it cannot pin a pid, or the process that it
-- pins does not go away.
theorem always_follows_iff (hr : cfg.Reachable) (hp : cfg.targetPid = 0) : 
    let c := targetComm cfg.targetComm
    Execution.Always step (Follows c) ⟨e, cfg⟩ ts ↔ 
      Config.sanitizeComm c = [] ∨ Outlives c none ts := by
  intro c
  have hn : c ≠ [] := targetComm_ne_nil
  by_cases hs : Config.sanitizeComm c = []
  case pos =>
    simp only [hs, true_or, iff_true]
    exact always_follows_of_rejected rfl hp.le hs hn
  case neg =>
    have hk := sanitized_targetComm hr.wellFormed.comm |>.sanitizeComm_eq.resolve_right hs
    have h : Pinned c none ⟨e, cfg⟩ := ⟨rfl, fun _ => hp.le, by simp⟩
    rw [h.run_iff hk hn]
    simp [hs]

end Run

section Restart

attribute [local instance] Unicode.ascii Runtime.stable Zone.utcEpoch

def agent (pid : Int) (h : 0 < pid ∧ pid ≤ maxPid) : Tick where
  now  := Time.epoch
  wall := Time.epoch
  fs   := { 
    processes := [.single pid (.ofBytes <| str "agy") none h]
    nodup     := List.nodup_singleton _ 
  }

-- The agent exits and is started again.
def restart : List Tick :=
  [agent 11 (by decide), agent 12 (by decide)]

def byComm : Config :=
  Config.loadTarget 0 (str "agy")

-- The second agent is not reported.
theorem not_always_follows_restart : 
    ¬(byComm.Reachable → byComm.targetPid = 0 → 
      Execution.Always step (Follows (targetComm byComm.targetComm)) 
        ⟨newEngine Time.epoch, byComm⟩ restart) := by
  intro h
  have hp : Pinned (str "agy") none ⟨newEngine Time.epoch, byComm⟩ := ⟨rfl, fun _ => by decide, by simp⟩
  have ha := h (.load _) rfl
  have ⟨hm, _⟩ := hp.run_iff (by decide) (by decide) |>.mp ha
  have ⟨p, hp, _, he⟩ := hm ⟨_, List.mem_singleton_self _, by decide⟩
  rw [List.mem_singleton.mp hp] at he
  exact absurd he (by decide)

theorem always_follows_iff_restart : 
    Execution.Always step (Follows (targetComm byComm.targetComm)) 
      ⟨newEngine Time.epoch, byComm⟩ restart ↔ 
        Config.sanitizeComm (targetComm byComm.targetComm) = [] ∨ 
        Outlives (targetComm byComm.targetComm) none restart :=
  always_follows_iff (.load _) rfl

end Restart
end RealEngine.Pinning
