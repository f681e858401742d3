import DrishtiScope.RealEngine.Resolve

open Go Linux

-- The daemon itself as a target.
namespace RealEngine.SelfTarget

section

variable [Unicode] [Runtime]

-- One of the arguments of the process is the flag.
def StartedWith (p : Process) (c : Bytes) : Prop :=
  0 ∉ c ∧ ∃ before after, p.cmdline = some (before ++ str "-comm=" ++ c ++ 0 :: after)

-- The process of the daemon. Its own comm is not the one that it looks for.
structure Daemon (fs : ProcFS) (c : Bytes) (d : Process) : Prop where
  listed    : d ∈ fs.processes
  notPrefix : ¬Enrich.commMatches d c
  notFold   : ¬(commOf d).any (·.equalFold c)
  started   : StartedWith d c

-- Neither of the engines takes the process for its target.
def Avoids (e : Engine) (t : Tick) (c : Bytes) (d : Process) : Prop :=
  d.pid ∉ Enrich.resolveTargets t.fs 0 c ∧ ¬Resolve.AutoDetects e t c d.pid

-- The real target is running: the comm of a process starts with the filter, and the daemon does not descend
-- from any such process.
def TargetRuns (fs : ProcFS) (c : Bytes) (d : Process) : Prop :=
  (∃ q ∈ fs.processes, Enrich.commMatches q c) ∧ 
  d.pid ∉ Closure.closure (Enrich.ppidOf fs) (Enrich.findByComm fs c)

-- A process that matches has its directory before that of the daemon.
def Preceded (fs : ProcFS) (c : Bytes) (d : Process) : Prop :=
  ∃ l r, fs.processes = l ++ d :: r ∧ ∃ q ∈ l, matchesTarget (targetComm c) q

-- Without a filter, or without a readable comm, the daemon is not considered.
def Spared (fs : ProcFS) (c : Bytes) (d : Process) : Prop :=
  (c = [] ∨ TargetRuns fs c d) ∧ (d.comm = none ∨ Preceded fs c d)

variable {fs : ProcFS} {c : Bytes} {d : Process} {e : Engine} {t : Tick}

omit [Runtime] in
-- The flag makes the command line match.
theorem StartedWith.cmdline (h : StartedWith d c) : 
    ∃ b : Bytes, d.cmdline = some b ∧ b ≠ [] ∧ (b.replaceByte 0 32).toLower.contains c.toLower := by
  obtain ⟨hz, before, after, hc⟩ := h
  refine ⟨_, hc, by simp, ?_⟩
  have hr : c.replaceByte 0 32 = c := 
    (List.map_congr_left fun b hb => if_neg fun he : b = 0 => hz (he ▸ hb)).trans (List.map_id' c)
  have hf : Bytes.replaceByte (str "-comm=") 0 32 = str "-comm" ++ [61] := by decide
  have hm : Bytes.replaceByte (before ++ str "-comm=" ++ c ++ 0 :: after) 0 32 = 
      (before.replaceByte 0 32 ++ str "-comm") ++ 61 :: (c ++ 32 :: Bytes.replaceByte after 0 32) := by
    simp only [Bytes.replaceByte, List.map_append, List.map_cons] at hr hf ⊢
    simp [hr, hf]
  have he : Rune.encode '=' = [61] := by decide
  have hs : Rune.encode ' ' = [32] := by decide
  exact hm ▸ Bytes.contains_toLower he (Bytes.mem_tail_encode_not_first hs).left

namespace Daemon

omit [Runtime] in
theorem cmdlineMatches (h : Daemon fs c d) : Enrich.cmdlineMatches d c := by
  have ⟨b, hb, hn, hc⟩ := h.started.cmdline
  simp [Enrich.cmdlineMatches, hb, hn, hc]

omit [Runtime] in
-- Without a filter, every readable comm matches.
theorem ne_nil (h : Daemon fs c d) (hd : d.comm ≠ none) : c ≠ [] := by
  rintro rfl
  have ⟨x, hx⟩ := Option.ne_none_iff_exists'.mp hd
  exact h.notPrefix <| by simp [Enrich.commMatches, Process.commFile, hx, Bytes.hasPrefix]

omit [Runtime] in
theorem matchesTarget_iff (h : Daemon fs c d) : matchesTarget (targetComm c) d ↔ d.comm ≠ none := by
  cases hd : d.comm
  case none   => simp [matchesTarget, commOf, Process.commFile, hd]
  case some x =>
    obtain ⟨b, hb, _, hc⟩ := h.started.cmdline
    have hn := h.ne_nil (by simp [hd])
    simp [matchesTarget, commOf, Process.commFile, hd, targetComm, hn, matchesComm, cmdlineOf, hb, hc]

theorem mem_resolveTargets_iff (h : Daemon fs c d) : 
    d.pid ∉ Enrich.resolveTargets fs 0 c ↔ c = [] ∨ TargetRuns fs c d := by
  rw [Enrich.mem_resolveTargets, Enrich.tree, Enrich.roots, if_neg (Int.lt_irrefl 0)]
  by_cases hc : c = []
  case pos => simp [hc, Closure.closure_nil]
  case neg =>
    have hn : Enrich.findByComm fs c ≠ [] ↔ ∃ q ∈ fs.processes, Enrich.commMatches q c := by
      simp [Enrich.findByComm]
    rw [if_neg hc, TargetRuns, ← hn]
    split
    case isTrue hf =>
      have hd : d.pid ∈ Enrich.findByCmdline fs c := 
        Enrich.mem_findByCmdline.mpr ⟨hc, d, h.listed, h.cmdlineMatches, rfl⟩
      simp [hc, hf, Closure.root_mem_closure hd]
    case isFalse hf => simp [hc, hf]

theorem autoDetects_iff (h : Daemon t.fs c d) : 
    ¬Resolve.AutoDetects e t c d.pid ↔ d.comm = none ∨ Preceded t.fs c d := by
  rw [Resolve.autoDetects_iff, Resolve.detect_eq_pid_iff h.listed]
  constructor
  case mp =>
    intro hn
    by_contra hp
    have ⟨hd, hp⟩ := not_or.mp hp
    have ⟨l, r, hl⟩ := List.append_of_mem h.listed
    refine hn <| List.find?_eq_some_iff_append.mpr ⟨h.matchesTarget_iff.mpr hd, l, r, hl, fun q hq => ?_⟩
    by_contra hm
    exact hp ⟨l, r, hl, q, hq, by simpa using hm⟩
  case mpr =>
    intro hs hf
    have hd := h.matchesTarget_iff.mp <| List.find?_some hf
    have ⟨l, r, hl, q, hq, hm⟩ := hs.resolve_left hd
    -- The search ends before the daemon.
    have hs := List.find?_isSome.mpr ⟨q, hq, hm⟩
    have ⟨p, hp⟩ := Option.isSome_iff_exists.mp hs
    rw [hl, List.find?_append, hp, Option.some_or, Option.some_inj] at hf
    have hn := t.fs.nodup
    rw [hl, List.map_append, List.map_cons, List.nodup_append] at hn
    have hm := List.mem_map_of_mem (f := (·.pid)) (hf ▸ List.mem_of_find?_eq_some hp)
    exact hn.right.right _ hm _ List.mem_cons_self rfl

end Daemon

-- The daemon does not observe itself if and only if both engines find something else first.
theorem avoids_iff_spared (h : Daemon t.fs c d) : Avoids e t c d ↔ Spared t.fs c d :=
  and_congr h.mem_resolveTargets_iff h.autoDetects_iff

end

section Alone

attribute [local instance] Unicode.ascii Runtime.stable

-- The daemon is to watch Python, which is not running.
def daemon : Process :=
  { Process.single 41 (.ofBytes <| str "drishtiscope") none (by decide) with 
    cmdline := some <| str "./drishtiscope" ++ [0] ++ str "-mode=real" ++ [0] ++ str "-comm=python" ++ [0] }

def alone : ProcFS where
  processes := [daemon]
  nodup     := by decide

def aloneTick : Tick :=
  ⟨Time.epoch, Time.epoch, alone⟩

theorem daemon_alone : Daemon alone (str "python") daemon where
  listed    := List.mem_singleton_self _
  notPrefix := by decide
  notFold   := by decide
  started   := ⟨by decide, str "./drishtiscope" ++ [0] ++ str "-mode=real" ++ [0], [], rfl⟩

theorem avoids_iff_spared_alone : 
    Avoids (newEngine Time.epoch) aloneTick (str "python") daemon ↔ Spared alone (str "python") daemon :=
  avoids_iff_spared daemon_alone

-- Both engines pick the daemon.
theorem not_avoids_alone : 
    Daemon alone (str "python") daemon ∧ 
    Enrich.resolveTargets alone 0 (str "python") = [41] ∧ 
    Resolve.AutoDetects (newEngine Time.epoch) aloneTick (str "python") 41 ∧ 
    ¬Avoids (newEngine Time.epoch) aloneTick (str "python") daemon := by
  have hr : Enrich.resolveTargets alone 0 (str "python") = [41] := by decide
  have hd : Resolve.AutoDetects (newEngine Time.epoch) aloneTick (str "python") 41 := 
    Resolve.autoDetects_iff.mpr (by decide)
  exact ⟨daemon_alone, hr, hd, fun h => h.right hd⟩

end Alone
end RealEngine.SelfTarget
