import DrishtiScope.RealEngine.Scan

open Go Linux

-- The target that the engine detects against the one that `enrich` resolves.
namespace RealEngine.Resolve

section Select

variable [Unicode]

-- The rule of `enrich`: the command line is only considered if no comm matches.
def Eligible (fs : ProcFS) (c : Bytes) (p : Process) : Prop :=
  c ≠ [] ∧ (Enrich.commMatches p c ∨ 
    (∀ q ∈ fs.processes, ¬Enrich.commMatches q c) ∧ Enrich.cmdlineMatches p c)

-- The first directory that the filter selects is also selected by the rule of `enrich`.
def FirstEligible (fs : ProcFS) (c : Bytes) : Prop :=
  ∀ l p r, fs.processes = l ++ p :: r → (∀ q ∈ l, ¬matchesTarget (targetComm c) q) → 
    matchesTarget (targetComm c) p → Eligible fs c p

variable {fs : ProcFS} {c : Bytes} {p : Process} {pid : Int}

theorem pid_mem_roots_iff (h : p ∈ fs.processes) : p.pid ∈ Enrich.roots fs 0 c ↔ Eligible fs c p := by
  simp only [Enrich.roots, Eligible, Int.lt_irrefl, if_false]
  by_cases hc : c = []
  case pos => simp [hc]
  case neg =>
    have hn : Enrich.findByComm fs c = [] ↔ ∀ q ∈ fs.processes, ¬Enrich.commMatches q c := by
      simp [Enrich.findByComm]
    have hm {P : Process → Prop} : (∃ q ∈ fs.processes, P q ∧ q.pid = p.pid) ↔ P p := by
      constructor
      case mp =>
        rintro ⟨q, hq, hp, he⟩
        exact fs.eq_of_pid_eq hq h he ▸ hp
      case mpr => exact fun hp => ⟨p, h, hp, rfl⟩
    rw [if_neg hc]
    split
    case isTrue hf =>
      rw [Enrich.mem_findByCmdline, hm]
      have hp := hn.mp hf
      constructor
      case mp  =>
        rintro ⟨hc, hl⟩
        exact ⟨hc, .inr ⟨hp, hl⟩⟩
      case mpr =>
        rintro ⟨hc, he⟩
        exact ⟨hc, he.resolve_left (hp p h) |>.right⟩
    case isFalse hf =>
      rw [Enrich.mem_findByComm, hm, ← hn]
      constructor
      case mp  => exact fun he => ⟨hc, .inl he⟩
      case mpr =>
        rintro ⟨_, he⟩
        exact he.resolve_right fun he => hf he.left

theorem detect_eq_pid_iff (h : p ∈ fs.processes) : 
    detect fs c = some p.pid ↔ fs.processes.find? (matchesTarget c) = some p := by
  rw [detect, Option.map_eq_some_iff]
  constructor
  case mp =>
    rintro ⟨q, hq, he⟩
    exact fs.eq_of_pid_eq (List.mem_of_find?_eq_some hq) h he ▸ hq
  case mpr => exact fun hp => ⟨p, hp, rfl⟩

theorem firstEligible_iff : 
    FirstEligible fs c ↔ ∀ pid, detect fs (targetComm c) = some pid → pid ∈ Enrich.roots fs 0 c := by
  constructor
  case mp =>
    intro h pid hd
    have ⟨p, hp, _, he⟩ := detect_eq_some hd
    subst he
    have ⟨hm, l, r, hl, hn⟩ := List.find?_eq_some_iff_append.mp <| detect_eq_pid_iff hp |>.mp hd
    exact pid_mem_roots_iff hp |>.mpr <| h l p r hl (fun q hq => by simpa using hn q hq) hm
  case mpr =>
    intro h l p r hl hn hm
    have hp : p ∈ fs.processes := by simp [hl]
    have hf : fs.processes.find? (matchesTarget (targetComm c)) = some p :=
      List.find?_eq_some_iff_append.mpr ⟨hm, l, r, hl, fun q hq => by simpa using hn q hq⟩
    exact pid_mem_roots_iff hp |>.mp <| h _ <| detect_eq_pid_iff hp |>.mpr hf

variable [Runtime] {e : Engine} {t : Tick}

-- `collect` takes the pid from the scan, as the target is (0, c).
def AutoDetects (e : Engine) (t : Tick) (c : Bytes) (pid : Int) : Prop :=
  0 < pid ∧ (scanAllProcesses e t 0 (targetComm c)).autoDetectedPID = pid

structure ResolvesAlike (e : Engine) (t : Tick) (c : Bytes) : Prop where
  root      : ∀ pid, AutoDetects e t c pid → pid ∈ Enrich.roots t.fs 0 c
  commFirst : ∀ p ∈ t.fs.processes, AutoDetects e t c p.pid → 
    (∃ q ∈ t.fs.processes, Enrich.commMatches q c) → Enrich.commMatches p c

theorem autoDetects_iff : AutoDetects e t c pid ↔ detect t.fs (targetComm c) = some pid := by
  rw [AutoDetects, autoDetectedPID_eq, if_pos (Int.le_refl 0)]
  cases hd : detect t.fs (targetComm c)
  case none   => simp; omega
  case some x =>
    have hx := detect_pos hd |>.left
    simp only [Option.getD_some, Option.some_inj]
    exact ⟨And.right, fun h => ⟨h ▸ hx, h⟩⟩

-- Both engines choose the same processes if and only if the first match is eligible.
theorem resolvesAlike_iff : ResolvesAlike e t c ↔ FirstEligible t.fs c := by
  rw [firstEligible_iff]
  constructor
  case mp => exact fun h pid hd => h.root pid <| autoDetects_iff.mpr hd
  case mpr =>
    intro h
    refine ⟨fun pid hd => h pid <| autoDetects_iff.mp hd, fun p hp hd ⟨q, hq, hm⟩ => ?_⟩
    have ⟨_, he⟩ := pid_mem_roots_iff hp |>.mp <| h _ <| autoDetects_iff.mp hd
    cases he
    case inl he => exact he
    case inr he => exact absurd hm <| he.left q hq

end Select

section Editor

attribute [local instance] Unicode.ascii Runtime.stable

-- An editor has a file named like the agent open. Its directory comes first.
def editor : Process :=
  { Process.single 31 (.ofBytes <| str "vim") none (by decide) with 
    cmdline := some <| str "vim" ++ [0] ++ str "agy.go" ++ [0] }

def editing : ProcFS where
  processes := [editor, .single 32 (.ofBytes <| str "agy") none (by decide)]
  nodup     := by decide

def editingTick : Tick :=
  ⟨Time.epoch, Time.epoch, editing⟩

-- The engine picks the editor although the comm of another process matches.
theorem not_resolvesAlike_editing : 
    AutoDetects (newEngine Time.epoch) editingTick (str "agy") 31 ∧ 
    Enrich.roots editing 0 (str "agy") = [32] ∧ 
    ¬ResolvesAlike (newEngine Time.epoch) editingTick (str "agy") := by
  have hd : AutoDetects (newEngine Time.epoch) editingTick (str "agy") 31 := 
    autoDetects_iff.mpr (by decide)
  have hr : Enrich.roots editing 0 (str "agy") = [32] := by decide
  refine ⟨hd, hr, fun h => ?_⟩
  have hm := h.root 31 hd
  rw [show editingTick.fs = editing from rfl, hr] at hm
  contradiction

end Editor
end RealEngine.Resolve
