import DrishtiScope.RealEngine.Engine

open Go Linux

-- What a scan of /proc leaves behind.
namespace RealEngine

variable [Unicode]

-- The filter by comm selects the process.
def matchesTarget (c : Bytes) (p : Process) : Bool :=
  (commOf p).any (matchesComm · (cmdlineOf p) c)

def isTargeted (targetPid : Int) (c : Bytes) (p : Process) : Bool :=
  (commOf p).any (isTarget p.pid · (cmdlineOf p) targetPid c)

-- The first process that matches.
def detect (fs : ProcFS) (c : Bytes) : Option Int :=
  (fs.processes.find? (matchesTarget c)).map (·.pid)

-- The pid that a tick reports.
def reportedPid (fs : ProcFS) (targetPid : Int) (c : Bytes) : Int :=
  if targetPid ≤ 0 then (detect fs c).getD targetPid else targetPid

-- The history of the process has an entry of this tick, in which the counters are not set.
def Fresh (now : Time) (history : Int → Option ProcSnapshot) (pid : Int) : Prop :=
  ∃ s, history pid = some s ∧ s.sampleTime = now

variable {fs : ProcFS} {targetPid : Int} {c comm : Bytes} {now : Time} {s s' : Scan} {p : Process}
         {l : List Process}

omit [Unicode] in
theorem Fresh.update {history : Int → Option ProcSnapshot} {pid pid' : Int} {x : ProcSnapshot}
    (h : Fresh now history pid) (hx : x.sampleTime = now) : 
    Fresh now (Function.update history pid' (some x)) pid := by
  have ⟨s, hs, ht⟩ := h
  by_cases he : pid = pid'
  case pos => exact ⟨x, by simp [he], hx⟩
  case neg => exact ⟨s, by simp [he, hs], ht⟩

theorem isTargeted_iff_of_pos (h : 0 < targetPid) : 
    isTargeted targetPid c p ↔ p.pid = targetPid ∧ (commOf p).isSome := by
  cases hc : commOf p <;> simp [isTargeted, isTarget, hc, h, Int.not_le.mpr h]

theorem isTargeted_eq (h : targetPid ≤ 0) (hc : c ≠ []) : 
    isTargeted targetPid c p = matchesTarget c p := by
  simp [isTargeted, matchesTarget, isTarget, h, hc, Int.not_lt.mpr h]

-- Everything that the scan does with a process.
theorem scanProcess_cases (h : scanProcess fs targetPid c now s p = s') : 
    (s'.procHistory = s.procHistory ∧ s'.rows = s.rows ∧ ¬isTargeted targetPid c p) ∨ 
    ∃ r x, s'.procHistory = Function.update s.procHistory p.pid (some x) ∧ x.sampleTime = now ∧ 
      s'.rows = s.rows ++ [r] ∧ r.pid = p.pid ∧ commOf p = some r.comm := by
  subst h
  cases hc : commOf p
  case none      => exact .inl ⟨by simp [scanProcess, hc], by simp [scanProcess, hc], by simp [isTargeted, hc]⟩
  case some comm =>
    simp only [scanProcess, hc]
    split
    case isTrue hr =>
      simp only [Bool.and_eq_true, Bool.not_eq_true'] at hr
      exact .inl ⟨rfl, rfl, by simp [isTargeted, hc, hr.left]⟩
    case isFalse => exact .inr ⟨_, _, rfl, rfl, rfl, rfl, rfl⟩

theorem scanProcess_autoDetectedPID : 
    (scanProcess fs targetPid c now s p).autoDetectedPID = 
      if isTargeted targetPid c p ∧ targetPid ≤ 0 ∧ s.autoDetectedPID = 0 then p.pid 
      else s.autoDetectedPID := by
  cases hc : commOf p
  case none      => simp [scanProcess, isTargeted, hc]
  case some comm =>
    simp only [scanProcess, hc, isTargeted, Option.any_some]
    split <;> rfl

-- The state of the scan after the directories in `l`.
structure Scanned (targetPid : Int) (c : Bytes) (now : Time) (l : List Process) (s : Scan) : Prop where
  fresh    : ∀ r ∈ s.rows, Fresh now s.procHistory r.pid
  sound    : ∀ r ∈ s.rows, ∃ p ∈ l, p.pid = r.pid ∧ commOf p = some r.comm
  complete : ∀ p ∈ l, isTargeted targetPid c p → ∃ r ∈ s.rows, r.pid = p.pid
  detected : s.autoDetectedPID = 
    if targetPid ≤ 0 ∧ c ≠ [] then 
      ((l.find? (matchesTarget c)).map (·.pid)).getD 0 
    else 
      0

namespace Scanned

theorem nil {history : Int → Option ProcSnapshot} : Scanned targetPid c now [] ⟨history, [], 0⟩ := by
  constructor <;> simp

-- The first match stays.
theorem detected_concat (h : Scanned targetPid c now l s) : 
    (scanProcess fs targetPid c now s p).autoDetectedPID = 
      if targetPid ≤ 0 ∧ c ≠ [] then 
        (((l ++ [p]).find? (matchesTarget c)).map (·.pid)).getD 0 
      else 
        0 := by
  have hp := p.pid_pos
  rw [scanProcess_autoDetectedPID, h.detected]
  by_cases ht : targetPid ≤ 0 ∧ c ≠ []
  case neg =>
    have hn : ¬(isTargeted targetPid c p ∧ targetPid ≤ 0) := by
      intro ⟨hi, hl⟩
      have hc : c = [] := by simpa [hl] using ht
      simp [isTargeted, isTarget, hc, Int.not_lt.mpr hl] at hi
    rw [if_neg ht, if_neg ht, if_neg fun h => hn ⟨h.left, h.right.left⟩]
  case pos =>
    rw [if_pos ht, if_pos ht, List.find?_append, isTargeted_eq ht.left ht.right]
    cases l.find? (matchesTarget c)
    case none   => by_cases hm : matchesTarget c p <;> simp [hm, ht.left]
    case some q => 
      have hq := q.pid_pos
      simp only [Option.map_some, Option.getD_some, Option.some_or]
      exact if_neg fun h => by omega

-- A process is passed over.
theorem skip (h : Scanned targetPid c now l s) (hh : s'.procHistory = s.procHistory) 
    (hr : s'.rows = s.rows) (hn : ¬isTargeted targetPid c p) 
    (hd : s'.autoDetectedPID = if targetPid ≤ 0 ∧ c ≠ [] then 
      (((l ++ [p]).find? (matchesTarget c)).map (·.pid)).getD 0 else 0) : 
    Scanned targetPid c now (l ++ [p]) s' where
  fresh      := hh ▸ hr ▸ h.fresh
  sound r hm := 
    have ⟨q, hq, hp⟩ := h.sound r (hr ▸ hm)
    ⟨q, List.mem_append_left _ hq, hp⟩
  complete q hq ht := by
    cases List.mem_append.mp hq
    case inl hq => exact hr ▸ h.complete q hq ht
    case inr hq => exact absurd ht <| List.mem_singleton.mp hq ▸ hn
  detected := hd

-- A process gets a row.
theorem add {r : Agg.ProcessRow} {x : ProcSnapshot} (h : Scanned targetPid c now l s) 
    (hh : s'.procHistory = Function.update s.procHistory p.pid (some x)) (hx : x.sampleTime = now) 
    (hr : s'.rows = s.rows ++ [r]) (hp : r.pid = p.pid) (hc : commOf p = some r.comm) 
    (hd : s'.autoDetectedPID = if targetPid ≤ 0 ∧ c ≠ [] then 
      (((l ++ [p]).find? (matchesTarget c)).map (·.pid)).getD 0 else 0) : 
    Scanned targetPid c now (l ++ [p]) s' where
  fresh r' hm := by
    rw [hr] at hm
    rw [hh]
    cases List.mem_append.mp hm
    case inl hm => exact h.fresh r' hm |>.update hx
    case inr hm =>
      rw [List.mem_singleton.mp hm, hp]
      exact ⟨x, by simp, hx⟩
  sound r' hm := by
    rw [hr] at hm
    cases List.mem_append.mp hm
    case inl hm => 
      have ⟨q, hq, hp⟩ := h.sound r' hm
      exact ⟨q, List.mem_append_left _ hq, hp⟩
    case inr hm => 
      rw [List.mem_singleton.mp hm]
      exact ⟨p, by simp, hp.symm, hc⟩
  complete q hq ht := by
    rw [hr]
    cases List.mem_append.mp hq
    case inl hq =>
      have ⟨r', hm, hp'⟩ := h.complete q hq ht
      exact ⟨r', List.mem_append_left _ hm, hp'⟩
    case inr hq =>
      rw [List.mem_singleton.mp hq]
      exact ⟨r, by simp, hp⟩
  detected := hd

theorem concat (h : Scanned targetPid c now l s) (hs : scanProcess fs targetPid c now s p = s') : 
    Scanned targetPid c now (l ++ [p]) s' := by
  have hd := hs ▸ h.detected_concat (p := p)
  obtain ⟨hh, hr, hn⟩ | ⟨r, x, hh, hx, hr, hp, hc⟩ := scanProcess_cases hs
  case inl => exact h.skip hh hr hn hd
  case inr => exact h.add hh hx hr hp hc hd

end Scanned

theorem scanned : 
    Scanned targetPid c now l (l.foldl (scanProcess fs targetPid c now) ⟨history, [], 0⟩) := by
  induction l using List.reverseRecOn
  case nil             => exact .nil
  case append_singleton l p hi =>
    rw [List.foldl_concat]
    exact hi.concat rfl

theorem detect_eq_some (h : detect fs c = some x) : 
    ∃ p ∈ fs.processes, matchesTarget c p ∧ p.pid = x := by
  have ⟨p, hp, he⟩ := Option.map_eq_some_iff.mp h
  exact ⟨p, List.mem_of_find?_eq_some hp, List.find?_some hp, he⟩

theorem detect_eq_none_iff : detect fs c = none ↔ ∀ p ∈ fs.processes, ¬matchesTarget c p := by
  simp [detect]

theorem detect_pos (h : detect fs c = some x) : 0 < x ∧ x ≤ Config.maxPID := by
  have ⟨p, _, _, he⟩ := detect_eq_some h
  exact he ▸ ⟨p.pid_pos, p.pid_le⟩

omit [Unicode] in
theorem targetComm_ne_nil : targetComm comm ≠ [] := by
  simp only [targetComm]
  split <;> simp_all [str]

theorem sanitized_targetComm (hs : Config.Sanitized comm) : Config.Sanitized (targetComm comm) := by
  rw [targetComm]
  split
  case isFalse => exact hs
  case isTrue  =>
    have ha : ['a', 'g', 'y'].all fun r => decide (r.toNat < 0x80) && r.isAlpha := by decide
    refine ⟨['a', 'g', 'y'], fun r hr => ?_, rfl⟩
    have ⟨hl, hr⟩ := Bool.and_eq_true_iff.mp <| List.all_eq_true.mp ha r hr
    simp [Config.commRune, Unicode.isLetter_ascii r (of_decide_eq_true hl), hr]

variable [Runtime] {e : Engine} {t : Tick}

-- Sorting does not matter.
theorem scanAllProcesses_scanned : 
    Scanned targetPid c t.now t.fs.processes (scanAllProcesses e t targetPid c) := by
  have h : Scanned targetPid c t.now t.fs.processes <| 
      t.fs.processes.foldl (scanProcess t.fs targetPid c t.now) ⟨e.procHistory, [], 0⟩ := scanned
  exact {
    fresh    := fun r hr => h.fresh r <| mem_sortSlice.mp hr
    sound    := fun r hr => h.sound r <| mem_sortSlice.mp hr
    complete := fun p hp ht => 
      have ⟨r, hr, he⟩ := h.complete p hp ht
      ⟨r, mem_sortSlice.mpr hr, he⟩
    detected := h.detected
  }

theorem autoDetectedPID_eq : 
    (scanAllProcesses e t targetPid (targetComm comm)).autoDetectedPID = 
      if targetPid ≤ 0 then (detect t.fs (targetComm comm)).getD 0 else 0 := by
  rw [scanAllProcesses_scanned.detected, detect]
  simp [targetComm_ne_nil]

theorem selectPid_eq : 
    selectPid targetPid (scanAllProcesses e t targetPid (targetComm comm)).autoDetectedPID = 
      reportedPid t.fs targetPid (targetComm comm) := by
  simp only [autoDetectedPID_eq, selectPid, reportedPid]
  by_cases hp : targetPid ≤ 0
  case neg => simp [hp]
  case pos =>
    cases hd : detect t.fs (targetComm comm)
    case none   => simp [hp]
    case some x => simp [hp, detect_pos hd]

-- A row whose comm is the one of the target has already been detected.
theorem findTarget_eq_none (h : reportedPid t.fs targetPid (targetComm comm) ≤ 0) : 
    findTarget (scanAllProcesses e t targetPid (targetComm comm)).rows 
      (reportedPid t.fs targetPid (targetComm comm)) (targetComm comm) = none := by
  have hp : targetPid ≤ 0 := by
    by_contra hp
    simp only [reportedPid, hp, if_false] at h
  have hd : detect t.fs (targetComm comm) = none := by
    cases hd : detect t.fs (targetComm comm)
    case none   => rfl
    case some x => 
      have hx := detect_pos hd |>.left
      simp only [reportedPid, hp, hd, if_true, Option.getD_some] at h
      exact absurd hx <| Int.not_lt.mpr h
  rw [findTarget, List.find?_eq_none]
  intro r hr he
  have ⟨p, hm, hp, hc⟩ := scanAllProcesses_scanned.sound r hr
  apply detect_eq_none_iff.mp hd p hm
  have he' : r.comm.equalFold (targetComm comm) := by
    simpa [Int.not_lt.mpr h, h] using he
  simp [matchesTarget, hc, matchesComm, he']

theorem locatePid_eq : 
    locatePid (findTarget (scanAllProcesses e t targetPid (targetComm comm)).rows 
      (reportedPid t.fs targetPid (targetComm comm)) (targetComm comm)) 
      (reportedPid t.fs targetPid (targetComm comm)) = 
    reportedPid t.fs targetPid (targetComm comm) := by
  rw [locatePid]
  split
  case isTrue h  => rw [findTarget_eq_none h]; rfl
  case isFalse h => rfl

-- The target has been scanned, if it is running.
theorem scanAllProcesses_fresh (hp : p ∈ t.fs.processes) (hc : (commOf p).isSome) 
    (hr : reportedPid t.fs targetPid (targetComm comm) = p.pid) : 
    Fresh t.now (scanAllProcesses e t targetPid (targetComm comm)).procHistory p.pid := by
  have ⟨q, hq, ht, he⟩ : 
      ∃ q ∈ t.fs.processes, isTargeted targetPid (targetComm comm) q ∧ q.pid = p.pid := by
    by_cases hl : targetPid ≤ 0
    case neg =>
      simp only [reportedPid, hl, if_false] at hr
      exact ⟨p, hp, isTargeted_iff_of_pos (Int.not_le.mp hl) |>.mpr ⟨hr.symm, hc⟩, rfl⟩
    case pos =>
      simp only [reportedPid, hl, if_true] at hr
      cases hd : detect t.fs (targetComm comm)
      case none => 
        have := p.pid_pos
        simp only [hd, Option.getD_none] at hr
        omega
      case some x =>
        have ⟨q, hq, hm, he⟩ := detect_eq_some hd
        simp only [hd, Option.getD_some] at hr
        exact ⟨q, hq, isTargeted_eq hl targetComm_ne_nil ▸ hm, he.trans hr⟩
  have ⟨r, hm, hpid⟩ := scanAllProcesses_scanned (e := e) |>.complete q hq ht
  exact he ▸ hpid ▸ scanAllProcesses_scanned.fresh r hm

variable [Zone] {cfg : Config}

-- The part of `collect` that comes after the scan.
theorem collectFrom_eq : 
    collectFrom e (targetPid, comm) cfg t = 
      let c := targetComm comm
      let s := scanAllProcesses e t targetPid c
      let m := measure { e with procHistory := s.procHistory } t s.rows (reportedPid t.fs targetPid c) c
      ⟨m.1, installDetected cfg targetPid c s.autoDetectedPID, m.2.1, m.2.2⟩ := by
  simp only [← selectPid_eq (e := e)]
  rfl

theorem collectFrom_cfg : 
    (collectFrom e (targetPid, comm) cfg t).cfg = 
      installDetected cfg targetPid (targetComm comm) ((detect t.fs (targetComm comm)).getD 0) := by
  simp only [collectFrom_eq, autoDetectedPID_eq, installDetected]
  by_cases hp : targetPid ≤ 0 <;> simp [hp]

theorem collect_eq : 
    collect e cfg t = 
      let c := targetComm cfg.targetComm
      let s := scanAllProcesses e t cfg.targetPid c
      let m := measure { e with procHistory := s.procHistory } t s.rows 
        (reportedPid t.fs cfg.targetPid c) c
      ⟨m.1, installDetected cfg cfg.targetPid c s.autoDetectedPID, m.2.1, m.2.2⟩ := 
  collectFrom_eq

theorem collect_target : 
    (collect e cfg t).snapshot.info.target = 
      ⟨reportedPid t.fs cfg.targetPid (targetComm cfg.targetComm), targetComm cfg.targetComm⟩ := by
  simp only [collect_eq, measure, locatePid_eq]

theorem collect_cfg : 
    (collect e cfg t).cfg = 
      installDetected cfg cfg.targetPid (targetComm cfg.targetComm) 
        ((detect t.fs (targetComm cfg.targetComm)).getD 0) :=
  collectFrom_cfg

end RealEngine
