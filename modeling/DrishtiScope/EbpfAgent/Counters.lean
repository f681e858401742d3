import DrishtiScope.EbpfAgent.LiveState
import DrishtiScope.Lib.Execution

open Go Linux Bpf

-- Rates from the differences of counters that live in the kernel.
namespace EbpfAgent

variable {s : LiveState} {it : List (UInt32 × ProcStats)} {elapsed : ℚ} {prev val : ProcStats}
  {c : Counter} {memo : UInt32 → ProcStats}

-- An iteration of the `process_stats` map and the seconds since the last one.
structure Tick where
  entries : List (UInt32 × ProcStats)
  elapsed : ℚ

def tick (s : LiveState) (t : Tick) : LiveState :=
  (s.readProcessStats t.entries t.elapsed).fst

def rates (s : LiveState) (t : Tick) : Counter → ℚ :=
  (s.readProcessStats t.entries t.elapsed).snd

-- For each entry of an iteration the value that is remembered for its key and its own.
def visits (memo : UInt32 → ProcStats) : List (UInt32 × ProcStats) → List (ProcStats × ProcStats)
  | []               => []
  | (key, val) :: it => (memo key, val) :: visits (Function.update memo key val) it

-- The growth of a counter, which has been restarted if it is smaller than before.
def growth (prev val : UInt64) : Nat :=
  if prev ≤ val then val.toNat - prev.toNat else val.toNat

def total (it : List (UInt32 × ProcStats)) (c : Counter) : ℚ :=
  (it.map fun e => ((c.get e.snd).toNat : ℚ)).sum

-- Each entry contributes the growth of its counters, and the sums are within the counters' values.
structure NeverWraps (s : LiveState) (t : Tick) : Prop where
  growth  : 0 < t.elapsed → ∀ v ∈ visits s.statPrev t.entries, ∀ c : Counter, 
    contribution v.fst v.snd t.elapsed c = growth (c.get v.fst) (c.get v.snd) / t.elapsed
  nonneg  : ∀ c, 0 ≤ rates s t c
  bounded : 0 < t.elapsed → ∀ c, rates s t c ≤ total t.entries c / t.elapsed

-- No counter is smaller than the value that is remembered for its key.
def Monotone (s : LiveState) (t : Tick) : Prop :=
  0 < t.elapsed → ∀ v ∈ visits s.statPrev t.entries, ∀ c : Counter, c.get v.fst ≤ c.get v.snd

theorem toNat_sub_eq_growth_iff {x y : UInt64} : (y - x).toNat = growth x y ↔ x ≤ y := by
  have hx := x.toNat_lt
  have hy := y.toNat_lt
  have hl : x ≤ y ↔ x.toNat ≤ y.toNat := UInt64.le_iff_toNat_le
  rw [growth, UInt64.toNat_sub]
  split
  case isTrue h  =>
    have hn := hl.mp h
    simp only [h, iff_true]
    omega
  case isFalse h =>
    have hn := mt hl.mpr h
    simp only [h, iff_false]
    omega

theorem contribution_eq_iff (h : 0 < elapsed) : 
    contribution prev val elapsed c = growth (c.get prev) (c.get val) / elapsed ↔ 
      c.get prev ≤ c.get val := by
  rw [contribution, div_left_inj' h.ne', Nat.cast_inj, toNat_sub_eq_growth_iff]

theorem contribution_nonneg (h : 0 < elapsed) : 0 ≤ contribution prev val elapsed c :=
  div_nonneg (Nat.cast_nonneg _) h.le

theorem growth_le {x y : UInt64} : growth x y ≤ y.toNat := by
  simp only [growth]
  split <;> omega

theorem foldl_next {r : Counter → ℚ} : 
    (it.foldl (LiveState.readProcessStats.next elapsed) (s, r)).snd c = 
      r c + ((visits s.statPrev it).map fun v => contribution v.fst v.snd elapsed c).sum := by
  induction it generalizing s r
  case nil => simp [visits]
  case cons e it hi =>
    rw [List.foldl_cons, LiveState.readProcessStats.next, hi]
    simp [visits, add_assoc]

-- The rates are the sums over the visited entries.
theorem rates_eq {t : Tick} (h : 0 < t.elapsed) : 
    rates s t c = ((visits s.statPrev t.entries).map fun v => 
      contribution v.fst v.snd t.elapsed c).sum := by
  rw [rates, LiveState.readProcessStats, if_neg (not_le.mpr h), foldl_next, zero_add]

theorem rates_nonneg {t : Tick} : 0 ≤ rates s t c := by
  by_cases h : 0 < t.elapsed
  case neg => simp [rates, LiveState.readProcessStats, not_lt.mp h]
  case pos =>
    rw [rates_eq h]
    apply List.sum_nonneg
    intro r hr
    obtain ⟨_, _, he⟩ := List.mem_map.mp hr
    exact he ▸ contribution_nonneg h

theorem sum_visits_le (h : 0 < elapsed) 
    (hg : ∀ v ∈ visits memo it, contribution v.fst v.snd elapsed c = 
      growth (c.get v.fst) (c.get v.snd) / elapsed) : 
    ((visits memo it).map fun v => contribution v.fst v.snd elapsed c).sum ≤ total it c / elapsed := by
  induction it generalizing memo
  case nil => simp [visits, total]
  case cons e it hi =>
    have hv := hg _ List.mem_cons_self
    have hl := hi fun v hm => hg v <| List.mem_cons_of_mem _ hm
    have hb : ((growth (c.get (memo e.fst)) (c.get e.snd) : Nat) : ℚ) ≤ (c.get e.snd).toNat :=
      Nat.cast_le.mpr growth_le
    have hd := div_le_div_of_nonneg_right hb h.le
    simp only [visits, List.map_cons, List.sum_cons, total, add_div] at hv hl ⊢
    rw [hv]
    exact add_le_add hd hl

theorem neverWraps_iff_monotone {t : Tick} : NeverWraps s t ↔ Monotone s t where
  mp h ht v hv c := contribution_eq_iff ht |>.mp <| h.growth ht v hv c
  mpr h := {
    growth ht v hv c := contribution_eq_iff ht |>.mpr <| h ht v hv c
    nonneg _         := rates_nonneg
    bounded ht c     := by
      rw [rates_eq ht]
      exact sum_visits_le ht fun v hv => contribution_eq_iff ht |>.mpr <| h ht v hv c
  }

-- In any sequence of iterations the rates are right if and only if no counter restarts.
theorem always_neverWraps_iff {ts : List Tick} : 
    Execution.Always tick NeverWraps s ts ↔ Execution.Always tick Monotone s ts :=
  Execution.Always.congr (I := fun _ => True) trivial (fun _ _ _ _ => trivial) 
    fun _ _ _ => neverWraps_iff_monotone

section Restart

-- A thread of process 7.
def thread (tid : UInt32) : Current where
  tgid  := 7
  tid   := tid
  uid   := 0
  comm  := .ofBytes []
  ktime := 0
  junk  := .zeros 128

-- getpid
def enter (k : Kernel) : Kernel :=
  k.tpSysEnter .x86_64 (thread 7) ⟨39, .replicate 6 0⟩ ⟨fun _ => none, fun _ => none⟩

def observed : Kernel :=
  { Kernel.empty with config := ⟨7, 32, 0, .zeros 16⟩ }

-- Two system calls of the main thread, then the exit of another one, which deletes the entry, and one more call.
def beforeExit : Kernel :=
  enter (enter observed)

def afterExit : Kernel :=
  enter (beforeExit.tpExit <| thread 8)

theorem entries_beforeExit : beforeExit.processStats.toList = [(7, { syscallCount := 2 })] := by
  decide

theorem entries_afterExit : afterExit.processStats.toList = [(7, { syscallCount := 1 })] := by
  decide

-- The second iteration reports a rate of 2 ^ 64 - 1 instead of 1.
theorem not_always_neverWraps : 
    ¬Execution.Always tick NeverWraps (.new 0) 
      [⟨beforeExit.processStats.toList, 1⟩, ⟨afterExit.processStats.toList, 1⟩] := by
  rw [entries_beforeExit, entries_afterExit]
  intro h
  have hp : ¬(1 : ℚ) ≤ 0 := not_le.mpr one_pos
  have hm := neverWraps_iff_monotone.mp h.right.left one_pos 
    ({ syscallCount := 2 }, { syscallCount := 1 }) 
    (by simp [visits, tick, LiveState.readProcessStats, LiveState.readProcessStats.next, hp]) 
    .syscalls
  exact absurd hm (by decide)

end Restart
end EbpfAgent
