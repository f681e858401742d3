import DrishtiScope.EbpfAgent.BuildSnapshot
import DrishtiScope.Lib.Execution

open Go Linux Bpf

-- The rates of the processes, as differences of the samples that two ticks have taken.
namespace EbpfAgent

-- The clock ticks of a process in user mode and in the kernel.
def CpuSnap.total (c : CpuSnap) : Nat :=
  c.utime.toNat + c.stime.toNat

namespace Sampling

-- What a tick reads about a process. Nothing is read about its disk if the file cannot be read.
def cpuReading (t : BuildTick) (pid : Int) : CpuSnap :=
  let info := Enrich.readProcessInfo (t.views pid).info pid
  ⟨info.utime, info.stime, t.now⟩

def ioReading (t : BuildTick) (pid : Int) : Option IoSnap :=
  (Enrich.readIOStats (t.views pid).io pid).map fun io => ⟨.ofInt io.fst, .ofInt io.snd, t.now⟩

-- The percentage of a clock that a process has used since its previous sample.
def cpuRate (prev : Option CpuSnap) (cur : CpuSnap) : ℚ :=
  match prev with
  | none      => 0
  | some prev =>
    let dt := (cur.time.sub prev.time).seconds
    if 0 < dt ∧ prev.total ≤ cur.total then
      100 * (cur.total - prev.total : ℚ) / (Enrich.clockTicks * dt)
    else
      0

-- The increase of a counter of bytes in each second since the previous sample.
def byteRate (get : IoSnap → UInt64) (prev cur : Option IoSnap) : ℚ :=
  match prev, cur with
  | some prev, some cur =>
    let dt := (cur.time.sub prev.time).seconds
    if 0 < dt ∧ get prev ≤ get cur then
      ((get cur).toNat - (get prev).toNat : ℚ) / dt
    else
      0
  | _, _                => 0

section

variable [Unicode] [Runtime]

-- The state, and the ticks so far from the latest to the first.
structure Run where
  state : LiveState
  past  : List BuildTick

def Run.init (start : Time) : Run where
  state := .new start
  past  := []

def Run.step (r : Run) (i : Input) : Run where
  state := r.state.step i
  past  := match i with | .event _ => r.past | .tick t => t :: r.past

-- The previous sample of a process is that of the last tick that has visited it.
def lastCpu (past : List BuildTick) (pid : Int) : Option CpuSnap :=
  past.findSome? fun t => if pid ∈ targets t then some (cpuReading t pid) else none

def lastIo (past : List BuildTick) (pid : Int) : Option IoSnap :=
  past.findSome? fun t => if pid ∈ targets t then ioReading t pid else none

def snapshot (r : Run) (t : BuildTick) : Agg.Snapshot :=
  (buildSnapshot r.state t).snd

-- The rates of a snapshot are those of the samples.
structure Rated (r : Run) (t : BuildTick) : Prop where
  cpu   : (snapshot r t).processes.map (fun row => (row.pid, row.cpuPct)) = 
    (targets t).map fun pid => (pid, cpuRate (lastCpu r.past pid) (cpuReading t pid))
  read  : (snapshot r t).kpis.diskBpsR = 
    ((targets t).map fun pid => byteRate (·.r) (lastIo r.past pid) (ioReading t pid)).sum
  write : (snapshot r t).kpis.diskBpsW = 
    ((targets t).map fun pid => byteRate (·.w) (lastIo r.past pid) (ioReading t pid)).sum

end

-- The clock ticks have not decreased, unless by what an addition of `uint64` cannot tell from zero.
def TicksKept (prev cur : CpuSnap) : Prop :=
  (prev.total ≤ cur.total ∧ cur.total < prev.total + 2 ^ 64) ∨ prev.total = cur.total + 2 ^ 64

def BytesKept (prev cur : IoSnap) : Prop :=
  prev.r ≤ cur.r ∧ prev.w ≤ cur.w

section

variable [Unicode] [Runtime]

-- No counter of a process that is visited is smaller than at its previous sample.
structure Steady (r : Run) (t : BuildTick) : Prop where
  ticks : ∀ pid ∈ targets t, ∀ prev ∈ lastCpu r.past pid, 
    0 < (t.now.sub prev.time).seconds → TicksKept prev (cpuReading t pid)
  bytes : ∀ pid ∈ targets t, ∀ prev ∈ lastIo r.past pid, ∀ cur ∈ ioReading t pid, 
    0 < (t.now.sub prev.time).seconds → BytesKept prev cur

-- A condition on the steps that are ticks.
def AtTick (P : Run → BuildTick → Prop) (r : Run) : Input → Prop
  | .event _ => True
  | .tick t  => P r t

end

section Differences

variable {prev cur : CpuSnap}

-- The sum of two differences of `uint64` is the difference of the sums, up to a multiple of 2 ^ 64.
theorem toNat_delta : 
    ((cur.utime - prev.utime) + (cur.stime - prev.stime)).toNat = 
      (cur.total + (2 ^ 65 - prev.total)) % 2 ^ 64 := by
  have hu := prev.utime.toNat_lt
  have hs := prev.stime.toNat_lt
  simp only [UInt64.toNat_add, UInt64.toNat_sub, CpuSnap.total]
  omega

theorem toNat_delta_eq_iff : 
    ((cur.utime - prev.utime) + (cur.stime - prev.stime)).toNat = cur.total - prev.total ↔ 
      TicksKept prev cur := by
  have hu := prev.utime.toNat_lt
  have hs := prev.stime.toNat_lt
  have hu' := cur.utime.toNat_lt
  have hs' := cur.stime.toNat_lt
  rw [toNat_delta, TicksKept]
  simp only [CpuSnap.total]
  omega

-- The rate of the samples as the truncated difference of their totals.
theorem cpuRate_some (h : 0 < (cur.time.sub prev.time).seconds) : 
    cpuRate (some prev) cur = 
      100 * (cur.total - prev.total : Nat) / (Enrich.clockTicks * (cur.time.sub prev.time).seconds) := by
  by_cases ht : prev.total ≤ cur.total
  case pos => simp [cpuRate, h, ht, Nat.cast_sub ht]
  case neg => simp [cpuRate, ht, Nat.sub_eq_zero_of_le (not_le.mp ht).le]

theorem byteRate_some {get : IoSnap → UInt64} {p c : IoSnap} 
    (h : 0 < (c.time.sub p.time).seconds) : 
    byteRate get (some p) (some c) = 
      ((get c).toNat - (get p).toNat : Nat) / (c.time.sub p.time).seconds := by
  by_cases hg : get p ≤ get c
  case pos => simp [byteRate, h, hg, Nat.cast_sub (UInt64.le_iff_toNat_le.mp hg)]
  case neg =>
    have hl := (not_le.mp (mt UInt64.le_iff_toNat_le.mpr hg)).le
    simp [byteRate, hg, Nat.sub_eq_zero_of_le hl]

end Differences

-- What the source computes for a process from its samples.
section Rates

variable {t : BuildTick} {pid : Int} {prev : Option CpuSnap} {io : Option IoSnap}

def row (t : BuildTick) (pid : Int) (prev : Option CpuSnap) : Agg.ProcessRow :=
  let info := Enrich.readProcessInfo (t.views pid).info pid
  { info.row with cpuPct := cpuPct prev info t.now }

def ioRates (t : BuildTick) (pid : Int) (prev : Option IoSnap) : ℚ × ℚ :=
  (ioReading t pid).elim (0, 0) fun cur => diskRates prev cur.r cur.w t.now

theorem cpuPct_eq_iff : 
    (row t pid prev).cpuPct = cpuRate prev (cpuReading t pid) ↔ 
      ∀ p ∈ prev, 0 < (t.now.sub p.time).seconds → TicksKept p (cpuReading t pid) := by
  cases prev
  case none   => simp [row, cpuPct, cpuRate, Enrich.readProcessInfo]
  case some p =>
    by_cases ht : 0 < (t.now.sub p.time).seconds
    case neg => simp [row, cpuPct, cpuRate, Enrich.readProcessInfo, cpuReading, ht]
    case pos =>
      have hd : (Enrich.clockTicks : ℚ) * (t.now.sub p.time).seconds ≠ 0 :=
        mul_ne_zero (by norm_num [Enrich.clockTicks]) ht.ne'
      have hr : cpuRate (some p) (cpuReading t pid) = 
          100 * ((cpuReading t pid).total - p.total : Nat) / 
            (Enrich.clockTicks * (t.now.sub p.time).seconds) :=
        cpuRate_some ht
      simp only [row, cpuPct, hr, ht, ↓reduceIte, Option.mem_some_iff, forall_eq', forall_const]
      rw [div_left_inj' hd, mul_right_inj' (by norm_num), Nat.cast_inj]
      exact @toNat_delta_eq_iff p (cpuReading t pid)

theorem ioReading_time {cur : IoSnap} (h : ioReading t pid = some cur) : cur.time = t.now := by
  have ⟨_, _, he⟩ := Option.map_eq_some_iff.mp h
  rw [← he]

theorem byteRate_le {get : IoSnap → UInt64} {p cur : IoSnap} {dt : ℚ} 
    (hd : dt = (cur.time.sub p.time).seconds) (h : 0 < dt) : 
    byteRate get (some p) (some cur) ≤ (get cur - get p).toNat / dt ∧ 
      ((get cur - get p).toNat / dt = byteRate get (some p) (some cur) ↔ get p ≤ get cur) := by
  subst hd
  rw [byteRate_some h, div_left_inj' h.ne', Nat.cast_inj, toNat_sub_eq_iff]
  exact ⟨div_le_div_of_nonneg_right (Nat.cast_le.mpr sub_toNat_le) h.le, Iff.rfl⟩

theorem byteRate_eq_zero {get : IoSnap → UInt64} {p cur : IoSnap} 
    (h : ¬0 < (cur.time.sub p.time).seconds) : byteRate get (some p) (some cur) = 0 := by
  simp [byteRate, h]

-- There are two samples at a positive distance, or there is nothing to compare.
structure Idle (t : BuildTick) (pid : Int) (io : Option IoSnap) : Prop where
  rates   : ioRates t pid io = (0, 0)
  rated   : ∀ get : IoSnap → UInt64, byteRate get io (ioReading t pid) = 0
  samples : ∀ p ∈ io, ∀ cur ∈ ioReading t pid, ¬0 < (t.now.sub p.time).seconds

theorem ioRates_cases : 
    Idle t pid io ∨ ∃ p cur, io = some p ∧ ioReading t pid = some cur ∧ 
      0 < (t.now.sub p.time).seconds ∧ cur.time = t.now ∧ 
      ioRates t pid io = ((cur.r - p.r).toNat / (t.now.sub p.time).seconds, 
        (cur.w - p.w).toNat / (t.now.sub p.time).seconds) := by
  cases io
  case none => 
    refine .inl ⟨?_, fun _ => by simp [byteRate], nofun⟩
    cases h : ioReading t pid <;> simp [ioRates, diskRates, h]
  case some p =>
    cases h : ioReading t pid
    case none     => exact .inl ⟨by simp [ioRates, h], fun _ => by simp [byteRate, h], by simp [h]⟩
    case some cur =>
      have hn := ioReading_time h
      by_cases ht : 0 < (t.now.sub p.time).seconds
      case pos => exact .inr ⟨p, cur, rfl, rfl, ht, hn, by simp [ioRates, h, diskRates, ht]⟩
      case neg =>
        refine .inl ⟨by simp [ioRates, h, diskRates, ht], fun _ => ?_, by simpa [h] using ht⟩
        rw [h, byteRate_eq_zero (hn ▸ ht)]

theorem byteRate_le_ioRates : 
    byteRate (·.r) io (ioReading t pid) ≤ (ioRates t pid io).fst ∧ 
      byteRate (·.w) io (ioReading t pid) ≤ (ioRates t pid io).snd := by
  obtain h | ⟨p, cur, rfl, hc, ht, hn, hr⟩ := @ioRates_cases t pid io
  · simp [h.rates, h.rated]
  · rw [hr, hc]
    exact ⟨(byteRate_le (hn ▸ rfl) ht).left, (byteRate_le (hn ▸ rfl) ht).left⟩

theorem ioRates_eq_iff : 
    ((ioRates t pid io).fst = byteRate (·.r) io (ioReading t pid) ∧ 
      (ioRates t pid io).snd = byteRate (·.w) io (ioReading t pid)) ↔ 
      ∀ p ∈ io, ∀ cur ∈ ioReading t pid, 0 < (t.now.sub p.time).seconds → BytesKept p cur := by
  obtain h | ⟨p, cur, rfl, hc, ht, hn, hr⟩ := @ioRates_cases t pid io
  · simp only [h.rates, h.rated, and_self, true_iff]
    exact fun p hp cur hc ht => absurd ht <| h.samples p hp cur hc
  · simp only [hr, hc, ht, Option.mem_some_iff, forall_eq', forall_const]
    exact and_congr (byteRate_le (hn ▸ rfl) ht).right (byteRate_le (hn ▸ rfl) ht).right

end Rates

section Walk

variable {t : BuildTick} {a : Walk} {pid q : Int} {pids : List Int}

theorem visitIo_eq {now : Time} {io : Option (Int × Int)} : 
    a.visitIo now pid io = { a with
      diskR := a.diskR + (io.elim (0, 0) fun io => 
        diskRates (a.state.ioPrev pid) (.ofInt io.fst) (.ofInt io.snd) now).fst
      diskW := a.diskW + (io.elim (0, 0) fun io => 
        diskRates (a.state.ioPrev pid) (.ofInt io.fst) (.ofInt io.snd) now).snd
      state := { a.state with 
        ioPrev := Function.update a.state.ioPrev pid 
          ((io.map fun io => ⟨.ofInt io.fst, .ofInt io.snd, now⟩).or (a.state.ioPrev pid)) 
      }
    } := by
  cases io
  case none    => simp [Walk.visitIo]
  case some io => simp [Walk.visitIo]

theorem visit_cpuPrev : 
    (Walk.visit t a pid).state.cpuPrev = 
      Function.update a.state.cpuPrev pid (some (cpuReading t pid)) := by
  simp only [Walk.visit, Walk.visitFlows, visitIo_eq, cpuReading]

theorem visit_ioPrev : 
    (Walk.visit t a pid).state.ioPrev = 
      Function.update a.state.ioPrev pid ((ioReading t pid).or (a.state.ioPrev pid)) := by
  simp only [Walk.visit, Walk.visitFlows, visitIo_eq, ioReading]

theorem visit_processes : 
    (Walk.visit t a pid).processes = a.processes ++ [row t pid (a.state.cpuPrev pid)] := by
  simp only [Walk.visit, Walk.visitFlows, visitIo_eq, row]

theorem visit_disk : 
    (Walk.visit t a pid).diskR = a.diskR + (ioRates t pid (a.state.ioPrev pid)).fst ∧
      (Walk.visit t a pid).diskW = a.diskW + (ioRates t pid (a.state.ioPrev pid)).snd := by
  simp only [Walk.visit, Walk.visitFlows, visitIo_eq, ioRates, ioReading, Option.elim_map, 
    Function.comp_def, and_self]

theorem visit_of_ne (h : q ≠ pid) : 
    (Walk.visit t a pid).state.cpuPrev q = a.state.cpuPrev q ∧ 
      (Walk.visit t a pid).state.ioPrev q = a.state.ioPrev q := by
  simp [visit_cpuPrev, visit_ioPrev, h]

-- Each process is visited once, so its previous sample is the one from before the walk.
theorem map_visit {β : Type} (f : Int → Option CpuSnap → Option IoSnap → β) (h : pid ∉ pids) : 
    pids.map (fun q => f q ((Walk.visit t a pid).state.cpuPrev q) 
      ((Walk.visit t a pid).state.ioPrev q)) = 
      pids.map fun q => f q (a.state.cpuPrev q) (a.state.ioPrev q) := by
  apply List.map_congr_left
  intro q hq
  have hn : q ≠ pid := ne_of_mem_of_not_mem hq h
  simp only [visit_of_ne hn]

theorem foldl_visit_processes (h : pids.Nodup) : 
    (pids.foldl (Walk.visit t) a).processes = 
      a.processes ++ pids.map fun q => row t q (a.state.cpuPrev q) := by
  induction pids generalizing a
  case nil => simp
  case cons pid pids hi =>
    have hn := List.nodup_cons.mp h
    rw [List.foldl_cons, hi hn.right, visit_processes, 
      map_visit (fun q cpu _ => row t q cpu) hn.left]
    simp

theorem foldl_visit_disk (h : pids.Nodup) : 
    (pids.foldl (Walk.visit t) a).diskR = 
      a.diskR + (pids.map fun q => (ioRates t q (a.state.ioPrev q)).fst).sum ∧ 
    (pids.foldl (Walk.visit t) a).diskW = 
      a.diskW + (pids.map fun q => (ioRates t q (a.state.ioPrev q)).snd).sum := by
  induction pids generalizing a
  case nil => simp
  case cons pid pids hi =>
    have hn := List.nodup_cons.mp h
    have ⟨hr, hw⟩ := @hi (Walk.visit t a pid) hn.right
    rw [List.foldl_cons, hr, hw, visit_disk.left, visit_disk.right, 
      map_visit (fun q _ io => (ioRates t q io).fst) hn.left, 
      map_visit (fun q _ io => (ioRates t q io).snd) hn.left]
    simp [add_assoc]

-- The walk remembers what it has read.
theorem foldl_visit_samples {β : Type} (samples : Walk → Int → Option β) (reading : Int → Option β) 
    (h : ∀ a pid, samples (Walk.visit t a pid) = 
      Function.update (samples a) pid ((reading pid).or (samples a pid))) : 
    samples (pids.foldl (Walk.visit t) a) q = 
      (if q ∈ pids then reading q else none).or (samples a q) := by
  induction pids generalizing a
  case nil => simp
  case cons pid pids hi =>
    rw [List.foldl_cons, hi, h]
    by_cases hq : q = pid <;> by_cases hm : q ∈ pids <;> simp_all [← Option.or_assoc]

theorem foldl_visit_cpuPrev : 
    (pids.foldl (Walk.visit t) a).state.cpuPrev q = 
      (if q ∈ pids then some (cpuReading t q) else none).or (a.state.cpuPrev q) :=
  foldl_visit_samples (fun a => a.state.cpuPrev) (some <| cpuReading t ·) fun _ _ => visit_cpuPrev

theorem foldl_visit_ioPrev : 
    (pids.foldl (Walk.visit t) a).state.ioPrev q = 
      (if q ∈ pids then ioReading t q else none).or (a.state.ioPrev q) :=
  foldl_visit_samples (fun a => a.state.ioPrev) (ioReading t) fun _ _ => visit_ioPrev

end Walk

section Maps

variable {s : LiveState} {elapsed : ℚ}

theorem readMaps_samples {coll : Option Collection} : 
    (readMaps s coll elapsed).fst.cpuPrev = s.cpuPrev ∧ 
      (readMaps s coll elapsed).fst.ioPrev = s.ioPrev := by
  obtain ⟨_, _, h⟩ := exists_readMaps_fst s coll elapsed
  rw [h]
  exact ⟨rfl, rfl⟩

end Maps

section Run

variable [Unicode] [Runtime] {r : Run} {t : BuildTick} {pid : Int} {start : Time} {es : List Input}

-- The state remembers the sample of the last tick that has visited a process.
def Remembers (r : Run) : Prop :=
  ∀ pid, r.state.cpuPrev pid = lastCpu r.past pid ∧ r.state.ioPrev pid = lastIo r.past pid

theorem targets_nodup : (targets t).Nodup :=
  Enrich.resolveTargets_nodup

theorem buildSnapshot_samples {s : LiveState} : 
    (buildSnapshot s t).fst.cpuPrev = (walk s t).state.cpuPrev ∧ 
      (buildSnapshot s t).fst.ioPrev = (walk s t).state.ioPrev := by
  simp only [buildSnapshot, readMaps_samples, and_self]

omit [Unicode] [Runtime] in
theorem noteEvent_samples {s : LiveState} {ev : Event} : 
    (s.noteEvent ev).cpuPrev = s.cpuPrev ∧ (s.noteEvent ev).ioPrev = s.ioPrev := by
  simp only [LiveState.noteEvent, LiveState.noteOpen, LiveState.noteConnect]
  split
  · simp
  · split
    · split <;> simp
    · simp

theorem Remembers.init : Remembers (.init start) :=
  fun _ => ⟨rfl, rfl⟩

theorem Remembers.step {i : Input} (h : Remembers r) : Remembers (r.step i) := by
  intro pid
  have ⟨hc, hi⟩ := h pid
  cases i
  case event ev => simpa only [Run.step, LiveState.step, noteEvent_samples] using h pid
  case tick t   =>
    simp only [Run.step, LiveState.step, buildSnapshot_samples, walk, foldl_visit_cpuPrev, foldl_visit_ioPrev, 
      lastCpu, lastIo, List.findSome?_cons, hc, hi]
    by_cases hm : pid ∈ targets t
    case neg => simp [hm]
    case pos => cases ioReading t pid <;> simp [hm]

theorem snapshot_processes : 
    (snapshot r t).processes = (targets t).map fun pid => row t pid (r.state.cpuPrev pid) := by
  simp only [snapshot, buildSnapshot, walk, foldl_visit_processes targets_nodup, List.nil_append]

theorem snapshot_disk : 
    (snapshot r t).kpis.diskBpsR = 
      ((targets t).map fun pid => (ioRates t pid (r.state.ioPrev pid)).fst).sum ∧ 
    (snapshot r t).kpis.diskBpsW = 
      ((targets t).map fun pid => (ioRates t pid (r.state.ioPrev pid)).snd).sum := by
  simp only [snapshot, buildSnapshot, walk, foldl_visit_disk targets_nodup, zero_add, and_self]

theorem cpu_iff (h : Remembers r) : 
    (snapshot r t).processes.map (fun row => (row.pid, row.cpuPct)) = 
      (targets t).map (fun pid => (pid, cpuRate (lastCpu r.past pid) (cpuReading t pid))) ↔ 
      ∀ pid ∈ targets t, ∀ prev ∈ lastCpu r.past pid, 
        0 < (t.now.sub prev.time).seconds → TicksKept prev (cpuReading t pid) := by
  simp only [snapshot_processes, List.map_map, List.map_inj_left, Function.comp_apply, Prod.mk.injEq, 
    (h _).left, ← cpuPct_eq_iff]
  exact forall₂_congr fun _ _ => and_iff_right rfl

-- No process makes up for another, as no rate is too small.
theorem disk_iff (h : Remembers r) : 
    (snapshot r t).kpis.diskBpsR = 
      ((targets t).map fun pid => byteRate (·.r) (lastIo r.past pid) (ioReading t pid)).sum ∧
    (snapshot r t).kpis.diskBpsW = 
      ((targets t).map fun pid => byteRate (·.w) (lastIo r.past pid) (ioReading t pid)).sum ↔
      ∀ pid ∈ targets t, ∀ prev ∈ lastIo r.past pid, ∀ cur ∈ ioReading t pid, 
        0 < (t.now.sub prev.time).seconds → BytesKept prev cur := by
  simp only [snapshot_disk, (h _).right]
  rw [sum_map_eq_iff fun _ _ => byteRate_le_ioRates.left, 
    sum_map_eq_iff fun _ _ => byteRate_le_ioRates.right, ← forall₂_and]
  exact forall₂_congr fun _ _ => ioRates_eq_iff

theorem rated_iff_steady (h : Remembers r) : Rated r t ↔ Steady r t where
  mp hr := {
    ticks := cpu_iff h |>.mp hr.cpu
    bytes := disk_iff h |>.mp ⟨hr.read, hr.write⟩
  }
  mpr hs := {
    cpu   := cpu_iff h |>.mpr hs.ticks
    read  := disk_iff h |>.mpr hs.bytes |>.left
    write := disk_iff h |>.mpr hs.bytes |>.right
  }

-- In every history of ticks and events the rates are right if and only if no counter decreases.
theorem always_rated_iff_steady : 
    Execution.Always Run.step (AtTick Rated) (.init start) es ↔ 
      Execution.Always Run.step (AtTick Steady) (.init start) es := by
  apply Execution.Always.congr (I := Remembers)
  case hs  => exact Remembers.init
  case hk  => exact fun _ _ h _ => h.step
  case hpq =>
    intro r i h
    cases i
    case event _ => exact Iff.rfl
    case tick t  => exact rated_iff_steady h

end Run

section Vanished

attribute [local instance] Unicode.ascii Runtime.stable

-- A process that has used seven clock ticks.
def builder : Process :=
  .single 61 (.ofBytes <| str "make") 
    (some <| str "61 (make) S 1 61 61 0 -1 0 0 0 0 0 5 2 0 0 20 0 1 0 100 0 0") (by decide)

def building : ProcFS where
  processes := [builder]
  nodup     := List.nodup_singleton _

def empty : ProcFS where
  processes := []
  nodup     := List.nodup_nil

-- A tick that finds the process in `building` and then reads its files from `seen`.
def buildTick (now : Time) (seen : ProcFS) : BuildTick where
  now     := now
  cfg     := Config.loadTarget 61 (str "make")
  later   := Config.loadTarget 61 (str "make")
  fs      := building
  views _ := ⟨seen, seen, seen⟩
  coll    := none

def firstTick : BuildTick :=
  buildTick (Time.epoch + 1_000_000_000) building

def secondTick : BuildTick :=
  buildTick (Time.epoch + 2_000_000_000) empty

theorem mem_targets_secondTick : 61 ∈ targets secondTick := by
  decide +kernel

theorem lastCpu_firstTick : 
    lastCpu [firstTick] 61 = some ⟨5, 2, Time.epoch + 1_000_000_000⟩ := by
  decide +kernel

-- The process exits after it has been found, so zero clock ticks are read.
theorem not_always_rated : 
    ¬Execution.Always Run.step (AtTick Rated) (.init Time.epoch) 
      [.tick firstTick, .tick secondTick] := by
  intro h
  have hs := rated_iff_steady (Remembers.init.step (i := .tick firstTick)) |>.mp h.right.left
  have hk := hs.ticks 61 mem_targets_secondTick _ lastCpu_firstTick (by decide +kernel)
  revert hk
  simp only [TicksKept]
  decide +kernel

end Vanished

end Sampling
end EbpfAgent
