import DrishtiScope.Lib.Execution
import DrishtiScope.RealEngine.Scan

open Go Linux

-- The I/O rates that the engine reports for a process that it watches.
namespace RealEngine.Rates

section Run

variable [Unicode] [Runtime] [Zone]

-- Beside the engine the state keeps the time of the last tick and the counters at that time.
structure State where
  engine : Engine
  cfg    : Config
  last   : Option (Time × IOCounters)

inductive Action
  | tick (t : Tick)
  | setTarget (pid : Int) (comm : Bytes)

def counters (fs : ProcFS) (pid : Int) : Option IOCounters :=
  (fs.find? pid).bind (·.io)

def step (pid : Int) (s : State) : Action → State
  | .setTarget pid comm => { s with cfg := (s.cfg.setTarget pid comm).toOption.getD s.cfg }
  | .tick t             =>
    let c := onTick s.engine s.cfg t
    { engine := c.engine, cfg := c.cfg, last := (counters t.fs pid).map (t.now, ·) }

def State.kpis (s : State) (t : Tick) : Agg.KPIs :=
  (onTick s.engine s.cfg t).snapshot.kpis

-- The seconds between two times.
def secondsSince (now last : Time) : ℚ :=
  ((now - last : Int) : ℚ) / 10 ^ 9

def delta (cur last : UInt64) : ℚ :=
  (cur.toNat : ℚ) - last.toNat

def syscallRate (now : Time) (io : IOCounters) (t₀ : Time) (io₀ : IOCounters) : ℚ :=
  (delta io.syscr io₀.syscr + delta io.syscw io₀.syscw) / secondsSince now t₀

-- The target is the process, which is running, 50 ms have passed since the last tick, and the counters
-- have not gone back.
def Watched (pid : Int) (s : State) : Action → Prop
  | .setTarget _ _ => True
  | .tick t        =>
    (onTick s.engine s.cfg t).snapshot.info.target.pid = pid ∧
    ∃ p ∈ t.fs.processes, p.pid = pid ∧ p.comm.isSome ∧ ∃ io, p.io = some io ∧ 
      ∀ t₀ io₀, s.last = some (t₀, io₀) → 
        1 / 20 < secondsSince t.now t₀ ∧ io₀.readBytes ≤ io.readBytes ∧ 
        io₀.writeBytes ≤ io.writeBytes ∧ io₀.syscr ≤ io.syscr ∧ io₀.syscw ≤ io.syscw

def TrueDeltas (pid : Int) (s : State) : Action → Prop
  | .setTarget _ _ => True
  | .tick t        =>
    ∀ t₀ io₀ io, s.last = some (t₀, io₀) → counters t.fs pid = some io → 
      (s.kpis t).diskBpsR = delta io.readBytes io₀.readBytes / secondsSince t.now t₀ ∧
      (s.kpis t).diskBpsW = delta io.writeBytes io₀.writeBytes / secondsSince t.now t₀ ∧
      (1 ≤ syscallRate t.now io t₀ io₀ → (s.kpis t).syscallsPerSec = syscallRate t.now io t₀ io₀)

-- Nothing has been read or written since the last tick, and the rate of system calls is less than one
-- or the one that is made up in this case.
def Idle (pid : Int) (s : State) : Action → Prop
  | .setTarget _ _ => True
  | .tick t        =>
    ∀ t₀ io₀ io, s.last = some (t₀, io₀) → counters t.fs pid = some io → 
      io.readBytes = io₀.readBytes ∧ io.writeBytes = io₀.writeBytes ∧
      (1 ≤ syscallRate t.now io t₀ io₀ → syscallRate t.now io t₀ io₀ = 29 / 2)

variable {e : Engine} {cfg : Config} {fs : ProcFS} {pid : Int} {now : Time} {s : State} {a : Action} 
         {t : Tick} {io : IOCounters} {p : Process} {as : List Action}

omit [Unicode] [Runtime] [Zone] in
-- The sample that the rates are based on has just been taken.
theorem readProcIo_of_fresh (hf : Fresh now e.procHistory pid) (hp : 0 < pid) 
    (hio : counters fs pid = some io) : 
    (readProcIo e fs pid now).snd = 
      { syscallsPerSec := 29 / 2, errSyscallsPerSec := 29 / 2 * (12 / 1000) } := by
  have ⟨x, hx, hn⟩ := hf
  have ⟨q, hq, hqio⟩ := Option.bind_eq_some_iff.mp hio
  have hr : ∀ cur, ioRates (e.procHistory pid) cur now = {} := by
    intro cur
    simp [ioRates, hx, hn]
  have hs : Enrich.readIOStats fs pid = 
      some (scanInt io.readBytes.toNat, scanInt io.writeBytes.toNat) := by
    simp [Enrich.readIOStats, hq, hqio]
  simp only [readProcIo, Int.not_le.mpr hp, if_false, hs, hr]
  norm_num

-- Whatever the process does, the engine reports that it is idle.
theorem collect_idle (hp : p ∈ t.fs.processes) (hc : p.comm.isSome) (hio : p.io = some io)
    (ht : (collect e cfg t).snapshot.info.target.pid = p.pid) : 
    (collect e cfg t).snapshot.kpis.diskBpsR = 0 ∧ (collect e cfg t).snapshot.kpis.diskBpsW = 0 ∧ 
    (collect e cfg t).snapshot.kpis.syscallsPerSec = 29 / 2 := by
  have hc' : (commOf p).isSome := by simpa [commOf, Process.commFile] using hc
  have hi : counters t.fs p.pid = some io := by simp [counters, t.fs.find?_of_mem hp, hio]
  rw [collect_target] at ht
  simp only at ht
  have hf := scanAllProcesses_fresh (e := e) hp hc' ht
  let history := (scanAllProcesses e t cfg.targetPid (targetComm cfg.targetComm)).procHistory
  have hr := readProcIo_of_fresh (e := { e with procHistory := history }) hf p.pid_pos hi
  simp only [collect_eq, measure, locatePid_eq]
  simp only [ht]
  exact ⟨by rw [hr], by rw [hr], by rw [hr]⟩

theorem kpis_of_watched (h : Watched pid s (.tick t)) : 
    (s.kpis t).diskBpsR = 0 ∧ (s.kpis t).diskBpsW = 0 ∧ (s.kpis t).syscallsPerSec = 29 / 2 := by
  have ⟨ht, p, hp, he, hc, io, hio, _⟩ := h
  exact collect_idle hp hc hio (ht.trans he.symm)

omit [Unicode] [Runtime] [Zone] in
theorem secondsSince_pos {t₀ : Time} (h : 1 / 20 < secondsSince now t₀) : 0 < secondsSince now t₀ :=
  lt_trans (by norm_num) h

omit [Unicode] [Runtime] [Zone] in
-- A rate is zero if the counter has not moved.
theorem zero_eq_delta_div_iff {cur last : UInt64} {x : ℚ} (hx : 0 < x) : 
    0 = delta cur last / x ↔ cur = last := by
  rw [eq_comm, div_eq_zero_iff, delta, sub_eq_zero, Nat.cast_inj, UInt64.toNat_inj]
  simp [hx.ne']

theorem trueDeltas_iff (h : Watched pid s a) : TrueDeltas pid s a ↔ Idle pid s a := by
  cases a
  case setTarget => exact Iff.rfl
  case tick t =>
    have ⟨hr, hw, hs⟩ := kpis_of_watched h
    have ⟨_, p, hp, he, _, io, hio, hl⟩ := h
    have hi : counters t.fs pid = some io := by
      simp [counters, ← he, t.fs.find?_of_mem hp, hio]
    simp only [TrueDeltas, Idle, hr, hw, hs, hi, Option.some.injEq]
    constructor
    case mp =>
      rintro h t₀ io₀ _ hs rfl
      have hx := secondsSince_pos (hl t₀ io₀ hs).left
      have ⟨h₁, h₂, h₃⟩ := h t₀ io₀ io hs rfl
      exact ⟨zero_eq_delta_div_iff hx |>.mp h₁, zero_eq_delta_div_iff hx |>.mp h₂, 
        fun hv => (h₃ hv).symm⟩
    case mpr =>
      rintro h t₀ io₀ _ hs rfl
      have hx := secondsSince_pos (hl t₀ io₀ hs).left
      have ⟨h₁, h₂, h₃⟩ := h t₀ io₀ io hs rfl
      exact ⟨zero_eq_delta_div_iff hx |>.mpr h₁, zero_eq_delta_div_iff hx |>.mpr h₂, 
        fun hv => (h₃ hv).symm⟩

-- The rates are the ones of the counters over a run if and only if the counters do not change.
theorem always_trueDeltas_iff (h : Execution.Always (step pid) (Watched pid) ⟨e, cfg, none⟩ as) : 
    Execution.Always (step pid) (TrueDeltas pid) ⟨e, cfg, none⟩ as ↔ 
      Execution.Always (step pid) (Idle pid) ⟨e, cfg, none⟩ as := by
  apply h.congr_of (I := fun _ => True) trivial
  case hk  => exact fun _ _ _ _ _ => trivial
  case hpq => exact fun s a _ hw => trueDeltas_iff hw

end Run

section Reader

attribute [local instance] Unicode.ascii Runtime.stable Zone.utcEpoch

-- A process that has read a number of bytes.
def reader (readBytes : UInt64) : Process where
  __ := Process.single 7 (.ofBytes <| str "agy") none (by decide)
  io := some ⟨0, 0, readBytes, 0⟩

def reading (seconds : Int) (readBytes : UInt64) : Action :=
  .tick {
    now  := Time.epoch + seconds * 10 ^ 9
    wall := Time.epoch + seconds * 10 ^ 9
    fs   := { processes := [reader readBytes], nodup := List.nodup_singleton _ }
  }

def config : Config :=
  Config.loadTarget 7 (str "agy")

variable {s : State} {readBytes : UInt64}

theorem watched_reading {seconds : Int} (hc : s.cfg = config) (h : ∀ t₀ io₀, s.last = some (t₀, io₀) → 
    1 / 20 < secondsSince (Time.epoch + seconds * 10 ^ 9) t₀ ∧ 
    io₀.readBytes ≤ readBytes ∧ io₀.writeBytes = 0 ∧ io₀.syscr = 0 ∧ io₀.syscw = 0) : 
    Watched 7 s (reading seconds readBytes) := by
  refine ⟨?_, reader readBytes, List.mem_singleton_self _, rfl, rfl, _, rfl, fun t₀ io₀ hl => ?_⟩
  · rw [onTick, collect_target, hc]
    rfl
  · have ⟨h₁, h₂, h₃, h₄, h₅⟩ := h t₀ io₀ hl
    rw [h₃, h₄, h₅]
    exact ⟨h₁, h₂, UInt64.le_refl _, UInt64.le_refl _, UInt64.le_refl _⟩

theorem step_reading (seconds : Int) (readBytes : UInt64) (hc : s.cfg = config) : 
    (step 7 s (reading seconds readBytes)).cfg = config ∧ 
    (step 7 s (reading seconds readBytes)).last = 
      some (Time.epoch + seconds * 10 ^ 9, ⟨0, 0, readBytes, 0⟩) := by
  simp only [step, reading, onTick, collect_cfg, hc]
  exact ⟨rfl, rfl⟩

theorem always_watched_reading (e : Engine) (readBytes : UInt64) : 
    Execution.Always (step 7) (Watched 7) ⟨e, config, none⟩ [reading 0 0, reading 1 readBytes] := by
  refine ⟨watched_reading rfl (by simp), ?_, trivial⟩
  have ⟨hc, hl⟩ := step_reading (s := ⟨e, config, none⟩) 0 0 rfl
  apply watched_reading hc
  rw [hl]
  rintro t₀ io₀ ⟨_⟩
  exact ⟨by norm_num [secondsSince], by simp, rfl, rfl, rfl⟩

-- A process that reads 1000 bytes in a second is reported to read nothing.
theorem not_always_trueDeltas_reading : 
    ¬(Execution.Always (step 7) (Watched 7) ⟨newEngine Time.epoch, config, none⟩ 
        [reading 0 0, reading 1 1000] → 
      Execution.Always (step 7) (TrueDeltas 7) ⟨newEngine Time.epoch, config, none⟩ 
        [reading 0 0, reading 1 1000]) := by
  intro h
  have ⟨_, ht, _⟩ := h <| always_watched_reading ..
  have ⟨_, hw, _⟩ := always_watched_reading (newEngine Time.epoch) 1000
  have ⟨hr, _⟩ := trueDeltas_iff hw |>.mp ht _ _ _ (step_reading 0 0 rfl).right rfl
  exact absurd hr (by decide)

theorem always_trueDeltas_iff_reading : 
    Execution.Always (step 7) (TrueDeltas 7) ⟨newEngine Time.epoch, config, none⟩ 
        [reading 0 0, reading 1 1000] ↔ 
      Execution.Always (step 7) (Idle 7) ⟨newEngine Time.epoch, config, none⟩ 
        [reading 0 0, reading 1 1000] :=
  always_trueDeltas_iff <| always_watched_reading ..

end Reader
end RealEngine.Rates
