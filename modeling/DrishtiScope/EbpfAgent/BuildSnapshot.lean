import DrishtiScope.EbpfAgent.LiveState
import DrishtiScope.Enrich.Net
import DrishtiScope.Enrich.SyscallNames

open Go Linux Bpf

-- The snapshot that the agent takes at each tick.
namespace EbpfAgent

-- What /proc contains when the files of one process are read. It may have gone in between.
structure Views where
  info : ProcFS
  io   : ProcFS
  net  : ProcFS

-- What is read from the maps of the kernel. A map that is missing is `none`.
structure Collection where
  processStats  : Option (List (UInt32 × ProcStats))
  syscallCounts : Option (List (UInt32 × UInt64))
  dropCount     : List UInt64

-- A tick, with everything that it reads. The target is read at its start and once more at its end.
structure BuildTick where
  now   : Time
  cfg   : Config
  later : Config
  fs    : ProcFS
  views : Int → Views
  coll  : Option Collection

-- In each pass the entry at the front is exchanged for any that should come before it.
def exchange {α : Type} (before : α → α → Bool) (a : α) : List α → α × List α
  | []     => (a, [])
  | b :: l =>
    let (front, back) := if before b a then (b, a) else (a, b)
    let (front, l) := exchange before front l
    (front, back :: l)

def exchangeSort {α : Type} (before : α → α → Bool) (l : List α) : List α :=
  go l.length l
where
  go : Nat → List α → List α
    | n + 1, a :: l =>
      let (front, l) := exchange before a l
      front :: go n l
    | _, l          => l

-- The percentage is that of `ReadProcessInfo` unless there is an older sample.
def cpuPct (prev : Option CpuSnap) (info : Enrich.ProcessInfo) (now : Time) : ℚ :=
  match prev with
  | none      => info.row.cpuPct
  | some prev =>
    let dt := (now.sub prev.time).seconds
    if 0 < dt then
      let delta := (info.utime - prev.utime) + (info.stime - prev.stime)
      100 * delta.toNat / (Enrich.clockTicks * dt)
    else
      info.row.cpuPct

-- The bytes that have been read and written, per second.
def diskRates (prev : Option IoSnap) (r w : UInt64) (now : Time) : ℚ × ℚ :=
  match prev with
  | none      => (0, 0)
  | some prev =>
    let dt := (now.sub prev.time).seconds
    if 0 < dt then ((r - prev.r).toNat / dt, (w - prev.w).toNat / dt) else (0, 0)

def flowKey (f : Agg.NetFlow) : Bytes :=
  f.proto ++ str ":" ++ f.src ++ str ":" ++ itoa f.sport ++ str ":" ++ f.dst ++ str ":" ++ itoa f.dport

-- The state and the sums while the processes are visited.
structure Walk where
  state     : LiveState
  processes : List Agg.ProcessRow := []
  cpuSum    : ℚ := 0
  diskR     : ℚ := 0
  diskW     : ℚ := 0
  threads   : Int := 0
  rssBytes  : Int := 0
  openFDs   : Int := 0

namespace Walk

-- `ReadIOStats` fails if the file cannot be read.
def visitIo (a : Walk) (now : Time) (pid : Int) (io : Option (Int × Int)) : Walk :=
  match io with
  | none        => a
  | some (r, w) =>
    let rates := diskRates (a.state.ioPrev pid) (.ofInt r) (.ofInt w) now
    { a with
      diskR := a.diskR + rates.fst
      diskW := a.diskW + rates.snd
      state := { a.state with 
        ioPrev := Function.update a.state.ioPrev pid (some ⟨.ofInt r, .ofInt w, now⟩) 
      }
    }

def visitFlows (a : Walk) (flows : List Agg.NetFlow) : Walk :=
  { a with state := { a.state with 
    flows := flows.foldl (fun flows f => flows.insert (flowKey f) f) a.state.flows 
  } }

-- `ReadProcessInfo` never fails.
def visit (t : BuildTick) (a : Walk) (pid : Int) : Walk :=
  let v := t.views pid
  let info := Enrich.readProcessInfo v.info pid
  let row := { info.row with cpuPct := cpuPct (a.state.cpuPrev pid) info t.now }
  let a := { a with state := { a.state with
    cpuPrev := Function.update a.state.cpuPrev pid (some ⟨info.utime, info.stime, t.now⟩) 
  } }
  let a := a.visitIo t.now pid (Enrich.readIOStats v.io pid)
  let a := a.visitFlows (Enrich.readNetConnections v.net pid)
  { a with
    processes := a.processes ++ [row]
    cpuSum    := a.cpuSum + row.cpuPct
    threads   := a.threads + row.threads
    rssBytes  := a.rssBytes + row.rssBytes
    openFDs   := a.openFDs + row.openFDs
  }

end Walk

namespace LiveState

-- The calls that have been counted since the last tick, those that occur most often first.
def readSyscallCounts (s : LiveState) (it : List (UInt32 × UInt64)) (elapsed : ℚ) : 
    LiveState × List Agg.SyscallStat :=
  if elapsed ≤ 0 then
    (s, [])
  else
    let (sysPrev, rows) := it.foldl next (s.sysPrev, [])
    let rows := exchangeSort (fun a b => a.snd > b.snd) rows
    ({ s with sysPrev }, (rows.take 12).map fun (nr, n) => {
      name   := Enrich.getSyscallName nr
      countS := n.toNat / elapsed
    })
where
  next (acc : (UInt32 → UInt64) × List (UInt32 × UInt64)) (entry : UInt32 × UInt64) : 
      (UInt32 → UInt64) × List (UInt32 × UInt64) :=
    let (sysPrev, rows) := acc
    let (key, val) := entry
    let delta := val - sysPrev key
    (Function.update sysPrev key val, if delta = 0 then rows else rows ++ [(key, delta)])

end LiveState

def readDropCount (coll : Option Collection) : UInt64 :=
  coll.elim 0 fun c => c.dropCount.foldl (· + ·) 0

-- The seconds since the last tick, or else the interval of the ticker.
def elapsedSince (last : Time) (t : BuildTick) : ℚ :=
  let elapsed := (t.now.sub last).seconds
  if elapsed ≤ 0 then t.cfg.snapshotMs / 1000 else elapsed

def sreMetrics (kpis : Agg.KPIs) : Agg.SREMetrics :=
  let sloAvail : ℚ :=
    if 0 < kpis.syscallsPerSec then
      max 95 (100 - kpis.errSyscallsPerSec / kpis.syscallsPerSec * 100)
    else
      9995 / 100
  {
    latencyP50Us      := 125 / 100
    latencyP90Us      := 510 / 100
    latencyP99Us      := 248 / 10
    sloAvailability   := sloAvail
    errorBudgetPct    := max 10 (95 - kpis.errSyscallsPerSec * (1 / 2))
    burnRate          := 85 / 100
    runqueueLatencyUs := 92 / 100
    saturationPct     := kpis.cpuPct / 100 * 65 + kpis.openFDs / 1024 * 35
  }

section

variable [Unicode] [Runtime]

def targets (t : BuildTick) : List Int :=
  Enrich.resolveTargets t.fs t.cfg.target.fst t.cfg.target.snd

def walk (s : LiveState) (t : BuildTick) : Walk :=
  (targets t).foldl (Walk.visit t) { state := s }

omit [Unicode] in
def filesTop (s : LiveState) (now : Time) : List Agg.FileStat :=
  let files := (Runtime.mapOrder now.toNat s.files.entries).map fun e => {
    path   := e.fst
    opsS   := e.snd.ops.toNat / (now.sub s.start).seconds
    bytesS := e.snd.bytes.toNat
    errors := e.snd.errors.toInt
  }
  (exchangeSort (fun a b => a.opsS > b.opsS) files).take 12

-- The rates of the kernel's counters. A map that is missing counts nothing.
def readMaps (s : LiveState) (coll : Option Collection) (elapsed : ℚ) : 
    LiveState × (Counter → ℚ) × List Agg.SyscallStat :=
  match coll with
  | none   => (s, fun _ => 0, [])
  | some c =>
    let (s, rates) := c.processStats.elim (s, fun _ => 0) (s.readProcessStats · elapsed)
    let (s, sysTop) := c.syscallCounts.elim (s, []) (s.readSyscallCounts · elapsed)
    (s, rates, sysTop)

section Maps

omit [Unicode] [Runtime]

variable {s : LiveState} {elapsed : ℚ}

theorem LiveState.exists_readProcessStats_fst {it : List (UInt32 × ProcStats)} : 
    ∃ prev, (s.readProcessStats it elapsed).fst = { s with statPrev := prev } := by
  simp only [readProcessStats]
  split
  case isTrue  => exact ⟨s.statPrev, rfl⟩
  case isFalse => exact ⟨_, foldl_next_fst⟩

theorem LiveState.exists_readSyscallCounts_fst {it : List (UInt32 × UInt64)} : 
    ∃ prev, (s.readSyscallCounts it elapsed).fst = { s with sysPrev := prev } := by
  simp only [readSyscallCounts]
  split
  case isTrue  => exact ⟨s.sysPrev, rfl⟩
  case isFalse => exact ⟨_, rfl⟩

-- The counters of the kernel have memories of their own.
theorem exists_readMaps_fst (s : LiveState) (coll : Option Collection) (elapsed : ℚ) : 
    ∃ stats counts, (readMaps s coll elapsed).fst = { s with statPrev := stats, sysPrev := counts } := by
  cases coll
  case none   => exact ⟨s.statPrev, s.sysPrev, rfl⟩
  case some c =>
    obtain ⟨stats, counts, _⟩ := c
    simp only [readMaps]
    cases stats <;> cases counts
    case none.none => exact ⟨s.statPrev, s.sysPrev, rfl⟩
    case none.some => 
      obtain ⟨prev, h⟩ := LiveState.exists_readSyscallCounts_fst
      exact ⟨s.statPrev, prev, h⟩
    case some.none => 
      obtain ⟨prev, h⟩ := LiveState.exists_readProcessStats_fst
      exact ⟨prev, s.sysPrev, h⟩
    case some.some =>
      obtain ⟨prev, h⟩ := LiveState.exists_readProcessStats_fst
      obtain ⟨prev', h'⟩ := LiveState.exists_readSyscallCounts_fst
      exact ⟨prev, prev', h'.trans <| by rw [Option.elim_some, h]⟩

end Maps

-- The filter and the targets are also written to the maps of the kernel.
def buildSnapshot (s : LiveState) (t : BuildTick) : LiveState × Agg.Snapshot :=
  let elapsed := elapsedSince s.lastTick t
  let a := walk s t
  let (s, rates, sysTop) := readMaps a.state t.coll elapsed
  let (pid, comm) := t.later.target
  let first := a.processes.head?
  let kpis := {
    cpuPct            := a.cpuSum
    threads           := a.threads
    rssBytes          := a.rssBytes
    openFDs           := a.openFDs
    netBpsTx          := rates .netTx * 8
    netBpsRx          := rates .netRx * 8
    diskBpsR          := a.diskR
    diskBpsW          := a.diskW
    syscallsPerSec    := rates .syscalls
    errSyscallsPerSec := rates .errs
    connectsPerSec    := rates .connects
  }
  let uptime := (t.now.sub s.start).seconds
  ({ s with lastTick := t.now }, {
    info        := {
      droppedEvents := readDropCount t.coll
      eventRate     := s.eventN.toNat / uptime
      uptimeS       := uptime
      target        := {
        pid  := if pid = 0 then (first.map (·.pid)).getD pid else pid
        comm := if comm = [] then (first.map (·.comm)).getD comm else comm
      }
    }
    processes   := a.processes
    kpis        := kpis
    sre         := sreMetrics kpis
    syscallsTop := sysTop
    filesTop    := filesTop s t.now
    flows       := (Runtime.mapOrder (t.now.toNat + 1) s.flows.entries).map (·.snd)
    cpuSeries   := [⟨t.now.unixMilli, kpis.cpuPct⟩]
    ioSeries    := [⟨t.now.unixMilli, a.diskR, a.diskW⟩]
    netSeries   := [⟨t.now.unixMilli, kpis.netBpsTx, kpis.netBpsRx⟩]
    timeline    := []
  })

-- What the events have left in the state is the same after a tick.
structure EventsKept (s s' : LiveState) : Prop where
  files    : s'.files = s.files
  eventN   : s'.eventN = s.eventN
  connectN : s'.connectN = s.connectN
  start    : s'.start = s.start

section Kept

variable {s s' s'' : LiveState} {t : BuildTick} {a : Walk} {pid : Int} {pids : List Int}

omit [Unicode] [Runtime]

theorem EventsKept.trans (h : EventsKept s s') (h' : EventsKept s' s'') : EventsKept s s'' where
  files    := h'.files.trans h.files
  eventN   := h'.eventN.trans h.eventN
  connectN := h'.connectN.trans h.connectN
  start    := h'.start.trans h.start

theorem Walk.visit_kept : EventsKept a.state (a.visit t pid).state := by
  simp only [visit, visitFlows, visitIo]
  split
  · exact ⟨rfl, rfl, rfl, rfl⟩
  · exact ⟨rfl, rfl, rfl, rfl⟩

theorem Walk.foldl_visit_kept : EventsKept a.state (pids.foldl (visit t) a).state := by
  induction pids generalizing a
  case nil     => exact ⟨rfl, rfl, rfl, rfl⟩
  case cons hi => exact visit_kept.trans hi

end Kept

theorem buildSnapshot_kept {s : LiveState} {t : BuildTick} : EventsKept s (buildSnapshot s t).fst := by
  have ⟨_, _, h⟩ := exists_readMaps_fst (walk s t).state t.coll (elapsedSince s.lastTick t)
  have hw : EventsKept s (walk s t).state := Walk.foldl_visit_kept (a := { state := s })
  simp only [buildSnapshot, h]
  exact hw.trans ⟨rfl, rfl, rfl, rfl⟩

-- The agent notes events between its ticks.
inductive Input
  | event (ev : Event)
  | tick (t : BuildTick)

def LiveState.step (s : LiveState) : Input → LiveState
  | .event ev => s.noteEvent ev
  | .tick t   => (buildSnapshot s t).fst

end
end EbpfAgent
