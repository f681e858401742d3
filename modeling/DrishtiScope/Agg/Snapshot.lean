import DrishtiScope.Go.Time

open Go

-- The data that the engines hand to the rest of the daemon. Floats are exact rationals.
namespace Agg

structure Target where
  pid  : Int
  comm : Bytes
  deriving DecidableEq

structure SnapshotMeta where
  droppedEvents : UInt64
  eventRate     : ℚ
  uptimeS       : ℚ
  target        : Target

structure ProcessRow where
  pid      : Int
  tgid     : Int   := 0
  ppid     : Int   := 0
  comm     : Bytes
  cmdline  : Bytes := []
  exe      : Bytes := []
  uid      : Int   := 0
  state    : Bytes := []
  threads  : Int   := 0
  cpuPct   : ℚ     := 0
  rssBytes : Int   := 0
  vmsBytes : Int   := 0
  openFDs  : Int   := 0
  ctxSw    : Int   := 0
  deriving DecidableEq

structure KPIs where
  cpuPct            : ℚ
  threads           : Int
  rssBytes          : Int
  openFDs           : Int
  netBpsTx          : ℚ
  netBpsRx          : ℚ
  diskBpsR          : ℚ
  diskBpsW          : ℚ
  syscallsPerSec    : ℚ
  errSyscallsPerSec : ℚ
  connectsPerSec    : ℚ
  deriving DecidableEq

structure SREMetrics where
  latencyP50Us      : ℚ
  latencyP90Us      : ℚ
  latencyP99Us      : ℚ
  sloAvailability   : ℚ
  errorBudgetPct    : ℚ
  burnRate          : ℚ
  runqueueLatencyUs : ℚ
  saturationPct     : ℚ
  deriving DecidableEq

structure SyscallStat where
  name    : Bytes
  countS  : ℚ
  errorsS : ℚ := 0
  deriving DecidableEq

structure FileStat where
  path   : Bytes
  opsS   : ℚ
  bytesS : ℚ
  errors : Int
  deriving DecidableEq

structure NetFlow where
  src     : Bytes
  dst     : Bytes
  sport   : Int   := 0
  dport   : Int
  proto   : Bytes
  state   : Bytes
  bytesTx : Int   := 0
  bytesRx : Int   := 0
  pid     : Int
  comm    : Bytes
  deriving DecidableEq

structure SeriesPoint where
  t      : Int
  cpuPct : ℚ
  deriving DecidableEq

structure IOPoint where
  t    : Int
  rbps : ℚ
  wbps : ℚ
  deriving DecidableEq

structure NetPoint where
  t     : Int
  txbps : ℚ
  rxbps : ℚ
  deriving DecidableEq

inductive Attr
  | str (s : Bytes)
  | int (n : Int)
  | float (x : ℚ)
  deriving DecidableEq

structure EventRow where
  id       : Bytes
  ts       : Bytes
  severity : Bytes
  category : Bytes
  pid      : Int
  comm     : Bytes
  title    : Bytes
  detail   : Bytes
  attrs    : List (Bytes × Attr)
  deriving DecidableEq

structure Snapshot where
  info        : SnapshotMeta
  processes   : List ProcessRow
  kpis        : KPIs
  sre         : SREMetrics
  syscallsTop : List SyscallStat
  filesTop    : List FileStat
  flows       : List NetFlow
  cpuSeries   : List SeriesPoint
  ioSeries    : List IOPoint
  netSeries   : List NetPoint
  timeline    : List EventRow

def emptySnapshot : Snapshot where
  info        := ⟨0, 0, 0, ⟨0, []⟩⟩
  processes   := []
  kpis        := ⟨0, 0, 0, 0, 0, 0, 0, 0, 0, 0, 0⟩
  sre         := ⟨0, 0, 0, 0, 0, 0, 0, 0⟩
  syscallsTop := []
  filesTop    := []
  flows       := []
  cpuSeries   := []
  ioSeries    := []
  netSeries   := []
  timeline    := []

-- Appends a point and drops the oldest ones.
def appendCapped {α : Type} (s : List α) (cap : Nat) (p : α) : List α :=
  let s := s ++ [p]
  if cap < s.length then s.drop (s.length - cap) else s

theorem appendCapped_eq {α : Type} {l : List α} {cap : Nat} {p : α} : 
    appendCapped (l.drop (l.length - cap)) cap p = (l ++ [p]).drop ((l ++ [p]).length - cap) := by
  have hl : (l.drop (l.length - cap)).length = min l.length cap := by 
    rw [List.length_drop]
    omega
  simp only [appendCapped, List.length_append, hl, List.length_singleton]
  by_cases h : l.length < cap
  case pos =>
    have h₁ : l.length - cap = 0 := by omega
    have h₂ : l.length + 1 - cap = 0 := by omega
    rw [if_neg (by omega), h₁, h₂, List.drop_zero, List.drop_zero]
  case neg =>
    rw [if_pos (by omega), ← List.drop_append_of_le_length (by omega), List.drop_drop]
    congr 1
    omega

-- What the engines have produced so far.
structure SnapshotBuilder where
  latest    : Option Snapshot
  cpuSeries : List SeriesPoint
  ioSeries  : List IOPoint
  netSeries : List NetPoint
  events    : List EventRow

namespace SnapshotBuilder

def newSnapshotBuilder : SnapshotBuilder where
  latest    := some emptySnapshot
  cpuSeries := []
  ioSeries  := []
  netSeries := []
  events    := []

-- Only the newest point of each series is taken over. The snapshot is changed in place; it is the second
-- result. A missing list is an empty one here.
def update (b : SnapshotBuilder) (s : Snapshot) : SnapshotBuilder × Snapshot :=
  let cpuSeries := s.cpuSeries.getLast?.elim b.cpuSeries (appendCapped b.cpuSeries 60)
  let ioSeries := s.ioSeries.getLast?.elim b.ioSeries (appendCapped b.ioSeries 60)
  let netSeries := s.netSeries.getLast?.elim b.netSeries (appendCapped b.netSeries 60)
  let s := { s with cpuSeries, ioSeries, netSeries, timeline := b.events }
  ({ b with latest := some s, cpuSeries, ioSeries, netSeries }, s)

def addEvent (b : SnapshotBuilder) (e : EventRow) : SnapshotBuilder :=
  let events := appendCapped b.events 300 e
  { b with events, latest := b.latest.map fun s => { s with timeline := events } }

-- `Latest`. The copy that it makes is the snapshot itself here.
def latestSnapshot (b : SnapshotBuilder) : Snapshot :=
  b.latest.getD emptySnapshot

end SnapshotBuilder
end Agg
