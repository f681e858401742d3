import DrishtiScope.Storage.Store

open Go

namespace Storage

-- The store that the tests use. The oldest entry comes first.
structure Memory where
  nextID    : Int
  snapshots : List SnapshotHistoryPoint
  events    : List Agg.EventRow
  maxSnap   : Nat
  maxEvt    : Nat

def newMemory : Memory where
  nextID    := 1
  snapshots := []
  events    := []
  maxSnap   := 5000
  maxEvt    := 5000

namespace Memory

def snapshotPoint (id nowMs : Int) (snap : Agg.Snapshot) : SnapshotHistoryPoint where
  id       := id
  t        := nowMs
  comm     := snap.info.target.comm
  pid      := snap.info.target.pid
  cpuPct   := snap.kpis.cpuPct
  threads  := snap.kpis.threads
  rssBytes := snap.kpis.rssBytes
  openFDs  := snap.kpis.openFDs
  syscallS := snap.kpis.syscallsPerSec
  errS     := snap.kpis.errSyscallsPerSec
  netTxBps := snap.kpis.netBpsTx
  netRxBps := snap.kpis.netBpsRx
  diskRBps := snap.kpis.diskBpsR
  diskWBps := snap.kpis.diskBpsW

-- The lists are cut in the way of `appendCapped`.
def recordSnapshot (m : Memory) (nowMs : Int) (snap : Option Agg.Snapshot) : Memory :=
  match snap with
  | none      => m
  | some snap =>
    { m with
      snapshots := Agg.appendCapped m.snapshots m.maxSnap (snapshotPoint m.nextID nowMs snap)
      nextID    := m.nextID + 1
    }

def recordEvent (m : Memory) (e : Agg.EventRow) : Memory :=
  { m with events := Agg.appendCapped m.events m.maxEvt e }

def queryHistory (m : Memory) (limit : Int) (comm : Bytes) : List SnapshotHistoryPoint :=
  let limit := Config.clampLimit limit 100 1000
  let filtered := m.snapshots.filter fun p => comm = [] || p.comm = comm
  filtered.drop (filtered.length - limit.toNat)

-- The newest event comes first.
def queryEvents (m : Memory) (limit : Int) : List Agg.EventRow :=
  let limit := Config.clampLimit limit 50 500
  let n := min m.events.length limit.toNat
  (m.events.drop (m.events.length - n)).reverse

end Memory
end Storage
