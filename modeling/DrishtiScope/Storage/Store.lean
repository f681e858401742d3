import DrishtiScope.Config.Validate
import DrishtiScope.Go.Strconv
import DrishtiScope.Storage.SQLite

open Go

-- The queries of the store.
namespace Storage

structure SnapshotHistoryPoint where
  id       : Int
  t        : Int
  comm     : Bytes
  pid      : Int
  cpuPct   : ℚ
  threads  : Int
  rssBytes : Int
  openFDs  : Int
  syscallS : ℚ
  errS     : ℚ
  netTxBps : ℚ
  netRxBps : ℚ
  diskRBps : ℚ
  diskWBps : ℚ
  deriving DecidableEq

def SnapshotRecord.point (r : SnapshotRecord) : SnapshotHistoryPoint where
  id       := r.id
  t        := r.ts
  comm     := r.targetComm
  pid      := r.targetPid
  cpuPct   := r.cpuPct
  threads  := r.threads
  rssBytes := r.rssBytes
  openFDs  := r.openFDs
  syscallS := r.syscallsPerSec
  errS     := r.errSyscallsPerSec
  netTxBps := r.netBpsTx
  netRxBps := r.netBpsRx
  diskRBps := r.diskBpsR
  diskWBps := r.diskBpsW

-- The strings that JSON can contain: invalid bytes are replaced.
def jsonString (s : Bytes) : Bytes :=
  Bytes.encodeAll s.runes

-- An attribute after it has been encoded to JSON and decoded into an `interface{}`, where every number is
-- a float.
def jsonAttr : Agg.Attr → Agg.Attr
  | .str s   => .str (jsonString s)
  | .int n   => .float (float64 n)
  | .float x => .float x

def EventRecord.event (r : EventRecord) : Agg.EventRow :=
  { r.row with attrs := r.row.attrs.map fun p => (jsonString p.fst, jsonAttr p.snd) }

namespace DB

-- `… WHERE target_comm = ? ORDER BY id DESC LIMIT ?`, listed in the order of the ids.
def queryHistory [Unicode] (s : DB) (limit : Int) (comm : Bytes) : List SnapshotHistoryPoint :=
  let limit := Config.clampLimit limit 100 1000
  let rows :=
    if comm = [] then
      s.file.snapshots
    else
      s.file.snapshots.filter (·.targetComm = Config.sanitizeComm comm)
  ((rows.mergeSort fun a b => b.id ≤ a.id).take limit.toNat).reverse.map (·.point)

-- `… ORDER BY ts_unix DESC LIMIT ?`.
def queryEvents (s : DB) (limit : Int) : List Agg.EventRow :=
  let limit := Config.clampLimit limit 50 500
  ((s.file.events.mergeSort fun a b => b.tsUnix ≤ a.tsUnix).take limit.toNat).map (·.event)

end DB

-- The store of a running daemon. Without a database nothing is stored.
inductive Store
  | nop
  | sqlite (db : DB)

namespace Store

def queryHistory [Unicode] (s : Store) (out : Outcome) (limit : Int) (comm : Bytes) : 
    Except WriteError (List SnapshotHistoryPoint) :=
  match s with
  | nop       => .ok []
  | sqlite db => if out.executes then .ok (db.queryHistory limit comm) else .error .statement

def queryEvents (s : Store) (out : Outcome) (limit : Int) : Except WriteError (List Agg.EventRow) :=
  match s with
  | nop       => .ok []
  | sqlite db => if out.executes then .ok (db.queryEvents limit) else .error .statement

end Store
end Storage
