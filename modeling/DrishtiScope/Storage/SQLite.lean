import DrishtiScope.Agg.Snapshot
import DrishtiScope.Lib.Retention

open Go

namespace Storage

def maxStoredSnapshots : Nat :=
  1000

def maxStoredEvents : Nat :=
  2000

def pruneEvery : UInt64 :=
  32

-- A row of the table `snapshots`. The JSON text is represented by what it encodes.
structure SnapshotRecord where
  id                : Int
  ts                : Int
  targetComm        : Bytes
  targetPid         : Int
  cpuPct            : ℚ
  threads           : Int
  rssBytes          : Int
  openFDs           : Int
  syscallsPerSec    : ℚ
  errSyscallsPerSec : ℚ
  netBpsTx          : ℚ
  netBpsRx          : ℚ
  diskBpsR          : ℚ
  diskBpsW          : ℚ
  raw               : Agg.Snapshot

-- A row of the table `events`, whose primary key is the id of the event.
structure EventRecord where
  row    : Agg.EventRow
  tsUnix : Int

-- The database file. Both tables list the newest row first; `sequence` is the last id that the table
-- of snapshots has given out.
structure Database where
  snapshots : List SnapshotRecord
  events    : List EventRecord
  sequence  : Int

def Database.empty : Database where
  snapshots := []
  events    := []
  sequence  := 0

-- An open handle of the file.
structure DB where
  writes       : UInt64
  lastSnapTime : Int
  file         : Database

-- `Open` creates the tables if they do not exist yet.
def openDB (file : Database) : DB where
  writes       := 0
  lastSnapTime := 0
  file         := file

inductive WriteError
  | encode
  | statement

-- Whether encoding to JSON and executing a statement succeed.
structure Outcome where
  encodes  : Bool := true
  executes : Bool := true

namespace DB

-- `DELETE … WHERE key IN (SELECT key … ORDER BY key DESC LIMIT -1 OFFSET max)` for either table.
def prune (s : DB) : DB :=
  { s with file := { s.file with
    snapshots := Retention.keepGreatest (·.id) maxStoredSnapshots s.file.snapshots
    events    := Retention.keepGreatest (·.tsUnix) maxStoredEvents s.file.events
  } }

-- The write at hand is one after which the tables are pruned.
def prunes (s : DB) : Bool :=
  (s.writes + 1) % pruneEvery = 0

def maybePrune (s : DB) : DB :=
  let s' := { s with writes := s.writes + 1 }
  if s.prunes then s'.prune else s'

-- At most one write in 1500 ms.
def throttles (s : DB) (nowMs : Int) : Bool :=
  0 < s.lastSnapTime ∧ nowMs - s.lastSnapTime < 1500

def snapshotRecord (id nowMs : Int) (snap : Agg.Snapshot) : SnapshotRecord where
  id                := id
  ts                := nowMs
  targetComm        := snap.info.target.comm
  targetPid         := snap.info.target.pid
  cpuPct            := snap.kpis.cpuPct
  threads           := snap.kpis.threads
  rssBytes          := snap.kpis.rssBytes
  openFDs           := snap.kpis.openFDs
  syscallsPerSec    := snap.kpis.syscallsPerSec
  errSyscallsPerSec := snap.kpis.errSyscallsPerSec
  netBpsTx          := snap.kpis.netBpsTx
  netBpsRx          := snap.kpis.netBpsRx
  diskBpsR          := snap.kpis.diskBpsR
  diskBpsW          := snap.kpis.diskBpsW
  raw               := { snap with timeline := [], cpuSeries := [], ioSeries := [], netSeries := [] }

def insertSnapshot (s : DB) (nowMs : Int) (snap : Agg.Snapshot) : DB :=
  let id := s.file.sequence + 1
  { s with file := { s.file with 
    snapshots := snapshotRecord id nowMs snap :: s.file.snapshots
    sequence  := id
  } }

def recordSnapshot (s : DB) (nowMs : Int) (out : Outcome) (snap : Option Agg.Snapshot) : 
    DB × Except WriteError Unit :=
  match snap with
  | none      => (s, .ok ())
  | some snap =>
    if s.throttles nowMs then
      (s, .ok ())
    else
      let s := { s with lastSnapTime := nowMs }
      if !out.encodes then
        (s, .error .encode)
      else if !out.executes then
        (s, .error .statement)
      else
        ((s.insertSnapshot nowMs snap).maybePrune, .ok ())

-- `INSERT OR REPLACE`.
def insertEvent (s : DB) (nowMs : Int) (e : Agg.EventRow) : DB :=
  { s with file := { s.file with
    events := ⟨e, nowMs⟩ :: s.file.events.filter (·.row.id ≠ e.id)
  } }

-- Attributes that cannot be encoded are stored as an empty object.
def recordEvent (s : DB) (nowMs : Int) (out : Outcome) (e : Agg.EventRow) : 
    DB × Except WriteError Unit :=
  let e := if out.encodes then e else { e with attrs := [] }
  if !out.executes then
    (s, .error .statement)
  else
    ((s.insertEvent nowMs e).maybePrune, .ok ())

variable {s : DB} {nowMs : Int} {snap : Agg.Snapshot} {e : Agg.EventRow}

@[simp]
theorem insertSnapshot_prunes : (s.insertSnapshot nowMs snap).prunes = s.prunes :=
  rfl

@[simp]
theorem insertEvent_prunes : (s.insertEvent nowMs e).prunes = s.prunes :=
  rfl

theorem maybePrune_of_prunes (h : s.prunes) : 
    s.maybePrune = { s with writes := s.writes + 1 }.prune := by
  simp [maybePrune, h]

theorem maybePrune_of_not_prunes (h : ¬s.prunes) : 
    s.maybePrune = { s with writes := s.writes + 1 } := by
  simp [maybePrune, h]

@[simp]
theorem lastSnapTime_maybePrune : s.maybePrune.lastSnapTime = s.lastSnapTime := by
  simp only [maybePrune]
  split <;> rfl

@[simp]
theorem sequence_maybePrune : s.maybePrune.file.sequence = s.file.sequence := by
  simp only [maybePrune]
  split <;> rfl

theorem recordSnapshot_none {out : Outcome} : s.recordSnapshot nowMs out none = (s, .ok ()) :=
  rfl

theorem recordSnapshot_throttled {out : Outcome} (h : s.throttles nowMs) : 
    s.recordSnapshot nowMs out snap = (s, .ok ()) := by
  simp [recordSnapshot, h]

theorem recordSnapshot_succeeds (h : ¬s.throttles nowMs) : 
    s.recordSnapshot nowMs {} snap = 
      (({ s with lastSnapTime := nowMs }.insertSnapshot nowMs snap).maybePrune, .ok ()) := by
  simp [recordSnapshot, h]

theorem recordEvent_succeeds : 
    s.recordEvent nowMs {} e = ((s.insertEvent nowMs e).maybePrune, .ok ()) := 
  rfl

theorem snapshots_maybePrune_sublist : s.maybePrune.file.snapshots.Sublist s.file.snapshots := by
  simp only [maybePrune]
  split
  case isTrue  => exact List.filter_sublist
  case isFalse => exact .refl _

end DB

-- The files that the calls on a store can leave behind, whichever of them fail.
inductive Database.Written : Database → Prop
  | empty : Written .empty
  | recordSnapshot {db : DB} (nowMs : Int) (out : Outcome) (snap : Option Agg.Snapshot) : 
    Written db.file → Written (db.recordSnapshot nowMs out snap).fst.file
  | recordEvent {db : DB} (nowMs : Int) (out : Outcome) (e : Agg.EventRow) : 
    Written db.file → Written (db.recordEvent nowMs out e).fst.file

namespace Database

-- The ids of the snapshots decrease, and the next one is larger than all of them.
structure Ordered (file : Database) : Prop where
  ids      : file.snapshots.Pairwise fun a b => b.id < a.id
  sequence : ∀ r ∈ file.snapshots, r.id ≤ file.sequence

variable {file : Database} {db : DB} {nowMs : Int} {snap : Agg.Snapshot}

theorem Ordered.maybePrune (h : db.file.Ordered) : db.maybePrune.file.Ordered where
  ids           := h.ids.sublist DB.snapshots_maybePrune_sublist
  sequence r hr := by
    rw [DB.sequence_maybePrune]
    exact h.sequence r <| DB.snapshots_maybePrune_sublist.subset hr

theorem Ordered.insertSnapshot (h : db.file.Ordered) : (db.insertSnapshot nowMs snap).file.Ordered where
  ids           := .cons (fun r hr => Int.lt_add_one_of_le <| h.sequence r hr) h.ids
  sequence r hr := by
    cases hr
    case head    => exact le_refl _
    case tail hr => exact Int.le_add_one <| h.sequence r hr

theorem Ordered.insertEvent {e : Agg.EventRow} (h : db.file.Ordered) : 
    (db.insertEvent nowMs e).file.Ordered where
  ids      := h.ids
  sequence := h.sequence

theorem Written.ordered (h : file.Written) : file.Ordered := by
  induction h
  case empty => 
    constructor
    case ids      => exact .nil
    case sequence => simp [Database.empty]
  case recordSnapshot db nowMs out snap _ hi =>
    simp only [DB.recordSnapshot]
    split
    case h_1 => exact hi
    case h_2 => 
      have hs : Ordered { db with lastSnapTime := nowMs }.file := hi
      split
      case isTrue  => exact hi
      case isFalse =>
        split
        case isTrue  => exact hi
        case isFalse =>
          split
          case isTrue  => exact hi
          case isFalse => exact hs.insertSnapshot.maybePrune
  case recordEvent db nowMs out e _ hi =>
    simp only [DB.recordEvent]
    split
    case isTrue  => exact hi
    case isFalse => exact hi.insertEvent.maybePrune

end Database
end Storage
