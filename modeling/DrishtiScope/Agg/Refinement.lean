import DrishtiScope.Agg.Snapshot
import DrishtiScope.Lib.Execution

open Go

-- What the snapshot builder is for, and the builder on slices that may be nil.
namespace Agg

-- The builder gets snapshots of either kind, with or without nil slices.
inductive Op (σ : Type)
  | update (s : σ)
  | addEvent (e : EventRow)

namespace Op

variable {σ τ : Type}

def update? : Op σ → Option σ
  | update s   => some s
  | addEvent _ => none

def event? : Op σ → Option EventRow
  | update _   => none
  | addEvent e => some e

def map (f : σ → τ) : Op σ → Op τ
  | update s   => update (f s)
  | addEvent e => addEvent e

@[simp]
theorem update?_update {s : σ} : (update s).update? = some s := rfl

@[simp]
theorem update?_addEvent {e : EventRow} : (addEvent e : Op σ).update? = none := rfl

@[simp]
theorem event?_update {s : σ} : (update s).event? = none := rfl

@[simp]
theorem event?_addEvent {e : EventRow} : (addEvent e : Op σ).event? = some e := rfl

end Op

def lastN {α : Type} (n : Nat) (l : List α) : List α :=
  l.drop (l.length - n)

-- The newest points of a series, one for each update that has any.
def newest {α : Type} (series : Snapshot → List α) (ops : List (Op Snapshot)) : List α :=
  ops.filterMap fun op => op.update?.bind fun s => (series s).getLast?

-- The snapshot that a sequence of calls should leave behind.
def spec (ops : List (Op Snapshot)) : Snapshot :=
  { (ops.filterMap Op.update?).getLast?.getD emptySnapshot with
    cpuSeries := lastN 60 (newest Snapshot.cpuSeries ops)
    ioSeries  := lastN 60 (newest Snapshot.ioSeries ops)
    netSeries := lastN 60 (newest Snapshot.netSeries ops)
    timeline  := lastN 300 (ops.filterMap Op.event?)
  }

namespace SnapshotBuilder

def step (b : SnapshotBuilder) : Op Snapshot → SnapshotBuilder
  | .update s   => (b.update s).fst
  | .addEvent e => b.addEvent e

-- The stored snapshot agrees with the rings, and the rings with the history.
def ofHistory (ops : List (Op Snapshot)) : SnapshotBuilder where
  latest    := some (spec ops)
  cpuSeries := lastN 60 (newest Snapshot.cpuSeries ops)
  ioSeries  := lastN 60 (newest Snapshot.ioSeries ops)
  netSeries := lastN 60 (newest Snapshot.netSeries ops)
  events    := lastN 300 (ops.filterMap Op.event?)

variable {ops : List (Op Snapshot)} {s : Snapshot} {e : EventRow} {α : Type} 
         {series : Snapshot → List α}

theorem newest_update : 
    lastN 60 (newest series (ops ++ [.update s])) = 
      (series s).getLast?.elim (lastN 60 (newest series ops)) 
        (appendCapped (lastN 60 (newest series ops)) 60) := by
  rw [newest, List.filterMap_append]
  cases h : (series s).getLast?
  case none   => simp [h, newest]
  case some p => simp [h, newest, lastN, appendCapped_eq]

theorem newest_addEvent : newest series (ops ++ [.addEvent e]) = newest series ops := by
  simp [newest]

theorem step_update : (ofHistory ops).step (.update s) = ofHistory (ops ++ [.update s]) := by
  simp only [step, update, ofHistory, newest_update, spec]
  simp [List.filterMap_cons]

theorem events_addEvent : 
    lastN 300 ((ops ++ [Op.addEvent e]).filterMap Op.event?) = 
      appendCapped (lastN 300 (ops.filterMap Op.event?)) 300 e := by
  rw [List.filterMap_append, lastN, lastN, appendCapped_eq]
  rfl

theorem step_addEvent : (ofHistory ops).step (.addEvent e) = ofHistory (ops ++ [.addEvent e]) := by
  have hu : (ops ++ [Op.addEvent e]).filterMap Op.update? = ops.filterMap Op.update? := by 
    simp [List.filterMap_cons]
  simp only [step, addEvent, ofHistory, spec, newest_addEvent, events_addEvent, Option.map_some, hu]

theorem exec_eq_ofHistory : Execution.exec step newSnapshotBuilder ops = ofHistory ops := by
  induction ops using List.reverseRecOn
  case nil => rfl
  case append_singleton ops op hi =>
    rw [Execution.exec_concat, hi]
    cases op
    case update   => exact step_update
    case addEvent => exact step_addEvent

end SnapshotBuilder

-- A slice that may be nil.
abbrev Slice (α : Type) := Option (List α)

namespace Slice

variable {α : Type} {s : Slice α} {xs : List α} {p : α} {cap : Nat}

def elems (s : Slice α) : List α :=
  s.getD []

-- Appending nothing to nil is nil.
def append (s : Slice α) (xs : List α) : Slice α :=
  if s = none ∧ xs = [] then none else some (s.elems ++ xs)

def appendCapped (s : Slice α) (cap : Nat) (p : α) : Slice α :=
  let s := s.append [p]
  if cap < s.elems.length then Option.map (·.drop (s.elems.length - cap)) s else s

theorem elems_append : (s.append xs).elems = s.elems ++ xs := by
  simp only [append]
  split
  case isTrue h  => simp [h.left, h.right, elems]
  case isFalse   => rfl

theorem elems_appendCapped : (s.appendCapped cap p).elems = Agg.appendCapped s.elems cap p := by
  simp only [appendCapped, Agg.appendCapped, elems_append]
  have hs : s.append [p] = some (s.elems ++ [p]) := by simp [append]
  split
  case isTrue  => rw [hs]; rfl
  case isFalse => exact elems_append

-- A copy that starts from an empty slice is not nil.
theorem append_empty : Slice.append (some []) xs = some xs := by
  simp [append, elems]

end Slice

-- A snapshot as the code has it.
structure RawSnapshot where
  info        : SnapshotMeta
  processes   : Slice ProcessRow
  kpis        : KPIs
  sre         : SREMetrics
  syscallsTop : Slice SyscallStat
  filesTop    : Slice FileStat
  flows       : Slice NetFlow
  cpuSeries   : Slice SeriesPoint
  ioSeries    : Slice IOPoint
  netSeries   : Slice NetPoint
  timeline    : Slice EventRow

namespace RawSnapshot

-- What a snapshot consists of, whether or not its empty slices are nil.
def toSnapshot (s : RawSnapshot) : Snapshot where
  info        := s.info
  processes   := s.processes.elems
  kpis        := s.kpis
  sre         := s.sre
  syscallsTop := s.syscallsTop.elems
  filesTop    := s.filesTop.elems
  flows       := s.flows.elems
  cpuSeries   := s.cpuSeries.elems
  ioSeries    := s.ioSeries.elems
  netSeries   := s.netSeries.elems
  timeline    := s.timeline.elems

-- The snapshot without nil slices.
def ofSnapshot (s : Snapshot) : RawSnapshot where
  info        := s.info
  processes   := some s.processes
  kpis        := s.kpis
  sre         := s.sre
  syscallsTop := some s.syscallsTop
  filesTop    := some s.filesTop
  flows       := some s.flows
  cpuSeries   := some s.cpuSeries
  ioSeries    := some s.ioSeries
  netSeries   := some s.netSeries
  timeline    := some s.timeline

def emptySnapshot : RawSnapshot where
  info        := ⟨0, 0, 0, ⟨0, []⟩⟩
  processes   := some []
  kpis        := ⟨0, 0, 0, 0, 0, 0, 0, 0, 0, 0, 0⟩
  sre         := ⟨0, 0, 0, 0, 0, 0, 0, 0⟩
  syscallsTop := some []
  filesTop    := some []
  flows       := some []
  cpuSeries   := some []
  ioSeries    := some []
  netSeries   := some []
  timeline    := some []

def cloneSnapshot : Option RawSnapshot → RawSnapshot
  | none   => emptySnapshot
  | some s => { s with
      processes   := Slice.append (some []) s.processes.elems
      syscallsTop := Slice.append (some []) s.syscallsTop.elems
      filesTop    := Slice.append (some []) s.filesTop.elems
      flows       := Slice.append (some []) s.flows.elems
      cpuSeries   := Slice.append (some []) s.cpuSeries.elems
      ioSeries    := Slice.append (some []) s.ioSeries.elems
      netSeries   := Slice.append (some []) s.netSeries.elems
      timeline    := Slice.append (some []) s.timeline.elems
    }

theorem cloneSnapshot_some {s : RawSnapshot} : cloneSnapshot (some s) = ofSnapshot s.toSnapshot := by
  simp only [cloneSnapshot, Slice.append_empty]
  rfl

end RawSnapshot

structure RawBuilder where
  latest    : Option RawSnapshot
  cpuSeries : Slice SeriesPoint
  ioSeries  : Slice IOPoint
  netSeries : Slice NetPoint
  events    : Slice EventRow

namespace RawBuilder

def newSnapshotBuilder : RawBuilder where
  latest    := some .emptySnapshot
  cpuSeries := some []
  ioSeries  := some []
  netSeries := some []
  events    := some []

def update (b : RawBuilder) (s : RawSnapshot) : RawBuilder :=
  let cpuSeries := s.cpuSeries.elems.getLast?.elim b.cpuSeries (b.cpuSeries.appendCapped 60)
  let ioSeries := s.ioSeries.elems.getLast?.elim b.ioSeries (b.ioSeries.appendCapped 60)
  let netSeries := s.netSeries.elems.getLast?.elim b.netSeries (b.netSeries.appendCapped 60)
  let s := { s with 
    cpuSeries   := Slice.append none cpuSeries.elems
    ioSeries    := Slice.append none ioSeries.elems
    netSeries   := Slice.append none netSeries.elems
    timeline    := Slice.append none b.events.elems
    processes   := if s.processes = none then some [] else s.processes
    syscallsTop := if s.syscallsTop = none then some [] else s.syscallsTop
    filesTop    := if s.filesTop = none then some [] else s.filesTop
    flows       := if s.flows = none then some [] else s.flows
  }
  { b with latest := some s, cpuSeries, ioSeries, netSeries }

def addEvent (b : RawBuilder) (e : EventRow) : RawBuilder :=
  let events := b.events.appendCapped 300 e
  { b with 
    events := events
    latest := b.latest.map fun s => { s with timeline := Slice.append none events.elems } 
  }

-- `Latest`.
def latestSnapshot (b : RawBuilder) : RawSnapshot :=
  .cloneSnapshot b.latest

def step (b : RawBuilder) : Op RawSnapshot → RawBuilder
  | .update s   => b.update s
  | .addEvent e => b.addEvent e

def toBuilder (b : RawBuilder) : SnapshotBuilder where
  latest    := b.latest.map RawSnapshot.toSnapshot
  cpuSeries := b.cpuSeries.elems
  ioSeries  := b.ioSeries.elems
  netSeries := b.netSeries.elems
  events    := b.events.elems

variable {b : RawBuilder} {s : RawSnapshot} {e : EventRow} {op : Op RawSnapshot} 
         {ops : List (Op RawSnapshot)}

theorem elems_newest {α : Type} {ring : Slice α} {p : Option α} : 
    (p.elim ring (ring.appendCapped 60)).elems = p.elim ring.elems (Agg.appendCapped ring.elems 60) := by
  cases p
  case none   => rfl
  case some p => exact Slice.elems_appendCapped

theorem elems_nonNil {α : Type} {s : Slice α} : 
    (if s = none then some [] else s : Slice α).elems = s.elems := by
  cases s <;> rfl

-- Nil slices aside, the builder does what it does on lists.
theorem toBuilder_step : 
    (b.step op).toBuilder = b.toBuilder.step (op.map RawSnapshot.toSnapshot) := by
  cases op
  case update s   => 
    simp only [step, update, toBuilder, Op.map, SnapshotBuilder.step, SnapshotBuilder.update, 
      RawSnapshot.toSnapshot, elems_newest, elems_nonNil, Slice.elems_append, Option.map_some]
    rfl
  case addEvent e => 
    simp only [step, addEvent, toBuilder, Op.map, SnapshotBuilder.step, SnapshotBuilder.addEvent, 
      Option.map_map, Function.comp_def, RawSnapshot.toSnapshot, Slice.elems_append, 
      Slice.elems_appendCapped]
    rfl

theorem toBuilder_exec : 
    (Execution.exec step b ops).toBuilder = 
      Execution.exec SnapshotBuilder.step b.toBuilder (ops.map <| Op.map RawSnapshot.toSnapshot) := by
  induction ops generalizing b
  case nil         => rfl
  case cons _ _ hi => rw [Execution.exec_cons, List.map_cons, Execution.exec_cons, hi, toBuilder_step]

-- After every sequence of calls, the latest snapshot is what it should be, and none of its slices is nil.
theorem latestSnapshot_eq_spec : 
    (Execution.exec step newSnapshotBuilder ops).latestSnapshot = 
      .ofSnapshot (spec <| ops.map <| Op.map RawSnapshot.toSnapshot) := by
  have h : (Execution.exec step newSnapshotBuilder ops).toBuilder = .ofHistory _ := 
    toBuilder_exec.trans SnapshotBuilder.exec_eq_ofHistory
  have hl := congrArg SnapshotBuilder.latest h
  have ⟨s, hs, hl⟩ := Option.map_eq_some_iff.mp hl
  rw [latestSnapshot, hs, RawSnapshot.cloneSnapshot_some, hl]

end RawBuilder
end Agg
