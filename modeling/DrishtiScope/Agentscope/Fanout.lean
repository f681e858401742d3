import DrishtiScope.Api.Server
import DrishtiScope.Lib.Execution
import DrishtiScope.Storage.Async

open Go Agg Protocol

-- The goroutine that passes what the engines produce on to the builder, the store and the clients.
namespace Agentscope

-- What is received from the two channels.
inductive Item
  | snapshot (snap : Snapshot)
  | event (e : EventRow)

def Item.event? : Item → Option EventRow
  | snapshot _ => none
  | event e    => some e

def events (items : List Item) : List EventRow :=
  items.filterMap Item.event?

-- The calls that are made.
inductive Action
  | update (snap : Snapshot)
  | addEvent (e : EventRow)
  | record (r : Storage.Record)
  | broadcast (f : Frame)

structure Fanout where
  builder  : SnapshotBuilder
  mode     : Bytes
  returned : Bool
  received : List Item
  trace    : List Action

namespace Fanout

def start (mode : Bytes) : Fanout :=
  ⟨.newSnapshotBuilder, mode, false, [], []⟩

-- The `select` takes one of the channels. `stop` stands for the end of the context, and for a channel
-- that has been closed.
inductive Event
  | receive (item : Item) (now : Time)
  | stop

def onSnapshot (s : Fanout) (snap : Snapshot) (now : Time) : Fanout :=
  let (builder, snap') := s.builder.update snap
  { s with
    builder  := builder
    received := s.received ++ [.snapshot snap]
    trace    := s.trace ++ [
      .update snap, 
      .record (.snapshot snap'), 
      .broadcast (.snapshot <| marshal now kindSnapshot s.mode snap')
    ] 
  }

def onEvent (s : Fanout) (e : EventRow) (now : Time) : Fanout :=
  { s with
    builder  := s.builder.addEvent e
    received := s.received ++ [.event e]
    trace    := s.trace ++ [
      .addEvent e, 
      .record (.event e), 
      .broadcast (.event <| marshal now kindEvent s.mode e)
    ] 
  }

def step (s : Fanout) (ev : Event) : Fanout :=
  if s.returned then s else
    match ev with
    | .receive (.snapshot snap) now => s.onSnapshot snap now
    | .receive (.event e) now       => s.onEvent e now
    | .stop                         => { s with returned := true }

-- What becomes of a snapshot that is received after the events in `seen`.
structure Published (seen : List EventRow) (snap snap' : Snapshot) : Prop where
  timeline : snap'.timeline = seen.drop (seen.length - 300)
  rest     : snap' = { snap with
    cpuSeries := snap'.cpuSeries
    ioSeries  := snap'.ioSeries
    netSeries := snap'.netSeries
    timeline  := snap'.timeline
  }

-- The calls belong to the items one by one.
inductive Agrees (mode : Bytes) : List Item → List Action → Prop
  | nil : Agrees mode [] []
  | snapshot {now : Time} (h : Agrees mode items acts) (p : Published (events items) snap snap') : 
    Agrees mode (items ++ [.snapshot snap]) (acts ++ [
      .update snap, 
      .record (.snapshot snap'), 
      .broadcast (.snapshot <| marshal now kindSnapshot mode snap')
    ])
  | event {now : Time} (h : Agrees mode items acts) : 
    Agrees mode (items ++ [.event e]) (acts ++ [
      .addEvent e, 
      .record (.event e), 
      .broadcast (.event <| marshal now kindEvent mode e)
    ])

structure Inv (mode : Bytes) (s : Fanout) : Prop where
  mode_eq : s.mode = mode
  ring    : s.builder.events = (events s.received).drop ((events s.received).length - 300)
  agrees  : Agrees mode s.received s.trace

variable {mode : Bytes} {s : Fanout} {ev : Event} {es : List Event} {snap : Snapshot} {e : EventRow} 
         {now : Time}

theorem inv_start : Inv mode (start mode) :=
  ⟨rfl, by simp [start, events, SnapshotBuilder.newSnapshotBuilder], .nil⟩

theorem Inv.published (h : Inv mode s) : 
    Published (events s.received) snap (s.builder.update snap).snd :=
  ⟨h.ring, rfl⟩

theorem Inv.onSnapshot (h : Inv mode s) : Inv mode (s.onSnapshot snap now) where
  mode_eq := h.mode_eq
  ring    := by
    have he : events (s.received ++ [.snapshot snap]) = events s.received := by
      simp [events, Item.event?]
    simp only [Fanout.onSnapshot, he, ← h.ring]
    rfl
  agrees  := by
    have hm := h.mode_eq
    subst hm
    exact .snapshot h.agrees h.published

theorem Inv.onEvent (h : Inv mode s) : Inv mode (s.onEvent e now) where
  mode_eq := h.mode_eq
  ring    := by
    have he : events (s.received ++ [.event e]) = events s.received ++ [e] := by
      simp [events, Item.event?]
    simp only [Fanout.onEvent, he, SnapshotBuilder.addEvent, h.ring, appendCapped_eq]
  agrees  := by
    have hm := h.mode_eq
    subst hm
    exact .event h.agrees

theorem Inv.step (h : Inv mode s) : Inv mode (s.step ev) := by
  simp only [Fanout.step]
  split
  case isTrue  => exact h
  case isFalse =>
    split
    case h_1 => exact h.onSnapshot
    case h_2 => exact h.onEvent
    case h_3 => exact ⟨h.mode_eq, h.ring, h.agrees⟩

end Fanout
end Agentscope
