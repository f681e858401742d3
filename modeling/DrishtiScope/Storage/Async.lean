import DrishtiScope.Agg.Snapshot
import DrishtiScope.Lib.BufferedChannel
import DrishtiScope.Lib.Execution
import Mathlib.Data.List.Perm.Subperm

open Go

-- The queues in front of the store, and the goroutine that empties them.
namespace Storage

-- A call on the inner store.
inductive Record
  | snapshot (snap : Option Agg.Snapshot)
  | event (e : Agg.EventRow)

def Record.snapshot? : Record → Option (Option Agg.Snapshot)
  | snapshot snap => some snap
  | event _       => none

def Record.event? : Record → Option Agg.EventRow
  | snapshot _ => none
  | event e    => some e

-- The inner store is represented by the calls that it gets.
structure Async where
  inner : List Record
  snaps : BufferedChannel (Option Agg.Snapshot)
  evts  : BufferedChannel Agg.EventRow
  stop  : Bool
  done  : Bool

namespace Async

def wrapAsync (queue : Int) : Async :=
  let queue := if queue ≤ 0 then 256 else queue.toNat
  ⟨[], .make queue, .make queue, false, false⟩

def recordSnapshot (a : Async) (snap : Option Agg.Snapshot) : Async :=
  { a with snaps := a.snaps.trySend snap }

def recordEvent (a : Async) (e : Agg.EventRow) : Async :=
  { a with evts := a.evts.trySend e }

-- Where the loop stands: at the `select`, in a call on the inner store, or after the loop.
inductive Loop
  | select
  | write (r : Record)
  | exited

-- `Close` waits for `done` between its two steps. The records that were accepted before are kept
-- aside.
structure State where
  async        : Async
  loop         : Loop
  closing      : Bool
  beforeSnaps  : List (Option Agg.Snapshot)
  beforeEvents : List Agg.EventRow
  closed       : Bool

def start (queue : Int) : State :=
  ⟨wrapAsync queue, .select, false, [], [], false⟩

-- The scheduler decides who moves, and which of the ready cases the `select` takes.
inductive Event
  | recordSnapshot (snap : Option Agg.Snapshot)
  | recordEvent (e : Agg.EventRow)
  | selectStop
  | selectSnap
  | selectEvent
  | write
  | close
  | closeReturns

def selectStop (s : State) : State :=
  match s.loop with
  | .select =>
    if s.async.stop then { s with loop := .exited, async := { s.async with done := true } } else s
  | _ => s

def selectSnap (s : State) : State :=
  match s.loop, s.async.snaps.tryReceive with
  | .select, some (snap, snaps) => 
    { s with loop := .write (.snapshot snap), async := { s.async with snaps := snaps } }
  | _, _ => s

def selectEvent (s : State) : State :=
  match s.loop, s.async.evts.tryReceive with
  | .select, some (e, evts) => 
    { s with loop := .write (.event e), async := { s.async with evts := evts } }
  | _, _ => s

-- An error of the inner store is logged.
def write (s : State) : State :=
  match s.loop with
  | .write r => { s with loop := .select, async := { s.async with inner := s.async.inner ++ [r] } }
  | _        => s

def close (s : State) : State :=
  if s.closing then s else { s with
    async        := { s.async with stop := true }
    closing      := true
    beforeSnaps  := s.async.snaps.sent
    beforeEvents := s.async.evts.sent
  }

def closeReturns (s : State) : State :=
  if s.closing ∧ s.async.done then { s with closed := true } else s

def step (s : State) : Event → State
  | .recordSnapshot snap => { s with async := s.async.recordSnapshot snap }
  | .recordEvent e       => { s with async := s.async.recordEvent e }
  | .selectStop          => selectStop s
  | .selectSnap          => selectSnap s
  | .selectEvent         => selectEvent s
  | .write               => write s
  | .close               => close s
  | .closeReturns        => closeReturns s

-- Each record that was accepted before `Close` has reached the inner store.
def Kept (s : State) : Prop :=
  s.beforeSnaps.Subperm (s.async.inner.filterMap Record.snapshot?) ∧
  s.beforeEvents.Subperm (s.async.inner.filterMap Record.event?)

-- What the queues still hold has been accepted since `Close` was called.
def Drained (s : State) : Prop :=
  s.beforeSnaps.length + s.async.snaps.buffer.length ≤ s.async.snaps.sent.length ∧
  s.beforeEvents.length + s.async.evts.buffer.length ≤ s.async.evts.sent.length

-- The `select` takes `stop`.
def Stops (s : State) (e : Event) : Prop :=
  e = .selectStop ∧ s.loop = .select ∧ s.async.stop

-- The records that have left the queues.
def handed (s : State) : List Record :=
  match s.loop with
  | .write r => s.async.inner ++ [r]
  | _        => s.async.inner

structure Inv (s : State) : Prop where
  snaps        : (handed s).filterMap Record.snapshot? = s.async.snaps.received
  evts         : (handed s).filterMap Record.event? = s.async.evts.received
  beforeSnaps  : s.beforeSnaps <+: s.async.snaps.sent
  beforeEvents : s.beforeEvents <+: s.async.evts.sent
  stop         : s.async.stop → s.closing
  done         : s.async.done → s.loop = .exited
  exited       : s.loop = .exited → s.closing
  closed       : s.closed → s.loop = .exited

variable {queue : Int} {s : State} {e : Event} {es : List Event}

theorem inv_start : Inv (start queue) := by
  constructor <;> simp [start, wrapAsync, handed, BufferedChannel.make]

theorem Inv.step (h : Inv s) : Inv (step s e) := by
  have ⟨hs, he, hbs, hbe, hst, hd, hx, hc⟩ := h
  cases e
  case recordSnapshot snap =>
    constructor <;> simp_all [Async.step, Async.recordSnapshot, handed]
    exact hbs.trans BufferedChannel.sent_prefix_trySend
  case recordEvent e =>
    constructor <;> simp_all [Async.step, Async.recordEvent, handed]
    exact hbe.trans BufferedChannel.sent_prefix_trySend
  case selectStop =>
    simp only [Async.step, selectStop]
    split
    case h_1 hl =>
      split
      case isTrue => constructor <;> simp_all [handed]
      case isFalse => exact h
    case h_2 => exact h
  case selectSnap =>
    simp only [Async.step, selectSnap]
    split
    case h_1 hl hr =>
      have ⟨_, hsent, hrec⟩ := BufferedChannel.tryReceive_eq_some hr
      constructor <;> simp_all [handed, Record.snapshot?, Record.event?]
    case h_2 => exact h
  case selectEvent =>
    simp only [Async.step, selectEvent]
    split
    case h_1 hl hr =>
      have ⟨_, hsent, hrec⟩ := BufferedChannel.tryReceive_eq_some hr
      constructor <;> simp_all [handed, Record.snapshot?, Record.event?]
    case h_2 => exact h
  case write =>
    simp only [Async.step, write]
    split
    case h_1 hl => constructor <;> simp_all [handed]
    case h_2    => exact h
  case close =>
    simp only [Async.step, close]
    split
    case isTrue  => exact h
    case isFalse => constructor <;> simp_all [handed]
  case closeReturns =>
    simp only [Async.step, closeReturns]
    split
    case isTrue hr => constructor <;> simp_all [handed]
    case isFalse   => exact h

-- The queues have handed over all that they held before `Close`.
def Flushed (s : State) : Prop :=
  s.beforeSnaps <+: s.async.snaps.received ∧ s.beforeEvents <+: s.async.evts.received

theorem Inv.flushed_iff (h : Inv s) : Flushed s ↔ Drained s :=
  and_congr (BufferedChannel.prefix_received_iff h.beforeSnaps) 
    (BufferedChannel.prefix_received_iff h.beforeEvents)

theorem Inv.kept_iff (h : Inv s) (hx : s.loop = .exited) : Kept s ↔ Flushed s := by
  have hh : handed s = s.async.inner := by simp [handed, hx]
  have hq {α : Type} {l : List α} {c : BufferedChannel α} (hl : l <+: c.sent) : 
      l.Subperm c.received ↔ l <+: c.received := by
    constructor
    case mp  => exact fun hs => List.prefix_of_prefix_length_le hl c.received_prefix_sent hs.length_le
    case mpr => exact fun hp => hp.sublist.subperm
  rw [Kept, Flushed, ← hh, h.snaps, h.evts, hq h.beforeSnaps, hq h.beforeEvents]

theorem step_of_stops (h : Stops s e) : 
    step s e = { s with loop := .exited, async := { s.async with done := true } } := by
  have ⟨he, hl, hs⟩ := h
  simp [he, step, selectStop, hl, hs]

-- The loop is only left through `stop`.
theorem loop_step_iff (h : ¬Stops s e) : (step s e).loop = .exited ↔ s.loop = .exited := by
  cases e <;> simp only [step]
  case selectStop =>
    simp only [selectStop]
    split
    case h_1 hl => rw [if_neg fun hs => h ⟨rfl, hl, hs⟩]
    case h_2    => rfl
  case selectSnap =>
    simp only [selectSnap]
    split
    case h_1 hl _ => simp [hl]
    case h_2      => rfl
  case selectEvent =>
    simp only [selectEvent]
    split
    case h_1 hl _ => simp [hl]
    case h_2      => rfl
  case write =>
    simp only [write]
    split
    case h_1 hl => simp [hl]
    case h_2    => rfl
  case close        => simp only [close]; split <;> rfl
  case closeReturns => simp only [closeReturns]; split <;> rfl

-- Nothing leaves the queues after the loop.
theorem Inv.flushed_step_iff (h : Inv s) (hx : s.loop = .exited) : Flushed (Async.step s e) ↔ Flushed s := by
  cases e <;> simp only [Async.step]
  case recordSnapshot => simp [Flushed, recordSnapshot]
  case recordEvent    => simp [Flushed, recordEvent]
  case selectStop     => simp [selectStop, hx]
  case selectSnap     => simp [selectSnap, hx]
  case selectEvent    => simp [selectEvent, hx]
  case write          => simp [write, hx]
  case close          => simp [close, h.exited hx]
  case closeReturns   => simp only [closeReturns]; split <;> rfl

theorem inv_exec : Inv (Execution.exec step (start queue) es) :=
  Execution.invariant inv_start fun _ _ => Inv.step

theorem flushed_iff : 
    (Execution.Always step (fun s e => Stops s e → Drained s) (start queue) es) ↔ 
      ((Execution.exec step (start queue) es).loop = .exited → 
        Flushed (Execution.exec step (start queue) es)) := by
  induction es using List.reverseRecOn
  case nil                    => simp [start]
  case append_singleton es e hi =>
    have hv : Inv (Execution.exec step (start queue) es) := inv_exec
    rw [Execution.Always.concat_iff, Execution.exec_concat, hi]
    generalize Execution.exec step (start queue) es = s at hv
    by_cases hs : Stops s e
    case pos =>
      have hl : ¬s.loop = .exited := by simp [hs.right.left]
      simp only [step_of_stops hs, hs, hl, ← hv.flushed_iff]
      simp [Flushed]
    case neg =>
      rw [loop_step_iff hs]
      by_cases hx : s.loop = .exited
      case pos => simp [hs, hx, hv.flushed_step_iff hx]
      case neg => simp [hs, hx]

-- When `Close` returns, nothing has been lost if and only if the loop took `stop` with drained queues.
theorem kept_iff_always_flushed (h : (Execution.exec step (start queue) es).closed) : 
    Kept (Execution.exec step (start queue) es) ↔ 
      Execution.Always step (fun s e => Stops s e → Drained s) (start queue) es := by
  have hx := inv_exec.closed h
  rw [flushed_iff, inv_exec.kept_iff hx]
  simp [hx]

section Order

open scoped List

def Event.snapshot? : Event → Option (Option Agg.Snapshot)
  | recordSnapshot snap => some snap
  | _                   => none

def Event.event? : Event → Option Agg.EventRow
  | recordEvent e => some e
  | _             => none

-- The loop is in a call on the inner store.
def Writing (s : State) : Prop :=
  ∃ r, s.loop = .write r

-- The record that is submitted in this step is not accepted.
def Drops (s : State) : Event → Prop
  | .recordSnapshot snap => (s.async.recordSnapshot snap).snaps.sent ≠ s.async.snaps.sent ++ [snap]
  | .recordEvent e       => (s.async.recordEvent e).evts.sent ≠ s.async.evts.sent ++ [e]
  | _                    => False

-- The queue for the record that is submitted is full.
def Full (queue : Int) (s : State) : Event → Prop
  | .recordSnapshot _ => s.async.snaps.buffer.length = (wrapAsync queue).snaps.capacity
  | .recordEvent _    => s.async.evts.buffer.length = (wrapAsync queue).evts.capacity
  | _                 => False

-- What a run has passed to the inner store, until when it does so, and what it drops. A write that
-- is still going on counts as passed.
structure Orderly (queue : Int) (es : List Event) : Prop where
  snaps   : (handed (Execution.exec step (start queue) es)).filterMap Record.snapshot? <+ 
    es.filterMap Event.snapshot?
  evts    : (handed (Execution.exec step (start queue) es)).filterMap Record.event? <+ 
    es.filterMap Event.event?
  closed  : Execution.Always step (fun s e => s.closed → ¬Writing s ∧ ¬Writing (step s e)) 
    (start queue) es
  dropped : Execution.Always step (fun s e => Drops s e → Full queue s e) (start queue) es

theorem step_moves : 
    s.async.snaps.Moves e.snapshot? (step s e).async.snaps ∧ 
    s.async.evts.Moves e.event? (step s e).async.evts := by
  have stay : s.async.snaps.Moves e.snapshot? s.async.snaps ∧ s.async.evts.Moves e.event? s.async.evts := 
    ⟨.stay _, .stay _⟩
  cases e <;> simp only [step]
  case recordSnapshot snap => exact ⟨.send snap, .stay _⟩
  case recordEvent row     => exact ⟨.stay _, .send row⟩
  case selectSnap =>
    simp only [selectSnap]
    split
    case h_1 hr => exact ⟨.receive _ hr, .stay _⟩
    case h_2    => exact stay
  case selectEvent =>
    simp only [selectEvent]
    split
    case h_1 hr => exact ⟨.stay _, .receive _ hr⟩
    case h_2    => exact stay
  case selectStop   => simp only [selectStop]; grind
  case write        => simp only [write]; grind
  case close        => simp only [close]; grind
  case closeReturns => simp only [closeReturns]; grind

-- Once `Close` has called the inner store, the loop is over, and it stays over.
theorem Inv.not_writing (h : Inv s) (hc : s.closed) : ¬Writing s ∧ ¬Writing (Async.step s e) := by
  have hx := h.closed hc
  have hx' : (Async.step s e).loop = .exited := by
    by_cases hs : Stops s e
    case pos => rw [step_of_stops hs]
    case neg => exact loop_step_iff hs |>.mpr hx
  simp [Writing, hx, hx']

-- The queues keep the capacity that they were made with.
def Sized (queue : Int) (s : State) : Prop :=
  s.async.snaps.capacity = (wrapAsync queue).snaps.capacity ∧
  s.async.evts.capacity = (wrapAsync queue).evts.capacity

theorem Sized.step (h : Sized queue s) : Sized queue (Async.step s e) :=
  ⟨step_moves.left.capacity.trans h.left, step_moves.right.capacity.trans h.right⟩

theorem Sized.full (h : Sized queue s) (hd : Drops s e) : Full queue s e := by
  cases e <;> simp only [Drops] at hd
  case recordSnapshot => exact BufferedChannel.full_of_sent_trySend_ne hd |>.trans h.left
  case recordEvent    => exact BufferedChannel.full_of_sent_trySend_ne hd |>.trans h.right

theorem orderly : Orderly queue es where
  snaps   := by
    rw [inv_exec.snaps]
    exact BufferedChannel.received_prefix_sent.sublist.trans <| 
      BufferedChannel.Moves.sent_exec (fun s : State => s.async.snaps) fun _ _ => step_moves.left
  evts    := by
    rw [inv_exec.evts]
    exact BufferedChannel.received_prefix_sent.sublist.trans <| 
      BufferedChannel.Moves.sent_exec (fun s : State => s.async.evts) fun _ _ => step_moves.right
  closed  := 
    Execution.Always.of_invariant inv_start (fun _ _ => Inv.step) fun _ _ => Inv.not_writing
  dropped := 
    Execution.Always.of_invariant ⟨rfl, rfl⟩ (fun _ _ => Sized.step) fun _ _ => Sized.full

end Order

section Shutdown

def lastEvent : Agg.EventRow where
  id       := str "exit-1"
  ts       := str "1970-01-01T00:00:00Z"
  severity := str "info"
  category := str "process"
  pid      := 17
  comm     := str "agy"
  title    := str "Process exit"
  detail   := []
  attrs    := []

-- The event is recorded, and the loop learns of it and of `stop` at once.
def shutdown : List Event :=
  [.recordEvent lastEvent, .close, .selectStop, .closeReturns]

theorem not_kept_shutdown : 
    ¬∀ queue es, (Execution.exec step (start queue) es).closed → 
      Kept (Execution.exec step (start queue) es) := by
  intro h
  have ⟨_, hk⟩ := h 256 shutdown (by decide)
  exact absurd hk.length_le (by decide)

theorem kept_iff_shutdown : 
    Kept (Execution.exec step (start 256) shutdown) ↔ 
      Execution.Always step (fun s e => Stops s e → Drained s) (start 256) shutdown :=
  kept_iff_always_flushed (by decide)

end Shutdown
end Async
end Storage
