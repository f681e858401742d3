import DrishtiScope.Bpf.Attempts
import DrishtiScope.EbpfAgent.BuildSnapshot
import DrishtiScope.EbpfAgent.Filter
import DrishtiScope.EbpfAgent.Wire
import DrishtiScope.Lib.LossyQueue
import Mathlib.Data.UInt

open Go Linux Bpf Layout

-- What becomes of the records of the tracepoint programs, from the ring buffer to the numbers in the
-- snapshots.
namespace EbpfAgent.Accounting

structure State where
  kernel : Kernel
  agent  : LiveState

def State.start (k : Kernel) (now : Time) : State where
  kernel := { k with events := [], dropCount := 0 }
  agent  := .new now

-- A tick reads a counter of dropped events for each processor. These add up to the count of the kernel,
-- however it is spread over them.
inductive Action
  | trace (arch : Arch) (cur : Current) (tp : Tracepoint)
  | read (cfg : Config) (now : Time)
  | tick (t : BuildTick) (cpus : List UInt64)

def readMaps (k : Kernel) (t : BuildTick) (cpus : List UInt64) : BuildTick :=
  { t with coll := some {
    processStats  := some k.processStats.toList
    syscallCounts := some k.syscallCounts.toList
    dropCount     := (k.dropCount - cpus.sum) :: cpus
  } }

section

variable [Unicode] [Runtime] [Zone]

def step (s : State) : Action → State
  | .trace arch cur tp => { s with kernel := s.kernel.run arch cur tp }
  | .read cfg now      =>
    match s.kernel.events with
    | []      => s
    | e :: es => {
      kernel := { s.kernel with events := es }
      agent  := (readRecord cfg now s.agent (pack Event.members e)).fst
    }
  | .tick t cpus       => {
    kernel := writeMaps s.kernel t.cfg (targets t)
    agent  := (buildSnapshot s.agent (readMaps s.kernel t cpus)).fst
  }

def snapshot (s : State) (t : BuildTick) (cpus : List UInt64) : Agg.Snapshot :=
  (buildSnapshot s.agent (readMaps s.kernel t cpus)).snd

end

-- The records that the programs try to emit, and those that are read.
def attempted (s : State) : Action → List Event
  | .trace arch cur tp => (s.kernel.attempt arch cur tp).toList
  | _                  => []

def noted (s : State) : Action → List Event
  | .read .. => s.kernel.events.head?.toList
  | _        => []

-- The number of records that fit into the ring buffer.
def ringCapacity : Nat :=
  (ringSize - 1) / recordSize

-- A record that a program tries to emit finds room.
def Fits (s : State) (a : Action) : Prop :=
  attempted s a ≠ [] → ¬s.kernel.ringFull

structure Refines (s : State) (q : LossyQueue Event) : Prop where
  capacity : q.channel.capacity = ringCapacity
  events   : s.kernel.events = q.channel.buffer
  dropped  : s.kernel.dropCount = .ofNat q.lost
  noted    : s.agent.eventN = .ofNat q.channel.received.length

section Refinement

variable {s : State} {q : LossyQueue Event} {k : Kernel} {now : Time}

theorem ringFull_iff : k.ringFull ↔ ringCapacity ≤ k.events.length := by
  have h : k.ringFull ↔ ringSize ≤ (k.events.length + 1) * recordSize := decide_eq_true_iff
  rw [h, ringCapacity, ringSize, recordSize]
  omega

theorem Refines.hasRoom_iff (h : Refines s q) : q.channel.HasRoom ↔ ¬s.kernel.ringFull := by
  rw [ringFull_iff, BufferedChannel.HasRoom, h.capacity, h.events, not_le]

theorem Refines.start : Refines (.start k now) (.make ringCapacity) :=
  ⟨rfl, rfl, rfl, rfl⟩

theorem ofNat_succ (n : Nat) : UInt64.ofNat (n + 1) = .ofNat n + 1 :=
  UInt64.ofNat_add n 1

-- A program that tries to emit a record offers it to the queue.
theorem Refines.offer {k' : Kernel} {e : Event} (h : Refines s q) (ha : s.kernel.Attempts k' (some e)) : 
    Refines { s with kernel := k' } (q.offer e) := by
  by_cases hq : q.channel.HasRoom
  case pos =>
    have ⟨he, hd⟩ := ha.of_not_ringFull <| h.hasRoom_iff.mp hq
    simp only [LossyQueue.offer, BufferedChannel.trySend, dif_pos hq, if_pos hq]
    exact ⟨h.capacity, he.trans <| congrArg (· ++ [e]) h.events, hd.trans h.dropped, h.noted⟩
  case neg => 
    obtain ⟨he, hd⟩ := ha.of_ringFull <| not_not.mp <| mt h.hasRoom_iff.mpr hq
    simp only [LossyQueue.offer, BufferedChannel.trySend, dif_neg hq, if_neg hq]
    refine ⟨h.capacity, he.trans h.events, hd.trans ?_, h.noted⟩
    rw [h.dropped, ofNat_succ]

theorem eventN_noteEvent {l : LiveState} {e : Event} : (l.noteEvent e).eventN = l.eventN + 1 := by
  simp only [LiveState.noteEvent, LiveState.noteOpen, LiveState.noteConnect]
  split
  · rfl
  · split
    · split <;> rfl
    · rfl

variable [Unicode] [Runtime] [Zone] {a : Action}

theorem Refines.step (h : Refines s q) : 
    ∃ q', Refines (step s a) q' ∧ q'.offered = q.offered ++ attempted s a ∧ 
      q'.channel.received = q.channel.received ++ Accounting.noted s a ∧ 
      (q'.lost = 0 ↔ q.lost = 0 ∧ Fits s a) := by
  cases a
  case trace arch cur tp =>
    have ha : s.kernel.Attempts (s.kernel.run arch cur tp) _ := Kernel.run_attempts
    simp only [Accounting.step, attempted, Accounting.noted, Fits, List.append_nil]
    cases hk : s.kernel.attempt arch cur tp
    case none   =>
      rw [hk] at ha
      refine ⟨q, ⟨h.capacity, ?_, ?_, h.noted⟩, by simp, rfl, by simp⟩
      case refine_1 => exact ha.left.trans h.events
      case refine_2 => exact ha.right.trans h.dropped
    case some e => 
      refine ⟨q.offer e, h.offer (hk ▸ ha), rfl, BufferedChannel.received_trySend, ?_⟩
      rw [LossyQueue.lost_offer_eq_zero_iff, h.hasRoom_iff]
      simp
  case read cfg now => 
    simp only [Accounting.step, attempted, Accounting.noted, Fits, List.append_nil]
    cases he : s.kernel.events
    case nil       => exact ⟨q, h, rfl, by simp, by simp⟩
    case cons e es =>
      have ⟨c, hc, hb⟩ := BufferedChannel.tryReceive_of_cons <| h.events.symm.trans he
      have ⟨_, hs, hr⟩ := BufferedChannel.tryReceive_eq_some hc
      refine ⟨q.take c hs, ⟨?capacity, hb.symm, h.dropped, ?noted⟩, rfl, hr.trans <| by simp, by simp [LossyQueue.take]⟩
      case capacity => exact (BufferedChannel.capacity_tryReceive hc).trans h.capacity
      case noted    =>
        have hw : readRecord cfg now s.agent (pack Event.members e) = 
            (s.agent.noteEvent e, handleEvent cfg now e) := by
          rw [readRecord, binaryRead_of_reads bpfEvent_reads]
        simp only [hw, eventN_noteEvent, h.noted, LossyQueue.take, hr, List.length_append, List.length_singleton, 
          ofNat_succ]
  case tick t cpus => 
    refine ⟨q, ⟨h.capacity, h.events, h.dropped, ?_⟩, by simp [attempted], by simp [Accounting.noted], 
      by simp [Fits, attempted]⟩
    exact (buildSnapshot_kept (t := readMaps s.kernel t cpus)).eventN.trans h.noted

-- Along a run the queue is offered what the programs try to emit, and what is read is taken from it.
theorem Refines.exec (k : Kernel) (now : Time) (as : List Action) : 
    ∃ q, Refines (Execution.exec Accounting.step (.start k now) as) q ∧ 
      q.offered = Execution.outputs Accounting.step attempted (.start k now) as ∧ 
      q.channel.received = Execution.outputs Accounting.step Accounting.noted (.start k now) as ∧ 
      (q.lost = 0 ↔ Execution.Always Accounting.step Fits (.start k now) as) := by
  induction as using List.reverseRecOn
  case nil => exact ⟨_, .start, rfl, rfl, iff_of_true rfl trivial⟩
  case append_singleton as a hi =>
    have ⟨q, hr, ho, hn, hl⟩ := hi
    have ⟨q', hr', ho', hn', hl'⟩ := hr.step (a := a)
    refine ⟨q', ?_, ?_, ?_, ?_⟩
    case refine_1 => rwa [Execution.exec_concat]
    case refine_2 => rw [Execution.outputs_concat, ho', ho]
    case refine_3 => rw [Execution.outputs_concat, hn', hn]
    case refine_4 => rw [Execution.Always.concat_iff, hl', hl]

end Refinement

section Accounts

variable [Unicode] [Runtime] {s : State} {t : BuildTick} {cpus : List UInt64} {attempts notes : List Event}

-- The number of records that have been tried, but are neither read nor in the ring buffer.
def lost (s : State) (attempts notes : List Event) : Nat :=
  attempts.length - (notes.length + s.kernel.events.length)

-- `attempts` are the records that the programs have tried to emit, and `notes` those that have been read.
structure Accounted (s : State) (attempts notes : List Event) : Prop where
  inOrder   : (notes ++ s.kernel.events).Sublist attempts
  bounded   : s.kernel.events.length ≤ ringCapacity
  dropped   : ∀ t cpus, (snapshot s t cpus).info.droppedEvents = .ofNat (lost s attempts notes)
  eventRate : ∀ t cpus, (snapshot s t cpus).info.eventRate = 
    (notes.length % 2 ^ 64 : Nat) / (snapshot s t cpus).info.uptimeS

omit [Unicode] [Runtime] in
theorem foldl_add (x : UInt64) : cpus.foldl (· + ·) x = x + cpus.sum := by
  induction cpus generalizing x
  case nil            => exact (UInt64.add_zero x).symm
  case cons y cpus hi => rw [List.foldl_cons, hi, List.sum_cons, UInt64.add_assoc]

theorem snapshot_droppedEvents : (snapshot s t cpus).info.droppedEvents = s.kernel.dropCount := by
  change ((s.kernel.dropCount - cpus.sum) :: cpus).foldl (· + ·) 0 = _
  rw [foldl_add, List.sum_cons, UInt64.sub_add_cancel, UInt64.zero_add]

theorem snapshot_eventRate : 
    (snapshot s t cpus).info.eventRate = s.agent.eventN.toNat / (snapshot s t cpus).info.uptimeS := by
  have h : (buildSnapshot s.agent (readMaps s.kernel t cpus)).fst.eventN = s.agent.eventN := 
    buildSnapshot_kept.eventN
  rw [← h]
  rfl

theorem Refines.accounted {q : LossyQueue Event} (h : Refines s q) : 
    Accounted s q.offered q.channel.received where
  inOrder       := h.events ▸ q.taken_queued_sublist
  bounded       := h.events ▸ h.capacity ▸ q.channel.bounded
  dropped _ _   := by
    have hl := q.length_offered
    rw [snapshot_droppedEvents, h.dropped, lost, h.events]
    congr 1
    omega
  eventRate _ _ := by
    rw [snapshot_eventRate, h.noted]
    rfl

-- Whatever the programs, the reader and the ticks do in between, each record is read once and in order, is
-- still in the ring buffer, or is reported as dropped, which happens to none that finds room.
theorem accounted_exec [Zone] (k : Kernel) (now : Time) (as : List Action) : 
    let s := Execution.exec step (.start k now) as
    let attempts := Execution.outputs step attempted (.start k now) as
    let notes := Execution.outputs step noted (.start k now) as
    Accounted s attempts notes ∧ 
      (notes ++ s.kernel.events = attempts ↔ Execution.Always step Fits (.start k now) as) := by
  have ⟨q, hr, ho, hn, hl⟩ := Refines.exec k now as
  simp only [← ho, ← hn, ← hl]
  refine ⟨hr.accounted, ?_⟩
  rw [q.lost_eq_zero_iff, hr.events]

end Accounts
end EbpfAgent.Accounting
