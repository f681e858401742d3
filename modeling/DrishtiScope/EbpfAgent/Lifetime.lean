import DrishtiScope.Bpf.Effects
import DrishtiScope.EbpfAgent.LiveState
import DrishtiScope.Lib.Execution
import Mathlib.Data.Finset.Basic

open Go Linux Bpf Kernel

-- The life of one observed process `g`, from the tracepoints of its threads to the rows that
-- userspace sends.
namespace EbpfAgent.Lifetime

structure State where
  kernel : Kernel
  live   : Finset UInt32
  agent  : LiveState
  rows   : List Agg.EventRow

inductive Action
  | trace (cur : Current) (tp : Tracepoint)
  | clone (tid : UInt32)
  | read (cfg : Config) (now : Time)

-- A tracepoint fires for each task of its own, so the exit of a thread takes it off the live ones.
def trace (g : UInt32) (arch : Arch) (s : State) (cur : Current) (tp : Tracepoint) : State :=
  let s' := { s with kernel := s.kernel.run arch cur tp }
  match tp with
  | .exit => if cur.tgid = g then { s' with live := s.live.erase cur.tid } else s'
  | _     => s'

section Run

variable [Zone]

-- `readRingbuf` handles the oldest record.
def read (s : State) (cfg : Config) (now : Time) : State :=
  match s.kernel.events with
  | []      => s
  | e :: es => { s with
    kernel := { s.kernel with events := es }
    agent  := s.agent.noteEvent e
    rows   := s.rows ++ (handleEvent cfg now e).toList
  }

def step (g : UInt32) (arch : Arch) (s : State) : Action → State
  | .trace cur tp => if cur.tgid = g → cur.tid ∈ s.live then trace g arch s cur tp else s
  | .clone tid    => if s.live.Nonempty then { s with live := insert tid s.live } else s
  | .read cfg now => read s cfg now

variable {g : UInt32} {arch : Arch} {s : State} {a : Action} {k : Kernel} {cur : Current} 
  {tp : Tracepoint} {cfg : Config} {now : Time} {e : Event}

-- The system calls of the process that have been counted.
def counted (g : UInt32) (k : Kernel) : Nat :=
  ((k.syscallCount? g).getD 0).toNat

def isExit (g : UInt32) (e : Event) : Bool :=
  e.type = evtExit ∧ e.tgid = g

def isExitRow (g : UInt32) (r : Agg.EventRow) : Bool :=
  r.title = str "exit" ∧ r.pid = int g

def exitRows (g : UInt32) (s : State) : List Agg.EventRow :=
  s.rows.filter (isExitRow g)

def exitRecords (g : UInt32) (s : State) : List Event :=
  s.kernel.events.filter (isExit g)

-- A thread of the process enters a system call, and the kernel program observes it.
def Observes (g : UInt32) (s : State) (a : Action) : Prop :=
  ∃ cur ctx mem, a = .trace cur (.sysEnter ctx mem) ∧ cur.tgid = g ∧ cur.tid ∈ s.live ∧ 
    s.kernel.isTarget cur

-- The exit of a process is handled per process.
structure PerProcess (g : UInt32) (arch : Arch) (s : State) (a : Action) : Prop where
  pinned : (step g arch s a).live.Nonempty → g ∈ (step g arch s a).kernel.targets
  counts : Observes g s a → counted g (step g arch s a).kernel = counted g s.kernel + 1
  keeps  : (step g arch s a).live.Nonempty → counted g s.kernel ≤ counted g (step g arch s a).kernel
  once   : (exitRows g (step g arch s a)).length ≤ 1
  last   : (step g arch s a).live.Nonempty → exitRows g (step g arch s a) = []

-- No thread exits before the last one unless its exit goes unnoticed as the ring buffer is full, and
-- each system call finds room for its count.
structure Safe (g : UInt32) (s : State) (a : Action) : Prop where
  exit : ∀ cur, a = .trace cur .exit → cur.tgid = g → cur.tid ∈ s.live → 
    (s.live.erase cur.tid).Nonempty → s.kernel.ringFull
  room : Observes g s a → s.kernel.processStats.Room g ∧ counted g s.kernel < 2 ^ 64 - 1

structure Invariant (g : UInt32) (s : State) : Prop where
  pinned : s.live.Nonempty → g ∈ s.kernel.targets
  silent : s.live.Nonempty → exitRecords g s = [] ∧ exitRows g s = []
  once   : (exitRecords g s).length + (exitRows g s).length ≤ 1

-- The exit of a live thread that the kernel program reports.
def Notices (g : UInt32) (s : State) (a : Action) : Prop :=
  ∃ cur, a = .trace cur .exit ∧ cur.tgid = g ∧ cur.tid ∈ s.live ∧ s.kernel.isTarget cur ∧ 
    ¬s.kernel.ringFull

-- A step that does not concern the process, or that moves one of its records on to userspace.
structure Idle (g : UInt32) (s s' : State) : Prop where
  live   : s'.live.Nonempty → s.live.Nonempty
  pinned : g ∈ s'.kernel.targets ↔ g ∈ s.kernel.targets
  count  : counted g s'.kernel = counted g s.kernel
  fewer  : (exitRecords g s').length + (exitRows g s').length ≤ 
    (exitRecords g s).length + (exitRows g s).length

section Rows

omit [Zone] in
theorem int_inj {x y : UInt32} (h : int x = int y) : x = y :=
  UInt32.toNat_inj.mp <| Int.ofNat_inj.mp h

theorem isExit_of_rowOf {r : Agg.EventRow} (h : rowOf now e = some r) (hr : isExitRow g r) : 
    isExit g e := by
  simp only [isExitRow, decide_eq_true_eq] at hr
  have ⟨ht, hp⟩ := hr
  simp only [rowOf] at h
  by_cases hx : e.type = evtExit
  case pos =>
    simp only [hx, if_neg (show evtExit ≠ evtExec by decide), if_true, Option.some.injEq] at h
    subst h
    simp only [isExit, decide_eq_true_eq]
    exact ⟨hx, int_inj hp⟩
  case neg =>
    exfalso
    split_ifs at h <;> cases h <;> simp only [eventRow] at ht <;> exact absurd ht (by decide)

-- A row for the exit of the process comes from a record of an exit.
theorem length_exitRows_le (cfg : Config) (now : Time) (e : Event) : 
    ((handleEvent cfg now e).toList.filter (isExitRow g)).length ≤ 
      ([e].filter (isExit g)).length := by
  cases h : (handleEvent cfg now e).toList.filter (isExitRow g)
  case nil => simp
  case cons r rs =>
    have hm : r ∈ (handleEvent cfg now e).toList.filter (isExitRow g) := by simp [h]
    have ⟨hr, hx⟩ := List.mem_filter.mp hm
    have hs : handleEvent cfg now e = some r := by simpa using hr
    have he : isExit g e := by
      simp only [handleEvent] at hs
      split at hs
      case isTrue  => exact isExit_of_rowOf hs hx
      case isFalse => contradiction
    have hl : (handleEvent cfg now e).toList.length = 1 := by simp [hs]
    have := List.length_filter_le (isExitRow g) (handleEvent cfg now e).toList
    rw [h] at this
    simp only [he, List.filter_cons_of_pos, List.filter_nil, List.length_singleton]
    omega

theorem read_idle : Idle g s (read s cfg now) := by
  simp only [read]
  split
  case h_1 => exact ⟨id, .rfl, rfl, le_rfl⟩
  case h_2 e es he =>
    refine ⟨id, .rfl, rfl, ?_⟩
    have hl := length_exitRows_le (g := g) cfg now e
    simp only [exitRecords, exitRows, he, List.filter_append, List.length_append]
    rw [← List.singleton_append (x := e), List.filter_append, List.length_append]
    omega

end Rows

omit [Zone] in
theorem exitRecords_run (h : tp = .exit → cur.tgid ≠ g) : 
    (k.run arch cur tp).events.filter (isExit g) = k.events.filter (isExit g) := by
  have ⟨es, he, hm⟩ : k.Appends (k.run arch cur tp) (Emits k cur tp) := run_appends
  have hn : es.filter (isExit g) = [] := by
    refine List.filter_eq_nil_iff.mpr fun e hx hi => ?_
    simp only [isExit, decide_eq_true_eq] at hi
    have hs := hm e hx
    exact h (hs.exit hi.left) (hs.describes.left ▸ hi.right)
  rw [he, List.filter_append, hn, List.append_nil]

omit [Zone] in
theorem counted_eq {k' : Kernel} (h : k'.syscallCount? g = k.syscallCount? g) : 
    counted g k' = counted g k := by
  simp only [counted, h]

section Trace

variable {ctx : SysEnterCtx} {mem : UserMemory}

omit [Zone]

theorem trace_kernel : (trace g arch s cur tp).kernel = s.kernel.run arch cur tp := by
  simp only [trace]
  split
  · split <;> rfl
  · rfl

theorem trace_rows : (trace g arch s cur tp).rows = s.rows := by
  simp only [trace]
  split
  · split <;> rfl
  · rfl

theorem trace_live_of_ne (h : tp = .exit → cur.tgid ≠ g) : (trace g arch s cur tp).live = s.live := by
  simp only [trace]
  split
  case h_1 => exact if_neg (h rfl) ▸ rfl
  case h_2 => rfl

theorem trace_exit_live (h : cur.tgid = g) : 
    (trace g arch s cur .exit).live = s.live.erase cur.tid := by
  simp [trace, h]

-- A tracepoint that keeps the maps and adds no record of an exit.
theorem trace_idle (hl : (trace g arch s cur tp).live.Nonempty → s.live.Nonempty)
    (ht : g ∈ (s.kernel.run arch cur tp).targets ↔ g ∈ s.kernel.targets) 
    (hc : (s.kernel.run arch cur tp).syscallCount? g = s.kernel.syscallCount? g) 
    (he : (s.kernel.run arch cur tp).events.filter (isExit g) = s.kernel.events.filter (isExit g)) : 
    Idle g s (trace g arch s cur tp) where
  live   := hl
  pinned := by rw [trace_kernel, ht]
  count  := by rw [trace_kernel, counted_eq hc]
  fewer  := by simp only [exitRecords, exitRows, trace_kernel, trace_rows, he, le_rfl]

theorem trace_idle_of_ne (h : cur.tgid ≠ g) : Idle g s (trace g arch s cur tp) := by
  have hf : Frame s.kernel (s.kernel.run arch cur tp) cur.tgid := run_frame
  apply trace_idle
  case hl => rw [trace_live_of_ne fun _ => h]; exact id
  case ht => exact hf.targets g h.symm
  case hc => exact hf.syscallCount? h.symm
  case he => exact exitRecords_run fun _ => h

-- A tracepoint program that is quiet and that is not that of the exit.
theorem trace_idle_of_quiet (h : Quiet s.kernel (s.kernel.run arch cur tp) g) (hx : tp ≠ .exit) : 
    Idle g s (trace g arch s cur tp) := by
  apply trace_idle
  case hl => rw [trace_live_of_ne fun hx' => absurd hx' hx]; exact id
  case ht => rw [h.keeps]
  case hc => exact h.counts
  case he => exact exitRecords_run fun hx' => absurd hx' hx

-- An exit of which the kernel program takes no notice.
theorem trace_exit_idle (hg : cur.tgid = g) (h : s.kernel.isTarget cur → s.kernel.ringFull) : 
    Idle g s (trace g arch s cur .exit) := by
  have hk : s.kernel.run arch cur .exit = s.kernel ∨ 
      s.kernel.run arch cur .exit = s.kernel.recordDrop := by
    by_cases ht : s.kernel.isTarget cur
    case pos => exact .inr <| tpExit_of_ringFull ht (h ht)
    case neg => exact .inl <| tpExit_eq_self ht
  apply trace_idle
  case hl =>
    rw [trace_exit_live hg]
    exact fun hn => hn.mono (Finset.erase_subset _ _)
  all_goals
    cases hk
    case inl hk => rw [hk]
    case inr hk => rw [hk]; rfl

end Trace

-- Everything but an observed system call and a reported exit is idle.
theorem step_idle (ho : ¬Observes g s a) (hn : ¬Notices g s a) : Idle g s (step g arch s a) := by
  cases a
  case clone tid =>
    simp only [step]
    split
    case isTrue h  => exact ⟨fun _ => h, .rfl, rfl, le_rfl⟩
    case isFalse h => exact ⟨id, .rfl, rfl, le_rfl⟩
  case read => exact read_idle
  case trace cur tp =>
    simp only [step]
    split
    case isFalse h => exact ⟨id, .rfl, rfl, le_rfl⟩
    case isTrue h =>
      by_cases hg : cur.tgid = g
      case neg => exact trace_idle_of_ne hg
      case pos =>
        cases tp
        case exec    => exact trace_idle_of_quiet .tpExec (by simp)
        case sysExit => exact trace_idle_of_quiet (hg ▸ .tpSysExit) (by simp)
        case sysEnter ctx mem =>
          have ht : ¬s.kernel.isTarget cur := fun ht => ho ⟨cur, ctx, mem, rfl, hg, h hg, ht⟩
          have hr : s.kernel.run arch cur (.sysEnter ctx mem) = s.kernel := tpSysEnter_eq_self ht
          refine trace_idle_of_quiet ?_ (by simp)
          rw [hr]
          exact .refl
        case exit =>
          apply trace_exit_idle hg
          intro ht
          by_contra hf
          exact hn ⟨cur, rfl, hg, h hg, ht, hf⟩

-- An observed system call changes nothing but the count, which stays at zero without room.
structure Counted (g : UInt32) (s s' : State) : Prop where
  live    : s'.live = s.live
  pinned  : g ∈ s'.kernel.targets ↔ g ∈ s.kernel.targets
  count   : s'.kernel.syscallCount? g = 
    if s.kernel.processStats.Room g then some ((s.kernel.syscallCount? g).getD 0 + 1) else none
  records : exitRecords g s' = exitRecords g s
  rows    : exitRows g s' = exitRows g s

-- A reported exit takes the process out of the maps, whether or not other threads live on.
structure Reported (g : UInt32) (s s' : State) : Prop where
  pinned  : g ∉ s'.kernel.targets
  records : (exitRecords g s').length ≤ (exitRecords g s).length + 1
  rows    : exitRows g s' = exitRows g s

theorem step_observes (h : Observes g s a) : Counted g s (step g arch s a) := by
  have ⟨cur, ctx, mem, ha, hg, hl, ht⟩ := h
  subst ha hg
  simp only [step, hl, implies_true, if_true]
  constructor
  case live    => exact trace_live_of_ne (by simp)
  case pinned  => rw [trace_kernel, run, tpSysEnter_targets]
  case count   => rw [trace_kernel, run, tpSysEnter_syscallCount? ht]
  case records => rw [exitRecords, trace_kernel, exitRecords_run (by simp), exitRecords]
  case rows    => rw [exitRows, trace_rows, exitRows]

theorem step_notices (h : Notices g s a) : Reported g s (step g arch s a) := by
  have ⟨cur, ha, hg, hl, ht, hf⟩ := h
  subst ha hg
  have ⟨hp, hk, e, he, _⟩ := tpExit_of_not_ringFull ht hf
  simp only [step, hl, implies_true, if_true]
  constructor
  case pinned  => 
    rw [trace_kernel, run, hk]
    exact BoundedMap.not_mem_erase
  case records => 
    rw [exitRecords, trace_kernel, run, he, List.filter_append, List.length_append, exitRecords]
    exact Nat.add_le_add_left (List.length_filter_le _ _) _
  case rows    => rw [exitRows, trace_rows, exitRows]

namespace Counted

variable {s' : State}

omit [Zone] in
theorem count_of_room (c : Counted g s s') 
    (h : s.kernel.processStats.Room g ∧ counted g s.kernel < 2 ^ 64 - 1) : 
    counted g s'.kernel = counted g s.kernel + 1 := by
  have hl := h.right
  simp only [counted, c.count, if_pos h.left, Option.getD_some, UInt64.toNat_add] at hl ⊢
  change (_ + 1) % 2 ^ 64 = _
  omega

omit [Zone] in
-- Without room, or at the end of its range, the count does not go up.
theorem room_of_count (c : Counted g s s') (h : counted g s'.kernel = counted g s.kernel + 1) : 
    s.kernel.processStats.Room g ∧ counted g s.kernel < 2 ^ 64 - 1 := by
  have hr : s.kernel.processStats.Room g := by
    by_contra hr
    simp only [counted, c.count, if_neg hr, Option.getD_none] at h
    contradiction
  refine ⟨hr, ?_⟩
  have hl := UInt64.toNat_lt ((s'.kernel.syscallCount? g).getD 0)
  simp only [counted] at h ⊢
  omega

end Counted

namespace Invariant

omit [Zone] in
theorem of_idle {s' : State} (i : Invariant g s) (h : Idle g s s') : Invariant g s' where
  pinned hl := h.pinned.mpr <| i.pinned (h.live hl)
  once      := h.fewer.trans i.once
  silent hl := by
    have ⟨hr, he⟩ := i.silent (h.live hl)
    have hf := h.fewer
    simp only [hr, he, List.length_nil, Nat.add_zero, Nat.le_zero, Nat.add_eq_zero_iff,
      List.length_eq_zero_iff] at hf
    exact hf

omit [Zone] in
theorem of_counted {s' : State} (i : Invariant g s) (h : Counted g s s') : Invariant g s' where
  pinned hl := h.pinned.mpr <| i.pinned (h.live ▸ hl)
  once      := by rw [h.records, h.rows]; exact i.once
  silent hl := by rw [h.records, h.rows]; exact i.silent (h.live ▸ hl)

-- A safe exit that is reported is the last one.
theorem not_live_of_notices (h : Safe g s a) (hn : Notices g s a) : 
    ¬(step g arch s a).live.Nonempty := by
  have ⟨cur, ha, hg, hl, _, hf⟩ := hn
  have he := h.exit cur ha hg hl
  subst ha
  simp only [step, hg, hl, implies_true, if_true, trace_exit_live hg]
  exact fun hne => hf (he hne)

theorem preserved (i : Invariant g s) (h : Safe g s a) : Invariant g (step g arch s a) := by
  by_cases ho : Observes g s a
  case pos => exact i.of_counted <| step_observes ho
  case neg =>
    by_cases hn : Notices g s a
    case neg => exact i.of_idle <| step_idle ho hn
    case pos =>
      have hl : ¬(step g arch s a).live.Nonempty := not_live_of_notices h hn
      have r : Reported g s (step g arch s a) := step_notices hn
      have ⟨cur, _, _, hm, _⟩ := hn
      have ⟨he, hr⟩ := i.silent ⟨cur.tid, hm⟩
      refine ⟨fun h => absurd h hl, fun h => absurd h hl, ?_⟩
      have hc := r.records
      rw [r.rows, hr]
      simpa [he] using hc

theorem perProcess (i : Invariant g s) (h : Safe g s a) : PerProcess g arch s a := by
  have i' : Invariant g (step g arch s a) := i.preserved h
  constructor
  case pinned => exact i'.pinned
  case last   => exact fun hl => i'.silent hl |>.right
  case once   => exact (Nat.le_add_left ..).trans i'.once
  case counts => exact fun ho => (step_observes ho).count_of_room (h.room ho)
  case keeps  =>
    intro hl
    by_cases ho : Observes g s a
    case pos => exact (step_observes ho).count_of_room (h.room ho) ▸ Nat.le_succ _
    case neg =>
      by_cases hn : Notices g s a
      case pos => exact absurd hl <| not_live_of_notices h hn
      case neg => exact (step_idle ho hn).count.ge

theorem safe (i : Invariant g s) (h : PerProcess g arch s a) : Safe g s a where
  exit cur ha hg hl hne := by
    have ht : s.kernel.isTarget cur := 
      isTarget_iff.mpr <| .inr <| .inr <| .inr <| hg ▸ i.pinned ⟨_, hl⟩
    by_contra hf
    have r : Reported g s (step g arch s a) := step_notices ⟨cur, ha, hg, hl, ht, hf⟩
    subst ha
    apply r.pinned
    apply h.pinned
    simpa only [step, hg, hl, implies_true, if_true, trace_exit_live hg] using hne
  room ho := (step_observes ho).room_of_count (h.counts ho)

end Invariant

-- In any run from a state with a pinned process of which no exit has been reported, the exit is
-- handled per process if and only if every step is safe.
theorem always_perProcess_iff {as : List Action} (i : Invariant g s) : 
    Execution.Always (step g arch) (PerProcess g arch) s as ↔ 
      Execution.Always (step g arch) (fun s a => Safe g s a) s as :=
  (Execution.Always.congr i (fun _ _ i h => i.preserved h) 
    fun _ _ i => ⟨i.perProcess, i.safe⟩).symm

end Run

section Worker

attribute [local instance] Unicode.ascii Zone.utcEpoch

def thread (tid : UInt32) : Current where
  tgid  := 7
  tid   := tid
  uid   := 0
  comm  := .ofBytes []
  ktime := 0
  junk  := .zeros 128

-- A pinned process with two threads.
def twoThreads : State where
  kernel := { Kernel.empty with targets := (∅ : BoundedMap UInt32 UInt8 256).insert 7 1 }
  live   := {7, 8}
  agent  := .new Time.epoch
  rows   := []

theorem twoThreads_invariant : Invariant 7 twoThreads where
  pinned _ := by decide
  silent _ := ⟨rfl, rfl⟩
  once     := by decide

-- The exit of the second thread unpins the process while its first thread is running.
theorem not_always_perProcess : 
    Invariant 7 twoThreads ∧ 
    ¬Execution.Always (step 7 .x86_64) (PerProcess 7 .x86_64) twoThreads 
      [.trace (thread 8) .exit, .read (Config.loadTarget 7 []) Time.epoch] := by
  refine ⟨twoThreads_invariant, fun h => ?_⟩
  exact absurd (h.left.pinned (by decide)) (by decide)

theorem always_perProcess_iff_twoThreads : 
    Execution.Always (step 7 .x86_64) (PerProcess 7 .x86_64) twoThreads 
      [.trace (thread 8) .exit] ↔ 
    Execution.Always (step 7 .x86_64) (fun s a => Safe 7 s a) twoThreads 
      [.trace (thread 8) .exit] :=
  always_perProcess_iff twoThreads_invariant

end Worker
end EbpfAgent.Lifetime
