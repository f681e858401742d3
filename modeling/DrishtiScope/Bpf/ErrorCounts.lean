import DrishtiScope.Bpf.Effects
import DrishtiScope.Lib.Execution
import DrishtiScope.Lib.Inflight

open Go Linux Execution

-- The calls and the errors that are counted for a process.
namespace Bpf.Kernel

variable {k k' : Kernel} {arch : Arch} {cur : Current} {add : ProcStats → ProcStats} {t : UInt32} 
         {ctx : SysEnterCtx} {mem : UserMemory} {ret : Int64} {nr : UInt32}

-- A process without an entry has the counts of a new one.
def entry (k : Kernel) (t : UInt32) : ProcStats :=
  (k.processStats.lookup t).getD {}

theorem entry_of_lookup {ps : ProcStats} (h : k.processStats.lookup t = some ps) : k.entry t = ps := by
  rw [entry, h, Option.getD_some]

theorem entry_of_not_mem (h : t ∉ k.processStats) : k.entry t = {} := by
  rw [entry, BoundedMap.not_mem_iff.mp h, Option.getD_none]

theorem entry_congr (h : k'.processStats.lookup t = k.processStats.lookup t) : k'.entry t = k.entry t := by
  rw [entry, entry, h]

theorem mem_congr (h : k'.processStats.lookup t = k.processStats.lookup t) : 
    t ∈ k'.processStats ↔ t ∈ k.processStats := by
  rw [BoundedMap.mem_iff_isSome, BoundedMap.mem_iff_isSome, h]

theorem mem_addStats : t ∈ (k.addStats t add).processStats ↔ t ∈ k.processStats := by
  rw [BoundedMap.mem_iff_isSome, BoundedMap.mem_iff_isSome, addStats, BoundedMap.lookup_modify, 
    Option.isSome_map]

theorem entry_addStats (h : t ∈ k.processStats) : (k.addStats t add).entry t = add (k.entry t) := by
  have ⟨ps, hp⟩ := Option.isSome_iff_exists.mp <| BoundedMap.mem_iff_isSome.mp h
  rw [entry_of_lookup hp, entry, addStats, BoundedMap.lookup_modify, hp, Option.map_some, Option.getD_some]

-- The calls and the errors of the process are counted as before.
structure Level (k k' : Kernel) (t : UInt32) : Prop where
  mem    : t ∈ k'.processStats ↔ t ∈ k.processStats
  errors : (k'.entry t).errCount = (k.entry t).errCount
  calls  : (k'.entry t).syscallCount = (k.entry t).syscallCount

namespace Level

theorem of_lookup (h : k'.processStats.lookup t = k.processStats.lookup t) : Level k k' t where
  mem    := mem_congr h
  errors := by rw [entry_congr h]
  calls  := by rw [entry_congr h]

theorem of_eq (h : k'.processStats = k.processStats) : Level k k' t :=
  .of_lookup <| by rw [h]

theorem trans {k'' : Kernel} (h : Level k k' t) (h' : Level k' k'' t) : Level k k'' t where
  mem    := h'.mem.trans h.mem
  errors := h'.errors.trans h.errors
  calls  := h'.calls.trans h.calls

theorem addStats (he : ∀ ps, (add ps).errCount = ps.errCount) 
    (hc : ∀ ps, (add ps).syscallCount = ps.syscallCount) : Level k (k.addStats t add) t := by
  by_cases hm : t ∈ k.processStats
  case pos => exact ⟨mem_addStats, by rw [entry_addStats hm, he], by rw [entry_addStats hm, hc]⟩
  case neg =>
    have hm' : t ∉ (k.addStats t add).processStats := hm ∘ mem_addStats.mp
    exact ⟨mem_addStats, by rw [entry_of_not_mem hm, entry_of_not_mem hm'], 
      by rw [entry_of_not_mem hm, entry_of_not_mem hm']⟩

theorem enterOpenat : Level k (k.enterOpenat cur ctx mem) cur.tgid := by
  simp only [Kernel.enterOpenat]
  refine .trans (.trans ?state <| .addStats ?errors ?calls) <| .of_eq allocEvent_processStats
  case state  => exact .of_eq rfl
  case errors => exact fun _ => rfl
  case calls  => exact fun _ => rfl

theorem enterConnect : Level k (k.enterConnect cur ctx mem) cur.tgid := by
  simp only [Kernel.enterConnect]
  split
  · exact .of_eq rfl
  · split
    · exact .of_eq rfl
    · refine .trans ?state <| .addStats ?errors ?calls
      case state  => exact .of_eq rfl
      case errors => exact fun _ => rfl
      case calls  => exact fun _ => rfl

theorem exitOpenat : Level k (k.exitOpenat cur ret) t := by
  apply of_eq
  simp only [Kernel.exitOpenat]
  split
  · split
    · exact allocEvent_processStats
    · rfl
  · rfl

theorem exitConnect : Level k (k.exitConnect cur ret) t := by
  apply of_eq
  simp only [Kernel.exitConnect]
  split
  · split
    · exact allocEvent_processStats
    · rfl
  · rfl

end Level

variable (arch ctx mem) in
-- What is counted when a call is entered, before the rest of the program counts nothing.
theorem tpSysEnter_level (h : k.isTarget cur) : 
    Level ((k.getStats cur.tgid).addStats cur.tgid fun ps => 
      { ps with syscallCount := ps.syscallCount + 1 }) (k.tpSysEnter arch cur ctx mem) cur.tgid := by
  have hc {nr : UInt32} : Level _ (k.countEnter cur nr) cur.tgid := .of_eq bumpSyscall_processStats
  rw [tpSysEnter_eq h rfl]
  split
  · exact hc.trans .enterOpenat
  · split
    · exact hc.trans .enterConnect
    · split
      · exact hc.trans <| .of_eq allocEvent_processStats
      · exact hc

variable (arch ctx mem) in
theorem tpSysEnter_counts (h : k.isTarget cur) (hr : k.processStats.Room cur.tgid) : 
    cur.tgid ∈ (k.tpSysEnter arch cur ctx mem).processStats ∧ 
    ((k.tpSysEnter arch cur ctx mem).entry cur.tgid).errCount = (k.entry cur.tgid).errCount ∧ 
    ((k.tpSysEnter arch cur ctx mem).entry cur.tgid).syscallCount = (k.entry cur.tgid).syscallCount + 1 := by
  have hl := tpSysEnter_level arch ctx mem h
  have hs : (k.getStats cur.tgid).processStats.lookup cur.tgid = some (k.entry cur.tgid) :=
    BoundedMap.lookup_insertNew hr
  have hm := BoundedMap.mem_of_lookup hs
  rw [hl.mem, hl.errors, hl.calls, mem_addStats, entry_addStats hm, entry_of_lookup hs]
  exact ⟨hm, rfl, rfl⟩

variable (arch ctx mem) in
theorem tpSysEnter_not_room (h : k.isTarget cur) (hr : ¬k.processStats.Room cur.tgid) : 
    Level k (k.tpSysEnter arch cur ctx mem) cur.tgid := by
  have hm : cur.tgid ∉ k.processStats := fun hm => hr <| .of_mem hm
  have hs : (k.getStats cur.tgid).processStats = k.processStats := BoundedMap.insertNew_eq_self hr
  refine .trans ?_ <| tpSysEnter_level arch ctx mem h
  apply Level.of_lookup
  simp only [addStats, hs, BoundedMap.lookup_modify, BoundedMap.not_mem_iff.mp hm, Option.map_none]

theorem countBytes_errCount {ps : ProcStats} : (countBytes arch nr ret ps).errCount = ps.errCount := by
  simp only [countBytes]
  split_ifs <;> rfl

variable (arch ret) in
-- What is counted at the end of a call, before the rest of the program counts nothing.
theorem tpSysExit_level (id : Int64) (h : k.isTarget cur) : 
    Level (k.exitStats arch cur.tgid id.toUInt64.toUInt32 ret) (k.tpSysExit arch cur ⟨id, ret⟩) cur.tgid := by
  rw [tpSysExit_eq h rfl]
  split
  · exact .exitOpenat
  · split
    · exact .exitConnect
    · exact .of_eq rfl

theorem exitStats_level (h : ¬ret < 0) : Level k (k.exitStats arch t nr ret) t := by
  rw [exitStats, if_neg h]
  split
  · exact .addStats (fun _ => countBytes_errCount) fun _ => countBytes_syscallCount
  · exact .of_eq rfl

theorem tpSysExit_not_failed {ctx : SysExitCtx} (h : ¬(k.isTarget cur ∧ ctx.ret < 0)) : 
    Level k (k.tpSysExit arch cur ctx) cur.tgid := by
  by_cases ht : k.isTarget cur
  case pos => exact (exitStats_level fun hr => h ⟨ht, hr⟩).trans <| tpSysExit_level arch ctx.ret ctx.id ht
  case neg => exact .of_eq <| by rw [tpSysExit_eq_self ht]

variable (arch) in
theorem tpSysExit_failed {ctx : SysExitCtx} (h : k.isTarget cur) (hm : cur.tgid ∈ k.processStats) 
    (hr : ctx.ret < 0) : 
    ((k.tpSysExit arch cur ctx).entry cur.tgid).errCount = (k.entry cur.tgid).errCount + 1 ∧ 
    ((k.tpSysExit arch cur ctx).entry cur.tgid).syscallCount = (k.entry cur.tgid).syscallCount := by
  have hl := tpSysExit_level arch ctx.ret ctx.id h
  rw [hl.errors, hl.calls, exitStats, if_pos hr, entry_addStats hm]
  exact ⟨rfl, rfl⟩

theorem tpSysExit_mem {ctx : SysExitCtx} : 
    cur.tgid ∈ (k.tpSysExit arch cur ctx).processStats ↔ cur.tgid ∈ k.processStats := by
  by_cases h : k.isTarget cur
  case neg => rw [tpSysExit_eq_self h]
  case pos => 
    refine (tpSysExit_level arch ctx.ret ctx.id h).mem.trans ?_
    simp only [exitStats]
    split
    · exact mem_addStats
    · split
      · exact mem_addStats
      · exact .rfl

-- The entry of a process is still there after the exit of a thread only if the program did nothing.
theorem tpExit_level (h : cur.tgid ∈ (k.tpExit cur).processStats) : Level k (k.tpExit cur) cur.tgid := by
  by_cases ht : k.isTarget cur
  case neg => exact .of_eq <| by rw [tpExit_eq_self ht]
  case pos =>
    by_cases hf : k.ringFull
    case pos => exact .of_eq <| by rw [tpExit_of_ringFull ht hf, recordDrop]
    case neg =>
      rw [(tpExit_of_not_ringFull ht hf).left] at h
      exact absurd h BoundedMap.not_mem_erase

end Bpf.Kernel

-- Whatever the threads, the configuration and the reader of the ring buffer do in turn.
namespace Bpf.ErrorCounts

-- `counted` are the threads of a process that are in a call which has been counted in its present entry.
structure State where
  kernel  : Kernel
  counted : UInt32 → Finset UInt32

-- The program is attached while some threads are in calls, none of which has been counted.
def start (config : ConfigT) (targets : BoundedMap UInt32 UInt8 256) : State where
  kernel    := { Kernel.empty with config := config, targets := targets }
  counted _ := ∅

inductive Action
  | trace (cur : Current) (tp : Tracepoint)
  | configure (config : ConfigT)
  | pin (targets : BoundedMap UInt32 UInt8 256)
  | consume

def State.countedAfter (s : State) (arch : Arch) (cur : Current) (tp : Tracepoint) : Finset UInt32 :=
  if cur.tgid ∈ (s.kernel.run arch cur tp).processStats then
    match tp with
    | .sysEnter .. => 
      if s.kernel.isTarget cur then 
        insert cur.tid <| s.counted cur.tgid 
      else 
        (s.counted cur.tgid).erase cur.tid
    | .sysExit _   => (s.counted cur.tgid).erase cur.tid
    | _            => s.counted cur.tgid
  else
    ∅

def step (arch : Arch) (s : State) : Action → State
  | .trace cur tp => {
      kernel  := s.kernel.run arch cur tp
      counted := Function.update s.counted cur.tgid <| s.countedAfter arch cur tp
    }
  | .configure config => { s with kernel := { s.kernel with config := config } }
  | .pin targets      => { s with kernel := { s.kernel with targets := targets } }
  | .consume          => { s with kernel := { s.kernel with events := s.kernel.events.tail } }

-- The errors of a process do not exceed its calls.
def Within (k : Kernel) : Prop :=
  ∀ tgid, ∀ ps ∈ k.processStats.lookup tgid, ps.errCount ≤ ps.syscallCount

-- A failure that is counted is that of a call which has been counted in the present entry, and the calls of 
-- an entry can be counted in 64 bits.
def Paired (s : State) : Action → Prop
  | .trace cur (.sysEnter ..) => 
    s.kernel.isTarget cur → (s.kernel.entry cur.tgid).syscallCount.toNat + 1 < 2 ^ 64
  | .trace cur (.sysExit ctx) => 
    s.kernel.isTarget cur → cur.tgid ∈ s.kernel.processStats → ctx.ret < 0 → cur.tid ∈ s.counted cur.tgid
  | _ => True

-- The calls of a process that are in progress have been counted in addition to those that have failed.
def Inv (s : State) : Prop :=
  ∀ tgid, Inflight.Covers (s.counted tgid) (s.kernel.entry tgid).errCount.toNat 
    (s.kernel.entry tgid).syscallCount.toNat

variable {s : State} {arch : Arch} {a : Action} {config : ConfigT} {targets : BoundedMap UInt32 UInt8 256} 
         {cur : Current} {tp : Tracepoint}

theorem Inv.of_start : Inv (start config targets) := 
  fun _ => .empty <| Nat.zero_le _

theorem Inv.within (h : Inv s) : Within s.kernel := by
  intro tgid ps hp
  have hc := (h tgid).le
  rwa [Kernel.entry_of_lookup hp, ← UInt64.le_iff_toNat_le] at hc

theorem Inv.sysEnter {ctx : SysEnterCtx} {mem : UserMemory} (h : Inv s) 
    (hp : Paired s <| .trace cur <| .sysEnter ctx mem) 
    (hm : cur.tgid ∈ (s.kernel.tpSysEnter arch cur ctx mem).processStats) : 
    Inflight.Covers 
      (if s.kernel.isTarget cur then insert cur.tid (s.counted cur.tgid) else (s.counted cur.tgid).erase cur.tid) 
      ((s.kernel.tpSysEnter arch cur ctx mem).entry cur.tgid).errCount.toNat
      ((s.kernel.tpSysEnter arch cur ctx mem).entry cur.tgid).syscallCount.toNat := by
  by_cases ht : s.kernel.isTarget cur
  case neg =>
    rw [Kernel.tpSysEnter_eq_self ht, if_neg ht]
    exact (h cur.tgid).leave
  case pos =>
    by_cases hr : s.kernel.processStats.Room cur.tgid
    case neg =>
      have hl := Kernel.tpSysEnter_not_room arch ctx mem ht hr
      exact absurd (.of_mem <| hl.mem.mp hm) hr
    case pos =>
      have ⟨_, he, hn⟩ := Kernel.tpSysEnter_counts arch ctx mem ht hr
      have hb := Nat.mod_eq_of_lt <| hp ht
      rw [if_pos ht, he, hn, UInt64.toNat_add, UInt64.toNat_one, hb]
      exact (h cur.tgid).start

theorem Inv.sysExit {ctx : SysExitCtx} (h : Inv s) (hp : Paired s <| .trace cur <| .sysExit ctx) 
    (hm : cur.tgid ∈ (s.kernel.tpSysExit arch cur ctx).processStats) : 
    Inflight.Covers ((s.counted cur.tgid).erase cur.tid) 
      ((s.kernel.tpSysExit arch cur ctx).entry cur.tgid).errCount.toNat
      ((s.kernel.tpSysExit arch cur ctx).entry cur.tgid).syscallCount.toNat := by
  by_cases hf : s.kernel.isTarget cur ∧ ctx.ret < 0
  case pos =>
    have ⟨ht, hr⟩ := hf
    have hm := Kernel.tpSysExit_mem.mp hm
    have ⟨he, hn⟩ := Kernel.tpSysExit_failed arch ht hm hr
    have hc := (h cur.tgid).fail <| hp ht hm hr
    have hb := hc.le.trans_lt <| UInt64.toNat_lt _
    rw [he, hn, UInt64.toNat_add, UInt64.toNat_one, Nat.mod_eq_of_lt hb]
    exact hc
  case neg =>
    have hl : Kernel.Level s.kernel (s.kernel.tpSysExit arch cur ctx) cur.tgid := 
      Kernel.tpSysExit_not_failed hf
    rw [hl.errors, hl.calls]
    exact (h cur.tgid).leave

theorem Inv.trace (h : Inv s) (hp : Paired s <| .trace cur tp) (arch : Arch) : 
    Inflight.Covers (s.countedAfter arch cur tp) 
      ((s.kernel.run arch cur tp).entry cur.tgid).errCount.toNat
      ((s.kernel.run arch cur tp).entry cur.tgid).syscallCount.toNat := by
  simp only [State.countedAfter]
  split
  case isFalse hm =>
    rw [Kernel.entry_of_not_mem hm]
    exact .empty <| Nat.zero_le _
  case isTrue hm =>
    have hc := h cur.tgid
    cases tp
    case exec f => 
      have hl : Kernel.Level s.kernel (s.kernel.tpExec cur f) cur.tgid := .of_eq Kernel.allocEvent_processStats
      simp only [Kernel.run]
      rwa [hl.errors, hl.calls]
    case exit => 
      have hl := Kernel.tpExit_level hm
      simp only [Kernel.run]
      rwa [hl.errors, hl.calls]
    case sysEnter => exact h.sysEnter hp hm
    case sysExit  => exact h.sysExit hp hm

theorem Inv.step (h : Inv s) (hp : Paired s a) : Inv (step arch s a) := by
  cases a
  case trace cur tp =>
    intro tgid
    by_cases ht : tgid = cur.tgid
    case pos =>
      simp only [ErrorCounts.step, ht, Function.update_self]
      exact h.trace hp arch
    case neg =>
      have hs : (s.kernel.run arch cur tp).entry tgid = s.kernel.entry tgid := 
        Kernel.entry_congr <| Kernel.run_frame.stats tgid ht
      simp only [ErrorCounts.step, Function.update_of_ne ht, hs]
      exact h tgid
  all_goals exact h

-- While each failure is paired with a call, no process has more errors than calls in any state.
theorem within_of_paired {as : List Action} (h : Always (step arch) Paired (start config targets) as) : 
    Within (exec (step arch) (start config targets) as).kernel :=
  have hi := h.invariant (I := Inv) Inv.of_start fun _ _ hi hp => hi.step hp
  hi.within

section Attached

def thread (tid : UInt32) : Current where
  tgid  := 151
  tid   := tid
  uid   := 0
  comm  := .ofBytes []
  ktime := 0
  junk  := .zeros 128

def observing : ConfigT where
  targetTgid := 151
  sampleRate := 1
  observeAll := 0
  targetComm := .zeros 16

-- Calls of `read` and `getppid`.
def enters (tid : UInt32) (id : Int64) : Action :=
  .trace (thread tid) <| .sysEnter ⟨id, ⟨[0, 0, 0, 0, 0, 0], rfl⟩⟩ ⟨fun _ => none, fun _ => none⟩

def returns (tid : UInt32) (id ret : Int64) : Action :=
  .trace (thread tid) <| .sysExit ⟨id, ret⟩

theorem within_interrupted : 
    Within (exec (step .x86_64) (start observing ∅) [enters 151 0, returns 151 0 (-4)]).kernel :=
  within_of_paired ⟨fun _ => by decide, fun _ _ _ => by decide, trivial⟩

-- Two threads of the process are in calls while it becomes the target, and a third one makes a call. The two 
-- calls are then interrupted.
def attaching : List Action := [
  enters 152 0,
  enters 153 0,
  .configure observing,
  enters 151 110,
  returns 151 110 1,
  returns 152 0 (-4),
  returns 153 0 (-4)
]

theorem not_within_attaching : 
    ¬Within (exec (step .x86_64) (start { observing with targetTgid := 0 } ∅) attaching).kernel := by
  intro h
  have hs : ∃ ps ∈ (exec (step .x86_64) (start { observing with targetTgid := 0 } ∅) attaching).kernel 
      |>.processStats.lookup 151, ps.errCount = 2 ∧ ps.syscallCount = 1 := ⟨_, rfl, rfl, rfl⟩
  have ⟨ps, hp, he, hc⟩ := hs
  have hl := h 151 ps hp
  rw [he, hc] at hl
  contradiction

end Attached
end Bpf.ErrorCounts
