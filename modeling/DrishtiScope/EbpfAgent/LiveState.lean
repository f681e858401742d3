import DrishtiScope.EbpfAgent.Agent
import Mathlib.Algebra.BigOperators.Group.List.Basic
import Mathlib.Algebra.Order.BigOperators.Group.List
import Mathlib.Tactic.FieldSimp
import Mathlib.Tactic.Ring

open Go Linux Bpf

namespace EbpfAgent

structure FileAcc where
  ops    : UInt64 := 0
  bytes  : UInt64 := 0
  errors : Int64 := 0

structure CpuSnap where
  utime : UInt64
  stime : UInt64
  time  : Time
  deriving DecidableEq

structure IoSnap where
  r    : UInt64
  w    : UInt64
  time : Time

-- The maps that are only read through an index with a default are functions.
structure LiveState where
  files    : AList fun _ : Bytes => FileAcc
  sysPrev  : UInt32 → UInt64
  statPrev : UInt32 → ProcStats
  cpuPrev  : Int → Option CpuSnap
  ioPrev   : Int → Option IoSnap
  flows    : AList fun _ : Bytes => Agg.NetFlow
  eventN   : UInt64
  connectN : UInt64
  lastTick : Time
  start    : Time

def LiveState.new (now : Time) : LiveState where
  files      := ∅
  sysPrev _  := 0
  statPrev _ := {}
  cpuPrev _  := none
  ioPrev _   := none
  flows      := ∅
  eventN     := 0
  connectN   := 0
  lastTick   := now
  start      := now

namespace LiveState

def noteOpen (s : LiveState) (ev : Event) : LiveState :=
  let path := if ev.path.cstr = [] then str "(unknown)" else ev.path.cstr
  let acc := (s.files.lookup path).getD {}
  let acc := { acc with 
    ops    := acc.ops + 1
    errors := if ev.ret < 0 ∨ failed ev then acc.errors + 1 else acc.errors
  }
  { s with files := s.files.insert path acc }

def noteConnect (s : LiveState) (ev : Event) : LiveState :=
  let s := { s with connectN := s.connectN + 1 }
  if failed ev then s else
    let dst := intToIP ev.daddr
    let key := str "tcp:" ++ dst ++ str ":" ++ itoa ev.dport.toNat
    let flow := (s.flows.lookup key).getD {
      src   := str "0.0.0.0"
      dst   := dst
      dport := ev.dport.toNat
      proto := str "tcp"
      state := str "ESTABLISHED"
      pid   := int ev.tgid
      comm  := ev.comm.cstr
    }
    { s with flows := s.flows.insert key flow }

def noteEvent (s : LiveState) (ev : Event) : LiveState :=
  let s := { s with eventN := s.eventN + 1 }
  if ev.type = evtOpen then
    s.noteOpen ev
  else if ev.type = evtConnect then
    s.noteConnect ev
  else
    s

end LiveState

-- The counters that `readProcessStats` turns into rates.
inductive Counter
  | syscalls
  | errs
  | connects
  | netTx
  | netRx
  deriving DecidableEq

def Counter.get (ps : ProcStats) : Counter → UInt64
  | .syscalls => ps.syscallCount
  | .errs     => ps.errCount
  | .connects => ps.connectCount
  | .netTx    => ps.netTxBytes
  | .netRx    => ps.netRxBytes

-- The rate that one entry contributes. The subtraction is that of `uint64`.
def contribution (prev val : ProcStats) (elapsed : ℚ) (c : Counter) : ℚ :=
  (c.get val - c.get prev).toNat / elapsed

-- The rates of the entries in the order of the iteration, and the state that remembers them.
def LiveState.readProcessStats (s : LiveState) (it : List (UInt32 × ProcStats)) (elapsed : ℚ) : 
    LiveState × (Counter → ℚ) :=
  if elapsed ≤ 0 then
    (s, fun _ => 0)
  else
    it.foldl next (s, fun _ => 0)
where
  next (acc : LiveState × (Counter → ℚ)) (entry : UInt32 × ProcStats) : LiveState × (Counter → ℚ) :=
    let (s, rates) := acc
    let (key, val) := entry
    ( { s with statPrev := Function.update s.statPrev key val }, 
      fun c => rates c + contribution (s.statPrev key) val elapsed c )

-- Only the remembered counters of the kernel change.
theorem LiveState.foldl_next_fst {s : LiveState} {it : List (UInt32 × ProcStats)} {elapsed : ℚ} 
    {rates : Counter → ℚ} : 
    (it.foldl (readProcessStats.next elapsed) (s, rates)).fst = 
      { s with statPrev := it.foldl (fun m e => Function.update m e.fst e.snd) s.statPrev } := by
  induction it generalizing s rates
  case nil          => rfl
  case cons e it hi => rw [List.foldl_cons, readProcessStats.next, hi, List.foldl_cons]

-- A difference of `uint64` is never smaller than the increase, and equal if there is one.
theorem toNat_sub_eq_iff {x y : UInt64} : (y - x).toNat = y.toNat - x.toNat ↔ x ≤ y := by
  have hx := x.toNat_lt
  have hy := y.toNat_lt
  rw [UInt64.toNat_sub, UInt64.le_iff_toNat_le]
  omega

theorem sub_toNat_le {x y : UInt64} : y.toNat - x.toNat ≤ (y - x).toNat := by
  have hx := x.toNat_lt
  have hy := y.toNat_lt
  rw [UInt64.toNat_sub]
  omega

-- Sums that are compared term by term are equal only if their terms are.
theorem sum_map_eq_iff {α β : Type*} [AddCommMonoid β] [LinearOrder β] 
    [IsOrderedCancelAddMonoid β] {f g : α → β} {l : List α} (h : ∀ x ∈ l, g x ≤ f x) : 
    (l.map f).sum = (l.map g).sum ↔ ∀ x ∈ l, f x = g x := by
  constructor
  case mpr => exact fun he => congrArg List.sum <| List.map_congr_left he
  case mp =>
    intro he x hx
    by_contra hn
    have hl : (l.map g).sum < (l.map f).sum := 
      List.sum_lt_sum g f h ⟨x, hx, lt_of_le_of_ne (h x hx) (Ne.symm hn)⟩
    exact hl.ne' he

end EbpfAgent
