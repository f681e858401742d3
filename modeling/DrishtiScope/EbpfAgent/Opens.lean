import DrishtiScope.Bpf.Pairing
import DrishtiScope.EbpfAgent.LiveState
import DrishtiScope.Lib.Directory

open Go Linux Bpf Execution

-- The calls of `openat`, and how they are counted from the kernel to the files of the agent.
namespace Bpf.Kernel

variable {k : Kernel} {arch : Arch} {cur : Current} {c : Call} {ret : Int64}

-- The record of a call that has been entered.
def enteredOpen (cur : Current) (st : OpenState) : Event :=
  { blank cur evtOpen cur.tid cur.tgid with
    flags := st.flags
    path  := st.path
  }

-- What the end of a failed call has to report.
def failures (k : Kernel) (cur : Current) (ret : Int64) : List Event :=
  if ret < 0 then (k.openInflight.lookup cur.tid).toList.map (failedOpen cur ret) else []

-- The records `es` are emitted, or they are dropped.
structure Submits (k k' : Kernel) (es : List Event) : Prop where
  events : k'.events = k.events ++ if k.ringFull then [] else es
  drops  : k'.dropCount = if k.ringFull ∧ es ≠ [] then k.dropCount + 1 else k.dropCount

-- If no record has been dropped, they are there.
theorem Submits.events_eq {k' : Kernel} {es : List Event} (h : k.Submits k' es) 
    (hd : k'.dropCount = k.dropCount) : k'.events = k.events ++ es := by
  have hn : k.dropCount + 1 ≠ k.dropCount := by simp
  have hr := h.drops
  rw [hd] at hr
  rw [h.events]
  split
  case isFalse  => rfl
  case isTrue hf =>
    by_cases he : es = []
    case pos => rw [he]
    case neg => 
      rw [if_pos ⟨hf, he⟩] at hr
      exact absurd hr.symm hn

theorem allocEvent_submits {type pid tgid : UInt32} {fill : Event → Event} : 
    k.Submits (k.allocEvent cur type pid tgid fill) [fill <| blank cur type pid tgid] := by
  simp only [allocEvent]
  split
  case isTrue h  => exact ⟨by simp [h, recordDrop], by simp [h, recordDrop]⟩
  case isFalse h => exact ⟨by simp [h, blank], by simp [h]⟩

theorem Submits.of_left {k' k'' : Kernel} {es : List Event} (h : k'.Submits k'' es) 
    (he : k'.events = k.events) (hd : k'.dropCount = k.dropCount) : k.Submits k'' es := by
  have hf : k'.ringFull = k.ringFull := by rw [ringFull, ringFull, he]
  exact ⟨by rw [h.events, he, hf], by rw [h.drops, hd, hf]⟩

theorem Submits.of_right {k' k'' : Kernel} {es : List Event} (h : k.Submits k' es) 
    (he : k''.events = k'.events) (hd : k''.dropCount = k'.dropCount) : k.Submits k'' es :=
  ⟨he.trans h.events, hd.trans h.drops⟩

variable (k cur c) in
theorem enterOpenat_submits : 
    k.Submits (k.enterOpenat cur c.ctx c.mem) [enteredOpen cur c.openState] ∧ 
    (k.enterOpenat cur c.ctx c.mem).openInflight = k.openInflight.insert cur.tid c.openState := by
  constructor
  · let k' := { k with openInflight := k.openInflight.insert cur.tid c.openState }.addStats cur.tgid 
      fun ps => { ps with openCount := ps.openCount + 1 }
    have h : k'.Submits (k'.allocEvent cur evtOpen cur.tid cur.tgid fun e => 
        { e with flags := c.openState.flags, path := c.openState.path }) [enteredOpen cur c.openState] := 
      allocEvent_submits
    exact h.of_left rfl rfl
  · simp only [enterOpenat, allocEvent]
    split <;> rfl

variable (c) in
theorem tpSysEnter_openat (ht : k.isTarget cur) (hn : c.nr = arch.sysOpenat) : 
    k.Submits (k.tpSysEnter arch cur c.ctx c.mem) [enteredOpen cur c.openState] ∧ 
    (k.tpSysEnter arch cur c.ctx c.mem).openInflight = k.openInflight.insert cur.tid c.openState := by
  rw [tpSysEnter_eq ht hn, if_pos rfl]
  obtain ⟨hs, ho⟩ := enterOpenat_submits (k.countEnter cur arch.sysOpenat) cur c
  exact ⟨hs.of_left countEnter_events countEnter_dropCount, ho.trans <| by rw [countEnter_openInflight]⟩

variable (k cur ret) in
theorem exitOpenat_submits : 
    k.Submits (k.exitOpenat cur ret) (k.failures cur ret) ∧ 
    (k.exitOpenat cur ret).openInflight = k.openInflight.erase cur.tid := by
  have hs : k.Submits k [] := ⟨by simp, by simp⟩
  simp only [exitOpenat, failures]
  cases k.openInflight.lookup cur.tid
  case none    => 
    rw [Option.toList_none, List.map_nil, ite_self]
    exact ⟨hs.of_right rfl rfl, rfl⟩
  case some st =>
    by_cases hr : ret < 0
    case neg => 
      rw [if_neg hr]
      simp only [if_neg hr, and_true]
      exact hs.of_right rfl rfl
    case pos =>
      simp only [hr, if_true, Option.toList_some, List.map_cons, List.map_nil]
      have h : k.Submits (k.allocEvent cur evtOpen cur.tid cur.tgid fun e => 
          { e with ret := ret.toInt32, flags := st.flags ||| flagFailed, path := st.path }) 
          [failedOpen cur ret st] := allocEvent_submits
      constructor
      · exact h.of_right rfl rfl
      · simp only [allocEvent]
        split <;> rfl

variable (ret) in
theorem tpSysExit_openat {id : Int64} (ht : k.isTarget cur) (hn : id.toUInt64.toUInt32 = arch.sysOpenat) : 
    k.Submits (k.tpSysExit arch cur ⟨id, ret⟩) (k.failures cur ret) ∧ 
    (k.tpSysExit arch cur ⟨id, ret⟩).openInflight = k.openInflight.erase cur.tid := by
  rw [tpSysExit_eq ht hn, if_pos rfl]
  generalize hk : exitStats .. = k'
  have he : k'.events = k.events := hk ▸ exitStats_events
  have ho : k'.openInflight = k.openInflight := hk ▸ exitStats_openInflight
  have hf : k'.failures cur ret = k.failures cur ret := by rw [failures, failures, ho]
  obtain ⟨hs, hi⟩ := exitOpenat_submits k' cur ret
  exact ⟨(hf ▸ hs).of_left he <| hk ▸ exitStats_dropCount, hi.trans <| by rw [ho]⟩

end Bpf.Kernel

namespace EbpfAgent.Opens

-- The path under which a record is counted.
def pathOf (path : CharArray 128) : Bytes :=
  if path.cstr = [] then str "(unknown)" else path.cstr

-- The kernel, the calls that are in progress, and the agent. All calls that have been made are kept, and 
-- those that have returned a negative value.
structure State where
  kernel  : Kernel
  pending : AList fun _ : UInt32 => Call
  live    : LiveState
  calls   : List Call
  failed  : List Call

def start (config : ConfigT) (targets : BoundedMap UInt32 UInt8 256) (now : Time) : State where
  kernel  := { Kernel.empty with config := config, targets := targets }
  pending := ∅
  live    := .new now
  calls   := []
  failed  := []

inductive Action
  | enter (cur : Current) (ctx : SysEnterCtx) (mem : UserMemory)
  | exit (cur : Current) (ret : Int64)
  -- The agent reads a record from the ring buffer.
  | read

def step (arch : Arch) (s : State) : Action → State
  | .enter cur ctx mem =>
    let c : Call := ⟨ctx, mem, s.kernel.stores arch cur ⟨ctx, mem, false⟩⟩
    { s with
      kernel  := s.kernel.tpSysEnter arch cur ctx mem
      pending := s.pending.insert cur.tid c
      calls   := c :: s.calls
    }
  | .exit cur ret =>
    match s.pending.lookup cur.tid with
    | none   => s
    | some c => { s with
      kernel  := s.kernel.tpSysExit arch cur ⟨c.ctx.id, ret⟩
      pending := s.pending.erase cur.tid
      failed  := if ret < 0 then c :: s.failed else s.failed
    }
  | .read => 
    match s.kernel.events with
    | []      => s
    | e :: es => { s with
      kernel := { s.kernel with events := es }
      live   := s.live.noteEvent e
    }

-- The steps of the traces: threads of the target make one call of `openat` after the other, and no record is 
-- dropped.
structure Traced (arch : Arch) (s : State) (a : Action) : Prop where
  undropped : (step arch s a).kernel.dropCount = s.kernel.dropCount
  enter     : ∀ cur ctx mem, a = .enter cur ctx mem → 
    s.kernel.isTarget cur ∧ ctx.id.toUInt64.toUInt32 = arch.sysOpenat ∧ cur.tid ∉ s.pending
  exit      : ∀ cur ret, a = .exit cur ret → s.kernel.isTarget cur

def State.acc (s : State) (path : Bytes) : FileAcc :=
  (s.live.files.lookup path).getD {}

def opens (path : Bytes) (c : Call) : Bool :=
  pathOf c.openState.path = path

-- The bit that marks a failure is set in the flags of the caller.
def marked (c : Call) : Bool :=
  c.openState.flags &&& flagFailed ≠ 0

-- Each call is counted once, and so is each failure.
structure Counted (s : State) : Prop where
  ops    : ∀ path, (s.acc path).ops.toNat = s.calls.countP (opens path)
  errors : ∀ path, (s.acc path).errors.toInt = s.failed.countP (opens path)
  le     : ∀ path, (s.acc path).errors.toInt ≤ (s.acc path).ops.toNat

-- No call has failed, unless its arguments could not be stored, and the mark is set for as many calls of each 
-- path as have failed. The number of calls of a path fits in 64 bits, and that of its failures in 63.
structure Countable (s : State) : Prop where
  bounded : ∀ path, s.calls.countP (opens path) < 2 ^ 64
  few     : ∀ path, s.failed.countP (opens path) < 2 ^ 63
  succeed : ∀ c ∈ s.failed, ¬c.stored
  marks   : ∀ path, s.calls.countP (fun c => opens path c && marked c) = s.failed.countP (opens path)

section Agent

variable {path : Bytes} {s : State} {l : LiveState} {e : Event} {es : List Event}

-- A record is counted under the path.
def counts (path : Bytes) (e : Event) : Bool :=
  e.type = evtOpen && pathOf e.path = path

def errs (e : Event) : Bool :=
  e.ret < 0 || failed e

theorem files_noteEvent : 
    ((l.noteEvent e).files.lookup path).getD {} = 
      let acc := (l.files.lookup path).getD {}
      if counts path e then 
        { acc with ops := acc.ops + 1, errors := if errs e then acc.errors + 1 else acc.errors }
      else 
        acc := by
  by_cases ht : e.type = evtOpen
  case pos =>
    have hf : (l.noteEvent e).files = l.files.insert (pathOf e.path) 
        { (l.files.lookup <| pathOf e.path).getD {} with 
          ops    := ((l.files.lookup <| pathOf e.path).getD {}).ops + 1
          errors := if e.ret < 0 ∨ failed e then ((l.files.lookup <| pathOf e.path).getD {}).errors + 1 
            else ((l.files.lookup <| pathOf e.path).getD {}).errors
        } := by
      rw [LiveState.noteEvent, if_pos ht]
      rfl
    rw [hf]
    by_cases hp : pathOf e.path = path
    case pos => 
      subst hp
      simp [AList.lookup_insert, counts, errs, ht]
    case neg => 
      rw [AList.lookup_insert_ne (Ne.symm hp)]
      simp [counts, hp]
  case neg =>
    have hf : (l.noteEvent e).files = l.files := by
      rw [LiveState.noteEvent, if_neg ht]
      split
      case isTrue  => 
        simp only [LiveState.noteConnect]
        split <;> rfl
      case isFalse => rfl
    simp [hf, counts, ht]

-- What the agent has counted after some records.
theorem files_foldl : 
    (((es.foldl LiveState.noteEvent l).files.lookup path).getD {}).ops = 
      ((l.files.lookup path).getD {}).ops + .ofNat (es.countP (counts path)) ∧ 
    (((es.foldl LiveState.noteEvent l).files.lookup path).getD {}).errors = 
      ((l.files.lookup path).getD {}).errors + .ofNat (es.countP fun e => counts path e && errs e) := by
  induction es generalizing l
  case nil          => simp
  case cons e es hi =>
    rw [List.foldl_cons, hi.left, hi.right, files_noteEvent]
    by_cases hc : counts path e
    case neg => simp [hc]
    case pos =>
      have ho (x y : UInt64) : x + 1 + y = x + (y + 1) := by rw [UInt64.add_assoc, UInt64.add_comm 1]
      have hr (x y : Int64) : x + 1 + y = x + (y + 1) := by rw [Int64.add_assoc, Int64.add_comm 1]
      by_cases he : errs e
      case neg => simp [hc, he, UInt64.ofNat_add, ho]
      case pos => simp [hc, he, UInt64.ofNat_add, ho, hr]

end Agent

section Records

variable {cur : Current} {c : Call} {path : Bytes} {ret : Int64}

theorem counts_enteredOpen : counts path (Kernel.enteredOpen cur c.openState) = opens path c :=
  Bool.true_and _

theorem errs_enteredOpen : errs (Kernel.enteredOpen cur c.openState) = marked c :=
  Bool.false_or _

theorem counts_failedOpen : counts path (Kernel.failedOpen cur ret c.openState) = opens path c :=
  Bool.true_and _

theorem or_flagFailed {flags : UInt32} : (flags ||| flagFailed) &&& flagFailed = flagFailed := by
  apply UInt32.toBitVec_inj.mp
  ext i
  simp only [UInt32.toBitVec_and, UInt32.toBitVec_or, BitVec.getElem_and, BitVec.getElem_or]
  cases flags.toBitVec[i] <;> simp

theorem errs_failedOpen : errs (Kernel.failedOpen cur ret c.openState) := by
  have hf : failed (Kernel.failedOpen cur ret c.openState) := by
    simp only [failed, Kernel.failedOpen, or_flagFailed]
    decide
  rw [errs, hf, Bool.or_true]

theorem stores_iff {k : Kernel} {arch : Arch} (ht : k.isTarget cur) (hn : c.nr = arch.sysOpenat) : 
    k.stores arch cur c ↔ k.openInflight.Room cur.tid := by
  have hc : c.nr ≠ arch.sysConnect := hn ▸ Kernel.sysOpenat_ne_sysConnect
  simp [Kernel.stores, ht, hn, Kernel.sysOpenat_ne_sysConnect]

-- What the map holds for a call that is in progress.
def held (c : Call) : Option OpenState :=
  if c.stored then some c.openState else none

variable {m : BoundedMap UInt32 OpenState 32768} {pending : AList fun _ : UInt32 => Call} {t : UInt32}

theorem slots_insert (h : ∀ t, m.lookup t = (pending.lookup t).bind held) (ht : t ∉ pending) 
    (hc : c.stored ↔ m.Room t) : 
    ∀ t', (m.insert t c.openState).lookup t' = ((pending.insert t c).lookup t').bind held := by
  intro t'
  by_cases ht' : t' = t
  case neg => rw [AList.lookup_insert_ne ht', BoundedMap.lookup_insert_ne ht', h]
  case pos =>
    rw [ht', AList.lookup_insert, Option.bind_some, held]
    split
    case isTrue hr  => exact BoundedMap.lookup_insert <| hc.mp hr
    case isFalse hr => 
      rw [BoundedMap.insert_eq_self <| mt hc.mpr hr, h, AList.lookup_eq_none.mpr ht, Option.bind_none]

theorem slots_erase (h : ∀ t, m.lookup t = (pending.lookup t).bind held) : 
    ∀ t', (m.erase t).lookup t' = ((pending.erase t).lookup t').bind held := by
  intro t'
  by_cases ht' : t' = t
  case pos => rw [ht', BoundedMap.lookup_erase, AList.lookup_erase, Option.bind_none]
  case neg => rw [BoundedMap.lookup_erase_ne ht', AList.lookup_erase_ne ht', h]

end Records

section Run

variable {arch : Arch} {now : Time} {s : State} {a : Action} {noted : List Event} {config : ConfigT} 
  {targets : BoundedMap UInt32 UInt8 256} {cur : Current} {ret : Int64} {ctx : SysEnterCtx} {mem : UserMemory}

-- What is counted for the calls of a path: once when they are entered, and again at the end of those that 
-- have failed and whose arguments have been stored. `noted` are the records that the agent has read.
structure Inv (arch : Arch) (now : Time) (s : State) (noted : List Event) : Prop where
  live   : s.live = noted.foldl LiveState.noteEvent (.new now)
  slots  : ∀ tid, s.kernel.openInflight.lookup tid = (s.pending.lookup tid).bind held
  nr     : ∀ tid, ∀ c ∈ s.pending.lookup tid, c.nr = arch.sysOpenat
  ops    : ∀ path, (noted ++ s.kernel.events).countP (counts path) = 
    s.calls.countP (opens path) + s.failed.countP (fun c => opens path c && c.stored)
  errors : ∀ path, (noted ++ s.kernel.events).countP (fun e => counts path e && errs e) = 
    s.calls.countP (fun c => opens path c && marked c) + s.failed.countP (fun c => opens path c && c.stored)
  le     : ∀ p : Call → Bool, 
    s.failed.countP p + (Directory.values s.pending).countP p ≤ s.calls.countP p

namespace Inv

theorem init : Inv arch now (start config targets now) [] where
  live     := rfl
  slots _  := by simp [start, Kernel.empty]
  nr _ _ h := by simp [start] at h
  ops _    := by simp [start, Kernel.empty]
  errors _ := by simp [start, Kernel.empty]
  le _     := by simp [start]

theorem read (h : Inv arch now s noted) : ∃ noted, Inv arch now (step arch s .read) noted := by
  cases he : s.kernel.events
  case nil       => 
    refine ⟨noted, ?_⟩
    simpa only [step, he] using h
  case cons e es =>
    have hn : noted ++ s.kernel.events = noted ++ [e] ++ es := by simp [he]
    refine ⟨noted ++ [e], ?_⟩
    simp only [step, he]
    constructor
    case live   => rw [List.foldl_append, ← h.live]; rfl
    case slots  => exact h.slots
    case nr     => exact h.nr
    case ops    => exact fun path => hn ▸ h.ops path
    case errors => exact fun path => hn ▸ h.errors path
    case le     => exact h.le

theorem enter (h : Inv arch now s noted) (ht : Traced arch s <| .enter cur ctx mem) : 
    Inv arch now (step arch s <| .enter cur ctx mem) noted := by
  have ⟨hc, hn, hp⟩ := ht.enter cur ctx mem rfl
  generalize hs' : step arch s (.enter cur ctx mem) = s'
  let c : Call := ⟨ctx, mem, s.kernel.stores arch cur ⟨ctx, mem, false⟩⟩
  have hk : s'.calls = c :: s.calls := hs' ▸ rfl
  have hf : s'.failed = s.failed := hs' ▸ rfl
  have hi : s'.pending = s.pending.insert cur.tid c := hs' ▸ rfl
  have ⟨hs, ho⟩ := Kernel.tpSysEnter_openat c hc hn
  have ho : s'.kernel.openInflight = s.kernel.openInflight.insert cur.tid c.openState := hs' ▸ ho
  have he : s'.kernel.events = s.kernel.events ++ [Kernel.enteredOpen cur c.openState] := by
    rw [← hs']
    exact hs.events_eq ht.undropped
  constructor
  case live   => exact hs' ▸ h.live
  case slots  => 
    rw [ho, hi]
    exact slots_insert h.slots hp <| stores_iff hc hn
  case nr     => 
    rw [hi]
    exact Directory.forall_lookup_insert h.nr hn
  case ops    =>
    intro path
    rw [he, hk, hf, ← List.append_assoc, List.countP_append, h.ops, List.countP_cons, List.countP_cons, 
      counts_enteredOpen, List.countP_nil]
    omega
  case errors => 
    intro path
    rw [he, hk, hf, ← List.append_assoc, List.countP_append, h.errors, List.countP_cons, List.countP_cons, 
      counts_enteredOpen, errs_enteredOpen, List.countP_nil]
    omega
  case le     =>
    intro p
    have hl := h.le p
    rw [hi, hk, hf, Directory.countP_values_insert hp, List.countP_cons]
    omega

theorem exit (h : Inv arch now s noted) (ht : Traced arch s <| .exit cur ret) : 
    Inv arch now (step arch s <| .exit cur ret) noted := by
  cases hp : s.pending.lookup cur.tid
  case none   => simpa only [step, hp] using h
  case some c =>
    generalize hs' : step arch s (.exit cur ret) = s'
    have hd := ht.undropped
    simp only [step, hp] at hs' hd
    have hk : s'.calls = s.calls := hs' ▸ rfl
    have hf : s'.failed = if ret < 0 then c :: s.failed else s.failed := hs' ▸ rfl
    have hi : s'.pending = s.pending.erase cur.tid := hs' ▸ rfl
    have hn : c.ctx.id.toUInt64.toUInt32 = arch.sysOpenat := h.nr cur.tid c hp
    have ⟨hs, ho⟩ := Kernel.tpSysExit_openat ret (ht.exit cur ret rfl) hn
    have ho : s'.kernel.openInflight = s.kernel.openInflight.erase cur.tid := hs' ▸ ho
    have he : s'.kernel.events = s.kernel.events ++ s.kernel.failures cur ret := hs' ▸ hs.events_eq hd
    have hr : s.kernel.failures cur ret = 
        if ret < 0 ∧ c.stored then [Kernel.failedOpen cur ret c.openState] else [] := by
      rw [Kernel.failures, h.slots, hp]
      by_cases hr : ret < 0 <;> by_cases hst : c.stored <;> simp [hr, hst, held]
    have hq (p : Call → Bool) : s'.failed.countP p = s.failed.countP p + if ret < 0 ∧ p c then 1 else 0 := by
      rw [hf]
      by_cases hr : ret < 0 <;> simp [hr, List.countP_cons]
    constructor
    case live   => exact hs' ▸ h.live
    case slots  => 
      rw [ho, hi]
      exact slots_erase h.slots
    case nr     => 
      rw [hi]
      exact Directory.forall_lookup_erase h.nr
    case ops    =>
      intro path
      rw [he, hr, hk, hq, ← List.append_assoc, List.countP_append, h.ops]
      by_cases hr : ret < 0 <;> by_cases hst : c.stored <;> 
        simp [hr, hst, counts_failedOpen, List.countP_cons, Nat.add_assoc]
    case errors => 
      intro path
      rw [he, hr, hk, hq, ← List.append_assoc, List.countP_append, h.errors]
      by_cases hr : ret < 0 <;> by_cases hst : c.stored <;> 
        simp [hr, hst, counts_failedOpen, errs_failedOpen, List.countP_cons, Nat.add_assoc]
    case le     =>
      intro p
      have hl := h.le p
      rw [Directory.countP_values_erase hp] at hl
      rw [hi, hk, hq]
      split
      case isTrue hc => 
        rw [if_pos hc.right] at hl
        omega
      case isFalse   => omega

theorem step (h : Inv arch now s noted) (ht : Traced arch s a) : 
    ∃ noted, Inv arch now (step arch s a) noted := by
  cases a
  case enter => exact ⟨noted, h.enter ht⟩
  case exit  => exact ⟨noted, h.exit ht⟩
  case read  => exact h.read

end Inv

-- What the agent has counted once it has read all records: each call, and each failure with stored arguments
-- a second time.
theorem Inv.toNat_ops (h : Inv arch now s noted) (he : s.kernel.events = []) (path : Bytes) : 
    (s.acc path).ops.toNat = 
      (s.calls.countP (opens path) + s.failed.countP fun c => opens path c && c.stored) % 2 ^ 64 := by
  have hp := h.ops path
  rw [he, List.append_nil] at hp
  rw [← hp, State.acc, h.live, files_foldl.left, LiveState.new]
  simp

theorem Inv.acc_errors (h : Inv arch now s noted) (he : s.kernel.events = []) (path : Bytes) : 
    (s.acc path).errors = .ofNat (s.calls.countP (fun c => opens path c && marked c) + 
      s.failed.countP (fun c => opens path c && c.stored)) := by
  have hp := h.errors path
  rw [he, List.append_nil] at hp
  rw [← hp, State.acc, h.live, files_foldl.right, LiveState.new]
  simp

theorem Inv.countP_failed_le (h : Inv arch now s noted) (p : Call → Bool) : 
    s.failed.countP p ≤ s.calls.countP p :=
  Nat.le_of_add_right_le <| h.le p

theorem Inv.counted (h : Inv arch now s noted) (he : s.kernel.events = []) (hc : Countable s) : 
    Counted s := by
  have hz (path) : s.failed.countP (fun c => opens path c && c.stored) = 0 := by
    refine List.countP_eq_zero.mpr fun c hm => ?_
    simp [hc.succeed c hm]
  have hop (path) : (s.acc path).ops.toNat = s.calls.countP (opens path) := by
    rw [h.toNat_ops he, hz, Nat.add_zero, Nat.mod_eq_of_lt <| hc.bounded path]
  have her (path) : (s.acc path).errors.toInt = s.failed.countP (opens path) := by
    rw [h.acc_errors he, hz, hc.marks, Nat.add_zero, Int64.toInt_ofNat_of_lt (hc.few path)]
  refine { ops := hop, errors := her, le := fun path => ?_ }
  rw [hop, her]
  exact Int.ofNat_le.mpr <| h.countP_failed_le _

end Run

section Missing

def reader : Current where
  tgid  := 141
  tid   := 141
  uid   := 0
  comm  := .ofBytes []
  ktime := 0
  junk  := .zeros 128

def openatCtx : SysEnterCtx where
  id   := 257
  args := ⟨[0, 1, 0, 0, 0, 0], rfl⟩

def named (path : Bytes) : UserMemory where
  str _      := some path
  sockaddr _ := none

def attached : State :=
  start (Pairing.targeting 141) ∅ Time.epoch

-- A file is opened, and the agent reads what has been recorded.
def opened (ret : Int64) (reads : Nat) : List Action := [
  .enter reader openatCtx <| named <| str "/etc/hosts",
  .exit reader ret
] ++ .replicate reads .read

end Missing
end EbpfAgent.Opens
