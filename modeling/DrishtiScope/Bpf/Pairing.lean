import DrishtiScope.Bpf.Effects
import DrishtiScope.Lib.Execution
import Mathlib.Algebra.Ring.Nat

open Go Linux Execution

-- The arguments that a call leaves for its end, and the events that are emitted there.
namespace Bpf

-- A call has six arguments, and a path has room for 128 bytes.
local instance neZero_args : NeZero 6 := ⟨by decide⟩
local instance neZero_path : NeZero 128 := ⟨by decide⟩

-- A system call that a thread is in. `stored` tells whether its arguments were put into a map.
structure Call where
  ctx    : SysEnterCtx
  mem    : UserMemory
  stored : Bool

namespace Call

def nr (c : Call) : UInt32 :=
  c.ctx.id.toUInt64.toUInt32

def openState (c : Call) : OpenState where
  flags := (c.ctx.args.get 2).toUInt32
  path  := c.mem.readStr (c.ctx.args.get 1)

-- The address of an AF_INET call.
def connectState? (c : Call) : Option ConnectState := do
  let sin ← c.mem.sockaddr (c.ctx.args.get 1)
  if sin.family ≠ 2 then none else
    let mask : UInt16 := 0xff
    return {
      family := sin.family
      daddr  := sin.addr
      dport  := ((sin.port >>> 8) &&& mask) ||| ((sin.port &&& mask) <<< 8)
      fd     := (c.ctx.args.get 0).toUInt32
    }

-- The event carries the arguments of the call.
structure Owns (arch : Arch) (c : Call) (e : Event) : Prop where
  connect : e.type = evtConnect → c.nr = arch.sysConnect ∧ ∃ st, c.connectState? = some st ∧ 
    e.daddr = st.daddr ∧ e.dport = st.dport ∧ e.extra = st.fd.toUInt64
  openat  : e.type = evtOpen → c.nr = arch.sysOpenat ∧ 
    e.path = c.openState.path ∧ e.flags = c.openState.flags ||| flagFailed

end Call

namespace Kernel

variable {k : Kernel} {arch : Arch} {cur : Current} {c : Call} {ret : Int64} {t nr : UInt32} 
         {ctx : SysEnterCtx} {mem : UserMemory} {type pid tgid : UInt32} {fill : Event → Event}

-- A record before it is filled in.
def blank (cur : Current) (type pid tgid : UInt32) : Event where
  tsNs   := cur.ktime
  type   := type
  pid    := pid
  tgid   := tgid
  uid    := cur.uid
  ret    := 0
  flags  := 0
  extra  := 0
  saddr  := 0
  daddr  := 0
  sport  := 0
  dport  := 0
  family := 0
  pad    := 0
  comm   := (CharArray.zeros 16).store cur.comm.bytes
  path   := cur.junk.set 0 0

theorem allocEvent_events : 
    (k.allocEvent cur type pid tgid fill).events = 
      if k.ringFull then k.events else k.events ++ [fill (blank cur type pid tgid)] := by
  simp only [allocEvent]
  split <;> rfl

def failedOpen (cur : Current) (ret : Int64) (st : OpenState) : Event :=
  { blank cur evtOpen cur.tid cur.tgid with
    ret   := ret.toInt32
    flags := st.flags ||| flagFailed
    path  := st.path
  }

def connected (cur : Current) (ret : Int64) (st : ConnectState) : Event :=
  { blank cur evtConnect cur.tid cur.tgid with
    ret    := ret.toInt32
    daddr  := st.daddr
    dport  := st.dport
    family := st.family
    extra  := st.fd.toUInt64
    flags  := if ret < 0 then flagFailed else 0
  }

-- What the end of a call emits if the program observes it and there is room.
def exitEvents (k : Kernel) (arch : Arch) (cur : Current) (nr : UInt32) (ret : Int64) : List Event :=
  if nr = arch.sysOpenat then
    if ret < 0 then (k.openInflight.lookup cur.tid).toList.map (failedOpen cur ret) else []
  else if nr = arch.sysConnect then
    if ret ≠ -115 then (k.connectInflight.lookup cur.tid).toList.map (connected cur ret) else []
  else
    []

theorem exitOpenat_events : 
    (k.exitOpenat cur ret).events = k.events ++ 
      if k.ringFull ∨ ¬ret < 0 then [] else (k.openInflight.lookup cur.tid).toList.map (failedOpen cur ret) := by
  simp only [exitOpenat]
  cases k.openInflight.lookup cur.tid
  case none   => simp
  case some st =>
    by_cases hr : ret < 0
    case neg => simp [hr]
    case pos =>
      by_cases hf : k.ringFull <;> simp [hr, hf, allocEvent_events, failedOpen]

theorem exitConnect_events : 
    (k.exitConnect cur ret).events = k.events ++ 
      if k.ringFull ∨ ret = -115 then [] else (k.connectInflight.lookup cur.tid).toList.map (connected cur ret) := by
  simp only [exitConnect]
  cases k.connectInflight.lookup cur.tid
  case none   => simp
  case some st =>
    by_cases hr : ret = -115
    case pos => simp [hr]
    case neg =>
      by_cases hf : k.ringFull <;> simp [hr, hf, allocEvent_events, connected, blank]

theorem emitted_sysExit {ctx : SysExitCtx} : 
    k.emitted arch cur (.sysExit ctx) = 
      if k.isTarget cur ∧ ¬k.ringFull then k.exitEvents arch cur ctx.id.toUInt64.toUInt32 ctx.ret else [] := by
  apply emitted_eq
  rw [run]
  by_cases ht : k.isTarget cur
  case neg => simp [tpSysExit_eq_self, ht]
  case pos =>
    rw [tpSysExit_eq ht rfl]
    generalize hk : exitStats .. = k'
    have he : k'.events = k.events := hk ▸ exitStats_events
    have ho : k'.openInflight = k.openInflight := hk ▸ exitStats_openInflight
    have hc : k'.connectInflight = k.connectInflight := hk ▸ exitStats_connectInflight
    have hf : k'.ringFull = k.ringFull := by rw [ringFull, ringFull, he]
    simp only [ht, true_and, exitEvents]
    split
    case isTrue =>
      rw [exitOpenat_events, he, hf, ho]
      by_cases h : k.ringFull <;> by_cases hr : ctx.ret < 0 <;> simp [h, hr]
    case isFalse =>
      split
      case isTrue =>
        rw [exitConnect_events, he, hf, hc]
        by_cases h : k.ringFull <;> by_cases hr : ctx.ret = -115 <;> simp [h, hr]
      case isFalse => simp [he]

-- What the maps hold under a thread.
def slots (k : Kernel) (tid : UInt32) : Option OpenState × Option ConnectState :=
  (k.openInflight.lookup tid, k.connectInflight.lookup tid)

theorem slots_of_eq {k' : Kernel} (ho : k'.openInflight = k.openInflight) 
    (hc : k'.connectInflight = k.connectInflight) : k'.slots = k.slots := by
  funext t
  rw [slots, slots, ho, hc]

@[simp]
theorem slots_allocEvent : (k.allocEvent cur type pid tgid fill).slots = k.slots := by
  simp only [allocEvent]
  split <;> rfl

theorem slots_countEnter : (k.countEnter cur nr).slots = k.slots :=
  slots_of_eq countEnter_openInflight countEnter_connectInflight

theorem slots_exitStats : (k.exitStats arch t nr ret).slots = k.slots :=
  slots_of_eq exitStats_openInflight exitStats_connectInflight

theorem slots_tpExec {f : Option Bytes} : (k.tpExec cur f).slots = k.slots :=
  slots_allocEvent

theorem slots_tpExit : (k.tpExit cur).slots = k.slots := by
  simp only [tpExit]
  split
  case isTrue => rfl
  case isFalse =>
    split
    case isTrue  => rfl
    case isFalse => exact slots_allocEvent (k := k) 

section Enter

theorem slots_enterOpenat_ne (h : t ≠ cur.tid) : (k.enterOpenat cur ctx mem).slots t = k.slots t := by
  simp only [enterOpenat, slots_allocEvent]
  simp [slots, addStats, h]

theorem slots_enterOpenat (h : k.openInflight.Room cur.tid) : 
    ((k.enterOpenat cur c.ctx c.mem).slots cur.tid).fst = some c.openState := by
  simp only [enterOpenat, slots_allocEvent]
  exact BoundedMap.lookup_insert h

theorem enterConnect_eq : 
    k.enterConnect cur c.ctx c.mem = 
      match c.connectState? with
      | none    => k
      | some st => 
        { k with connectInflight := k.connectInflight.insert cur.tid st }.addStats cur.tgid 
          fun ps => { ps with connectCount := ps.connectCount + 1 } := by
  simp only [enterConnect, Call.connectState?]
  cases hs : c.mem.sockaddr (c.ctx.args.get 1)
  case none     => rfl
  case some sin => by_cases hf : sin.family = 2 <;> simp [hf]

theorem slots_enterConnect_ne (h : t ≠ cur.tid) : 
    (k.enterConnect cur c.ctx c.mem).slots t = k.slots t := by
  rw [enterConnect_eq]
  split
  · rfl
  · simp [slots, addStats, h]

theorem slots_enterConnect {st : ConnectState} (h : k.connectInflight.Room cur.tid) 
    (hs : c.connectState? = some st) : 
    ((k.enterConnect cur c.ctx c.mem).slots cur.tid).snd = some st := by
  rw [enterConnect_eq, hs]
  exact BoundedMap.lookup_insert h

-- Whether the program puts the arguments of a call into a map.
def stores (k : Kernel) (arch : Arch) (cur : Current) (c : Call) : Bool :=
  k.isTarget cur && 
    (decide (c.nr = arch.sysOpenat ∧ k.openInflight.Room cur.tid) || 
     decide (c.nr = arch.sysConnect ∧ c.connectState?.isSome ∧ k.connectInflight.Room cur.tid))

theorem slots_tpSysEnter_ne (h : t ≠ cur.tid) : 
    (k.tpSysEnter arch cur c.ctx c.mem).slots t = k.slots t := by
  by_cases ht : k.isTarget cur
  case neg => rw [tpSysEnter_eq_self ht]
  case pos =>
    rw [tpSysEnter_eq ht rfl]
    split
    · exact (slots_enterOpenat_ne h).trans <| congrFun slots_countEnter t
    · split
      · exact (slots_enterConnect_ne h).trans <| congrFun slots_countEnter t
      · split
        · rw [slots_allocEvent, slots_countEnter]
        · rw [slots_countEnter]

end Enter

theorem slots_eraseOpen_ne {u : UInt32} (h : t ≠ u) : 
    slots { k with openInflight := k.openInflight.erase u } t = k.slots t := by
  simp [slots, h]

theorem slots_eraseConnect_ne {u : UInt32} (h : t ≠ u) : 
    slots { k with connectInflight := k.connectInflight.erase u } t = k.slots t := by
  simp [slots, h]

theorem slots_exitOpenat_ne (h : t ≠ cur.tid) : (k.exitOpenat cur ret).slots t = k.slots t := by
  refine .trans (slots_eraseOpen_ne h) ?_
  split
  · split
    · rw [slots_allocEvent]
    · rfl
  · rfl

theorem slots_exitConnect_ne (h : t ≠ cur.tid) : (k.exitConnect cur ret).slots t = k.slots t := by
  refine .trans (slots_eraseConnect_ne h) ?_
  split
  · split
    · rw [slots_allocEvent]
    · rfl
  · rfl

theorem slots_tpSysExit_ne {ctx : SysExitCtx} (h : t ≠ cur.tid) : 
    (k.tpSysExit arch cur ctx).slots t = k.slots t := by
  by_cases ht : k.isTarget cur
  case neg => rw [tpSysExit_eq_self ht]
  case pos =>
    rw [tpSysExit_eq ht rfl]
    split
    · exact (slots_exitOpenat_ne h).trans <| congrFun slots_exitStats t
    · split
      · exact (slots_exitConnect_ne h).trans <| congrFun slots_exitStats t
      · rw [slots_exitStats]

-- The arguments of the call are in the map of its kind.
def Holds (k : Kernel) (arch : Arch) (tid : UInt32) (c : Call) : Prop :=
  (c.nr = arch.sysOpenat ∧ (k.slots tid).fst = some c.openState) ∨ 
  (c.nr = arch.sysConnect ∧ ∃ st, c.connectState? = some st ∧ (k.slots tid).snd = some st)

theorem Holds.of_slots {k' : Kernel} (h : k.Holds arch t c) (hs : k'.slots t = k.slots t) : 
    k'.Holds arch t c := by
  rwa [Holds, hs]

theorem sysOpenat_ne_sysConnect : arch.sysOpenat ≠ arch.sysConnect := by
  cases arch <;> decide

theorem tpSysEnter_holds (h : k.stores arch cur c) : 
    (k.tpSysEnter arch cur c.ctx c.mem).Holds arch cur.tid c := by
  simp only [stores, Bool.and_eq_true, Bool.or_eq_true, decide_eq_true_eq] at h
  obtain ⟨ht, hm⟩ := h
  rw [tpSysEnter_eq ht rfl]
  cases hm
  case inl h =>
    have hn : c.ctx.id.toUInt64.toUInt32 = arch.sysOpenat := h.left
    rw [if_pos hn]
    exact .inl ⟨h.left, slots_enterOpenat <| countEnter_openInflight.symm ▸ h.right⟩
  case inr h =>
    have hc' : c.ctx.id.toUInt64.toUInt32 = arch.sysConnect := h.left
    obtain ⟨st, hs⟩ := Option.isSome_iff_exists.mp h.right.left
    rw [hc', if_neg sysOpenat_ne_sysConnect.symm, if_pos rfl]
    exact .inr ⟨h.left, st, hs, slots_enterConnect (countEnter_connectInflight.symm ▸ h.right.right) hs⟩

end Kernel

namespace Call

variable {c : Call} {arch : Arch} {cur : Current} {ret : Int64}

-- The record of an `openat` or of a `connect` says the same as the arguments of the call.
def Opens (c : Call) (st : OpenState) : Prop :=
  st.path = c.openState.path ∧ st.flags ||| flagFailed = c.openState.flags ||| flagFailed

def Connects (c : Call) (st : ConnectState) : Prop :=
  ∃ st', c.connectState? = some st' ∧ 
    st.daddr = st'.daddr ∧ st.dport = st'.dport ∧ st.fd = st'.fd

theorem owns_failedOpen_iff {st : OpenState} : 
    c.Owns arch (Kernel.failedOpen cur ret st) ↔ c.nr = arch.sysOpenat ∧ c.Opens st where
  mp h  := h.openat rfl
  mpr h := {
    connect h' := absurd h' (by decide : evtOpen ≠ evtConnect)
    openat _   := h
  }

theorem owns_connected_iff {st : ConnectState} : 
    c.Owns arch (Kernel.connected cur ret st) ↔ c.nr = arch.sysConnect ∧ c.Connects st where
  mp h :=
    have ⟨hn, st', hs, ha, hp, he⟩ := h.connect rfl
    ⟨hn, st', hs, ha, hp, UInt32.toUInt64_inj.mp he⟩
  mpr h := {
    connect _ :=
      have ⟨hn, st', hs, ha, hp, hf⟩ := h
      ⟨hn, st', hs, ha, hp, congrArg UInt32.toUInt64 hf⟩
    openat h' := absurd h' (by decide : evtConnect ≠ evtOpen)
  }

end Call

-- Whatever the threads, the configuration and the reader of the ring buffer do in turn.
namespace Pairing

structure State where
  kernel  : Kernel
  pending : UInt32 → Option Call

-- The program is attached while some threads are in calls.
def start (config : ConfigT) (targets : BoundedMap UInt32 UInt8 256) (calls : UInt32 → Option Call) : 
    State where
  kernel    := { Kernel.empty with config := config, targets := targets }
  pending t := (calls t).map ({ · with stored := false })

inductive Action
  | enter (cur : Current) (ctx : SysEnterCtx) (mem : UserMemory)
  | exit (cur : Current) (ret : Int64)
  | exec (cur : Current) (filename : Option Bytes)
  | exitTask (cur : Current)
  -- A new thread returns from the call that has made it.
  | fork (tid : UInt32) (c : Call)
  -- A thread ends within a call.
  | gone (tid : UInt32)
  | configure (config : ConfigT)
  | pin (targets : BoundedMap UInt32 UInt8 256)
  | consume

def State.setPending (s : State) (tid : UInt32) (c : Option Call) : State :=
  { s with pending := fun t => if t = tid then c else s.pending t }

def step (arch : Arch) (s : State) : Action → State
  | .enter cur ctx mem =>
    match s.pending cur.tid with
    | some _ => s
    | none   => 
      let c : Call := ⟨ctx, mem, s.kernel.stores arch cur ⟨ctx, mem, false⟩⟩
      { s with kernel := s.kernel.tpSysEnter arch cur ctx mem }.setPending cur.tid c
  | .exit cur ret =>
    match s.pending cur.tid with
    | none   => s
    | some c => 
      { s with kernel := s.kernel.tpSysExit arch cur ⟨c.ctx.id, ret⟩ }.setPending cur.tid none
  | .exec cur filename => { s with kernel := s.kernel.tpExec cur filename }
  | .exitTask cur      => { s with kernel := s.kernel.tpExit cur }
  | .fork tid c        => 
    if (s.pending tid).isSome then s else s.setPending tid <| some { c with stored := false }
  | .gone tid          => s.setPending tid none
  | .configure config  => { s with kernel := { s.kernel with config := config } }
  | .pin targets       => { s with kernel := { s.kernel with targets := targets } }
  | .consume           => { s with kernel := { s.kernel with events := s.kernel.events.tail } }

-- What the end of a call emits carries the arguments of that call.
def OwnArguments (arch : Arch) (s : State) : Action → Prop
  | .exit cur ret => ∀ c ∈ s.pending cur.tid, 
    ∀ e ∈ s.kernel.emitted arch cur (.sysExit ⟨c.ctx.id, ret⟩), c.Owns arch e
  | _             => True

-- The records that the end of a call may find under its thread say the same as its arguments.
def Fits (k : Kernel) (arch : Arch) (cur : Current) (ret : Int64) (c : Call) : Prop :=
  (c.nr = arch.sysOpenat → ret < 0 → ∀ st ∈ k.openInflight.lookup cur.tid, c.Opens st) ∧ 
  (c.nr = arch.sysConnect → ret ≠ -115 → ∀ st ∈ k.connectInflight.lookup cur.tid, c.Connects st)

-- The end of a call whose arguments have not been stored finds no arguments of an earlier call under 
-- its thread, or such that are the same.
def NoLeftover (arch : Arch) (s : State) : Action → Prop
  | .exit cur ret => ∀ c ∈ s.pending cur.tid, 
    s.kernel.isTarget cur → ¬s.kernel.ringFull → ¬c.stored → Fits s.kernel arch cur ret c
  | _             => True

-- The arguments that have been stored for a call stay until its end.
def Inv (arch : Arch) (s : State) : Prop :=
  ∀ t, ∀ c ∈ s.pending t, c.stored → s.kernel.Holds arch t c

variable {s : State} {arch : Arch} {a : Action} {config : ConfigT} 
         {targets : BoundedMap UInt32 UInt8 256} {calls : UInt32 → Option Call}

theorem Inv.of_start : Inv arch (start config targets calls) := by
  intro t c hc hs
  have ⟨c', _, he⟩ := Option.map_eq_some_iff.mp hc
  rw [← he] at hs
  contradiction

section Slots

variable {t : UInt32} {c : Option Call} {k : Kernel}

theorem Inv.of_slots (h : Inv arch s) (hs : k.slots = s.kernel.slots) : 
    Inv arch { s with kernel := k } :=
  fun t c hc hst => (h t c hc hst).of_slots <| congrFun hs t

-- Setting the call of a thread asks for nothing about the other threads.
theorem Inv.setPending (h : Inv arch s) (hs : ∀ t' ≠ t, k.slots t' = s.kernel.slots t') 
    (hc : ∀ c' ∈ c, c'.stored → k.Holds arch t c') : 
    Inv arch ({ s with kernel := k }.setPending t c) := by
  intro t' c' hc' hst
  by_cases ht : t' = t
  case pos =>
    subst ht
    exact hc c' (by simpa [State.setPending] using hc') hst
  case neg =>
    have hp : c' ∈ s.pending t' := by simpa [State.setPending, ht] using hc'
    exact (h t' c' hp hst).of_slots <| hs t' ht

end Slots

theorem Inv.step (h : Inv arch s) : Inv arch (step arch s a) := by
  cases a
  case enter cur ctx mem =>
    cases hp : s.pending cur.tid
    case some => simpa [Pairing.step, hp] using h
    case none =>
      simp only [Pairing.step, hp]
      apply h.setPending
      case hs => exact fun t' ht => Kernel.slots_tpSysEnter_ne ht (c := ⟨ctx, mem, false⟩)
      case hc =>
        intro c' hc' hst
        cases hc'
        exact Kernel.tpSysEnter_holds hst
  case exit cur ret =>
    cases hp : s.pending cur.tid
    case none   => simpa [Pairing.step, hp] using h
    case some c =>
      simp only [Pairing.step, hp]
      exact h.setPending (fun t' ht => Kernel.slots_tpSysExit_ne ht) fun _ hc => by contradiction
  case exec cur filename => exact h.of_slots Kernel.slots_tpExec
  case exitTask cur      => exact h.of_slots Kernel.slots_tpExit
  case fork tid c =>
    simp only [Pairing.step]
    split
    case isTrue  => exact h
    case isFalse =>
      apply h.setPending (fun _ _ => rfl)
      intro c' hc' hst
      cases hc'
      contradiction
  case gone tid  => exact h.setPending (fun _ _ => rfl) fun _ hc => by contradiction
  case configure => exact h.of_slots rfl
  case pin       => exact h.of_slots rfl
  case consume   => exact h.of_slots rfl

variable {k : Kernel} {cur : Current} {ret : Int64} {c : Call}

theorem Fits.of_holds (h : k.Holds arch cur.tid c) : Fits k arch cur ret c := by
  cases h
  case inl h =>
    refine ⟨fun _ _ st hst => ?_, fun hc => ?_⟩
    · cases h.right.symm.trans hst
      exact ⟨rfl, rfl⟩
    · exact absurd (h.left.symm.trans hc) Kernel.sysOpenat_ne_sysConnect
  case inr h =>
    have ⟨hn, st', hs, hl⟩ := h
    refine ⟨fun ho => ?_, fun _ _ st hst => ?_⟩
    · exact absurd (ho.symm.trans hn) Kernel.sysOpenat_ne_sysConnect
    · cases hl.symm.trans hst
      exact ⟨_, hs, rfl, rfl, rfl⟩

theorem exitEvents_iff : (∀ e ∈ k.exitEvents arch cur c.nr ret, c.Owns arch e) ↔ Fits k arch cur ret c := by
  simp only [Kernel.exitEvents, Fits]
  by_cases ho : c.nr = arch.sysOpenat
  case pos =>
    have hc : c.nr ≠ arch.sysConnect := fun hc => Kernel.sysOpenat_ne_sysConnect (ho.symm.trans hc)
    by_cases hr : ret < 0
    · simp [ho, hr, Call.owns_failedOpen_iff, Kernel.sysOpenat_ne_sysConnect]
    · simp [ho, hr, Kernel.sysOpenat_ne_sysConnect]
  case neg =>
    by_cases hc : c.nr = arch.sysConnect
    case pos =>
      have hn : arch.sysConnect ≠ arch.sysOpenat := Kernel.sysOpenat_ne_sysConnect.symm
      by_cases hr : ret = -115
      · simp [hc, hr, hn]
      · simp [hc, hr, hn, Call.owns_connected_iff]
    case neg => simp [ho, hc]

theorem ownArguments_iff (h : Inv arch s) : OwnArguments arch s a ↔ NoLeftover arch s a := by
  cases a
  case exit cur ret =>
    refine forall₂_congr fun c hc => ?_
    rw [Kernel.emitted_sysExit]
    by_cases ho : s.kernel.isTarget cur ∧ ¬s.kernel.ringFull
    case neg =>
      rw [if_neg ho]
      exact iff_of_true (by simp) fun ht hf => absurd ⟨ht, hf⟩ ho
    case pos =>
      rw [if_pos ho]
      refine .trans exitEvents_iff ⟨fun hs _ _ _ => hs, fun hs => ?_⟩
      by_cases hst : c.stored
      case pos => exact .of_holds <| h cur.tid c hc hst
      case neg => exact hs ho.left ho.right hst
  all_goals exact .rfl

theorem always_ownArguments_iff {as : List Action} : 
    Always (step arch) (OwnArguments arch) (start config targets calls) as ↔ 
      Always (step arch) (NoLeftover arch) (start config targets calls) as :=
  Always.congr (I := Inv arch) .of_start (fun _ _ h _ => h.step) fun _ _ h => ownArguments_iff h

section Switched

def connectCtx (fd : UInt64) : SysEnterCtx where
  id   := 42
  args := ⟨[fd, 1, 16, 0, 0, 0], rfl⟩

def addressed (sin : SockaddrIn) : UserMemory where
  str _      := none
  sockaddr _ := some sin

def mainThread : Current where
  tgid  := 51
  tid   := 51
  uid   := 0
  comm  := .ofBytes []
  ktime := 0
  junk  := .zeros 128

def targeting (tgid : UInt32) : ConfigT where
  targetTgid := tgid
  sampleRate := 1
  observeAll := 0
  targetComm := .zeros 16

def unixCall : Call where
  ctx    := connectCtx 4
  mem    := addressed ⟨1, 0, 0⟩
  stored := false

-- The target is another process while the first call ends, and the second call is not an AF_INET call.
def switched : List Action := [
  .enter mainThread (connectCtx 3) <| addressed ⟨2, 0x5000, 0x0100007f⟩,
  .configure <| targeting 52,
  .exit mainThread 0,
  .configure <| targeting 51,
  .enter mainThread unixCall.ctx unixCall.mem
]

theorem not_always_ownArguments : 
    ¬Always (step .x86_64) (OwnArguments .x86_64) (start (targeting 51) ∅ fun _ => none) 
      (switched ++ [.exit mainThread 0]) := by
  intro h
  have ho := Always.concat_iff.mp h |>.right
  have hs : (exec (step .x86_64) (start (targeting 51) ∅ fun _ => none) switched).pending 51 = 
      some unixCall := rfl
  have ha : ((exec (step .x86_64) (start (targeting 51) ∅ fun _ => none) switched).kernel.emitted 
      .x86_64 mainThread (.sysExit ⟨42, 0⟩)).any (·.type = evtConnect) := by decide
  have ⟨e, hm, he⟩ := List.any_eq_true.mp ha
  have ⟨_, _, hc, _⟩ := (ho unixCall hs e hm).connect (by simpa using he)
  contradiction

end Switched
end Pairing
end Bpf
