import DrishtiScope.Api.Metrics
import DrishtiScope.EbpfAgent.Counters
import DrishtiScope.EbpfAgent.BuildSnapshot
import DrishtiScope.RealEngine.Rates

open Go Linux Bpf

-- The rates of the network, from the counters of either engine to the metrics.
namespace Agentscope.NetRate

-- The bytes that have been counted in some seconds, and the snapshot that reports them.
structure Transfer where
  tx       : Int
  rx       : Int
  elapsed  : ℚ
  snapshot : Agg.Snapshot

namespace Transfer

-- The server once `fanout` has updated its builder.
def publish (m : Transfer) (server : Api.Server) : Api.Server :=
  { server with builder := (server.builder.update m.snapshot).fst }

-- The metrics are the bytes per second.
structure Exported (server : Api.Server) (env : Api.Env) (m : Transfer) : Prop where
  tx : (m.publish server).value? env (str "drishti_network_transmit_bytes_per_second") = 
    some (m.tx / m.elapsed)
  rx : (m.publish server).value? env (str "drishti_network_receive_bytes_per_second") = 
    some (m.rx / m.elapsed)

-- Equal traffic has equal rates.
structure Agree (m m' : Transfer) : Prop where
  tx : m.tx = m'.tx → m.elapsed = m'.elapsed → m.snapshot.kpis.netBpsTx = m'.snapshot.kpis.netBpsTx
  rx : m.rx = m'.rx → m.elapsed = m'.elapsed → m.snapshot.kpis.netBpsRx = m'.snapshot.kpis.netBpsRx

end Transfer

section Ebpf

open EbpfAgent

variable [Unicode] [Runtime]

def entries (t : BuildTick) : List (UInt32 × ProcStats) :=
  (t.coll.bind (·.processStats)).getD []

def bytes (c : Counter) (v : ProcStats × ProcStats) : Int :=
  (c.get v.snd).toNat - (c.get v.fst).toNat

-- Each entry of the map is compared with the value that is remembered for its key.
def counted (c : Counter) (s : LiveState) (t : BuildTick) : Int :=
  ((visits s.statPrev (entries t)).map (bytes c)).sum

def ebpfTransfers (s : LiveState) : Input → List Transfer
  | .event _ => []
  | .tick t  =>
    let elapsed := (t.now.sub s.lastTick).seconds
    if 0 < elapsed then 
      [⟨counted .netTx s t, counted .netRx s t, elapsed, (buildSnapshot s t).snd⟩] 
    else 
      []

-- The counters of bytes that a tick reads are the remembered ones.
def Silent (s : LiveState) : Input → Prop
  | .event _ => True
  | .tick t  =>
    0 < (t.now.sub s.lastTick).seconds → ∀ v ∈ visits s.statPrev (entries t), 
      v.snd.netTxBytes = v.fst.netTxBytes ∧ v.snd.netRxBytes = v.fst.netRxBytes

end Ebpf

section Real

open RealEngine RealEngine.Rates

variable [Unicode] [Runtime] [Zone]

-- The sums over the interfaces.
structure NetSample where
  rx   : Int
  tx   : Int
  time : Time

def sample (t : Tick) : Option NetSample :=
  t.fs.netDev.map fun lines => 
    ⟨(lines.map (netDevLine · |>.fst)).sum, (lines.map (netDevLine · |>.snd)).sum, t.wall⟩

-- The engine, and when it has read the counters so far, from the latest to the first.
structure State where
  engine : Engine
  cfg    : Config
  past   : List Tick

-- `Run` reads them once before the first tick.
def State.init (now : Time) (cfg : Config) (warmUp : Tick) : State where
  engine := (readNetDev (newEngine now) warmUp.fs warmUp.wall).fst
  cfg    := cfg
  past   := [warmUp]

def lastSample (past : List Tick) : Option NetSample :=
  past.findSome? sample

def step (s : State) : Rates.Action → State
  | .setTarget pid comm => { s with cfg := (s.cfg.setTarget pid comm).toOption.getD s.cfg }
  | .tick t             =>
    let c := onTick s.engine s.cfg t
    { engine := c.engine, cfg := c.cfg, past := t :: s.past }

def snapshot (s : State) (t : Tick) : Agg.Snapshot :=
  (onTick s.engine s.cfg t).snapshot

def realTransfers (s : State) : Rates.Action → List Transfer
  | .setTarget _ _ => []
  | .tick t        =>
    match lastSample s.past, sample t with
    | some prev, some cur =>
      let elapsed := (cur.time.sub prev.time).seconds
      if 0 < elapsed then [⟨cur.tx - prev.tx, cur.rx - prev.rx, elapsed, snapshot s t⟩] else []
    | _, _                => []

-- A sum that has not changed, or that has grown as an `int64` within more than 50 ms. 
def Rated (prev cur : NetSample) (get : NetSample → Int) : Prop :=
  get cur = get prev ∨ 
    prev.time.isZero = false ∧ 5 / 100 < (cur.time.sub prev.time).seconds ∧ 
    int64 (get prev) ≤ int64 (get cur) ∧ int64 (get cur - get prev) = get cur - get prev

def Sampled (s : State) : Rates.Action → Prop
  | .setTarget _ _ => True
  | .tick t        =>
    ∀ prev ∈ lastSample s.past, ∀ cur ∈ sample t, 0 < (cur.time.sub prev.time).seconds → 
      Rated prev cur (·.tx) ∧ Rated prev cur (·.rx)

end Real

-- A server of either mode exports bytes per second, and both modes have the same rates.
structure OneUnit (server : Api.Server) (env : Api.Env) (es rs : List Transfer) : Prop where
  ebpf  : ∀ m ∈ es, m.Exported server env
  real  : ∀ m ∈ rs, m.Exported server env
  agree : ∀ m ∈ es, ∀ m' ∈ rs, m.Agree m'

section Export

variable {server : Api.Server} {env : Api.Env} {m m' : Transfer}

theorem exported_iff : 
    m.Exported server env ↔ 
      m.snapshot.kpis.netBpsTx = m.tx / m.elapsed ∧ m.snapshot.kpis.netBpsRx = m.rx / m.elapsed where
  mp h := by
    have ⟨ht, hr⟩ := h
    rw [Api.value?_transmit] at ht
    rw [Api.value?_receive] at hr
    exact ⟨Option.some_inj.mp ht, Option.some_inj.mp hr⟩
  mpr h := {
    tx := Api.value?_transmit.trans <| congrArg some h.left
    rx := Api.value?_receive.trans <| congrArg some h.right
  }

theorem Transfer.Exported.agree (h : m.Exported server env) (h' : m'.Exported server env) : m.Agree m' := by
  have ⟨ht, hr⟩ := exported_iff.mp h
  have ⟨ht', hr'⟩ := exported_iff.mp h'
  constructor
  case tx => 
    intro he hs
    rw [ht, ht', he, hs]
  case rx => 
    intro he hs
    rw [hr, hr', he, hs]

theorem oneUnit_iff {es rs : List Transfer} : 
    OneUnit server env es rs ↔ 
      (∀ m ∈ es, m.Exported server env) ∧ (∀ m ∈ rs, m.Exported server env) where
  mp h  := ⟨h.ebpf, h.real⟩
  mpr h := ⟨h.left, h.right, fun m hm m' hm' => (h.left m hm).agree (h.right m' hm')⟩

end Export

section Ebpf

open EbpfAgent

variable {server : Api.Server} {env : Api.Env} {s : LiveState} {t : BuildTick} {a : Walk} {pid : Int} 
         {pids : List Int} {elapsed : ℚ} {c : Counter} {vs : List (ProcStats × ProcStats)}

-- The walk over the processes leaves the counters of the kernel alone.
theorem visit_statPrev : (Walk.visit t a pid).state.statPrev = a.state.statPrev := by
  simp only [Walk.visit, Walk.visitFlows, Walk.visitIo]
  split <;> rfl

theorem foldl_visit_statPrev : (pids.foldl (Walk.visit t) a).state.statPrev = a.state.statPrev := by
  induction pids generalizing a
  case nil         => rfl
  case cons _ _ hi => rw [List.foldl_cons, hi, visit_statPrev]

theorem readMaps_rates (h : 0 < elapsed) : 
    (readMaps s t.coll elapsed).snd.fst c = 
      ((visits s.statPrev (entries t)).map fun v => contribution v.fst v.snd elapsed c).sum := by
  cases hc : t.coll
  case none      => simp [readMaps, entries, hc, visits]
  case some coll =>
    cases hp : coll.processStats
    case none    => simp [readMaps, entries, hc, hp, visits]
    case some it =>
      simp only [readMaps, entries, hc, hp, Option.elim_some, Option.bind_some, Option.getD_some]
      exact rates_eq (t := ⟨it, elapsed⟩) h

def bits (c : Counter) (v : ProcStats × ProcStats) : Int :=
  8 * (c.get v.snd - c.get v.fst).toNat

theorem bytes_le {v : ProcStats × ProcStats} : 
    bytes c v ≤ (c.get v.snd - c.get v.fst).toNat := by
  have h := @sub_toNat_le (c.get v.fst) (c.get v.snd)
  rw [bytes]
  omega

theorem bytes_le_bits {v : ProcStats × ProcStats} : bytes c v ≤ bits c v := by
  have h := bytes_le (c := c) (v := v)
  rw [bits]
  omega

theorem bits_eq_bytes_iff {v : ProcStats × ProcStats} : 
    bits c v = bytes c v ↔ c.get v.snd = c.get v.fst := by
  constructor
  case mpr => 
    intro h
    simp [bytes, bits, h]
  case mp =>
    intro h
    have hl := bytes_le (c := c) (v := v)
    -- The difference is zero, as eight of it are not more than one.
    have hz : (c.get v.snd - c.get v.fst).toNat = 0 := by
      rw [bits] at h
      omega
    rwa [bytes, bits, hz, Nat.cast_zero, mul_zero, eq_comm, sub_eq_zero, Nat.cast_inj, 
      UInt64.toNat_inj] at h

theorem sum_contribution : 
    (vs.map fun v => contribution v.fst v.snd elapsed c).sum * 8 = 
      ((vs.map (bits c)).sum : Int) / elapsed := by
  induction vs
  case nil          => simp
  case cons v vs hi =>
    simp only [List.map_cons, List.sum_cons, add_mul, hi, Int.cast_add, add_div, add_left_inj]
    simp only [contribution, bits, Int.cast_mul, Int.cast_ofNat, Int.cast_natCast]
    ring

-- No difference of bytes is larger than eight times the one of `uint64`.
theorem sum_contribution_eq_iff (h : 0 < elapsed) : 
    (vs.map fun v => contribution v.fst v.snd elapsed c).sum * 8 = (vs.map (bytes c)).sum / elapsed ↔ 
      ∀ v ∈ vs, c.get v.snd = c.get v.fst := by
  rw [sum_contribution, div_left_inj' h.ne', Int.cast_inj, 
    sum_map_eq_iff fun _ _ => bytes_le_bits]
  exact forall₂_congr fun _ _ => bits_eq_bytes_iff

variable [Unicode] [Runtime]

theorem buildSnapshot_net (h : 0 < (t.now.sub s.lastTick).seconds) : 
    (buildSnapshot s t).snd.kpis.netBpsTx = 
      ((visits s.statPrev (entries t)).map fun v => 
        contribution v.fst v.snd (t.now.sub s.lastTick).seconds .netTx).sum * 8 ∧ 
    (buildSnapshot s t).snd.kpis.netBpsRx = 
      ((visits s.statPrev (entries t)).map fun v => 
        contribution v.fst v.snd (t.now.sub s.lastTick).seconds .netRx).sum * 8 := by
  have he : elapsedSince s.lastTick t = (t.now.sub s.lastTick).seconds := if_neg (not_le.mpr h)
  have hw : (walk s t).state.statPrev = s.statPrev := foldl_visit_statPrev
  simp only [buildSnapshot, he, readMaps_rates h, hw, and_self]

theorem ebpfTransfers_exported_iff {i : Input} : 
    (∀ m ∈ ebpfTransfers s i, m.Exported server env) ↔ Silent s i := by
  cases i
  case event _ => simp [ebpfTransfers, Silent]
  case tick t  =>
    by_cases h : 0 < (t.now.sub s.lastTick).seconds
    case neg => simp [ebpfTransfers, Silent, h]
    case pos =>
      have ⟨ht, hr⟩ := buildSnapshot_net h
      simp only [ebpfTransfers, Silent, h, ↓reduceIte, List.mem_singleton, forall_eq, exported_iff, 
        ht, hr, counted, sum_contribution_eq_iff h, forall_const, forall₂_and]
      exact Iff.rfl

end Ebpf

section Real

open RealEngine RealEngine.Rates

variable [Unicode] [Runtime] [Zone] {server : Api.Server} {env : Api.Env} {s : State} {t : Tick} 
         {a : Rates.Action} {e : Engine} {cfg : Config} {prev cur : NetSample}

-- What `readNetDev` keeps is the last sample, with sums of `int64`.
def NetSample.stored (n : NetSample) : NetDevSnapshot where
  rxBytes    := int64 n.rx
  txBytes    := int64 n.tx
  sampleTime := n.time

def Remembers (s : State) : Prop :=
  s.engine.lastNetDev = (lastSample s.past).elim ⟨0, 0, 0⟩ NetSample.stored

-- The rate of a counter of the host.
def bps (last : NetDevSnapshot) (wall : Time) (prev cur : Int) : ℚ :=
  let deltaSec := (wall.sub last.sampleTime).seconds
  if (!last.sampleTime.isZero && 5 / 100 < deltaSec) ∧ prev ≤ cur then
    int64 (cur - prev) / deltaSec
  else
    0

-- What the engine keeps of the sample of a tick, and the rates that it reports for it.
structure Reports (last : NetDevSnapshot) (t : Tick) (kept : NetDevSnapshot) (txBps rxBps : ℚ) : 
    Prop where
  kept : kept = (sample t).elim last NetSample.stored
  tx   : ∀ cur ∈ sample t, txBps = bps last t.wall last.txBytes (int64 cur.tx)
  rx   : ∀ cur ∈ sample t, rxBps = bps last t.wall last.rxBytes (int64 cur.rx)

omit [Unicode] [Runtime] [Zone] in
theorem readProcIo_lastNetDev {fs : ProcFS} {pid : Int} {now : Time} : 
    (readProcIo e fs pid now).fst.lastNetDev = e.lastNetDev := by
  simp only [readProcIo]
  split
  · rfl
  · split <;> rfl

omit [Unicode] in
theorem readProcFiles_lastNetDev {fs : ProcFS} {pid : Int} {comm : Bytes} {now : Time} : 
    (readProcFiles e fs pid comm now).fst.lastNetDev = e.lastNetDev := by
  simp only [readProcFiles]
  split <;> rfl

omit [Unicode] [Runtime] [Zone] in
theorem readNetDev_reports {last : NetDevSnapshot} (h : e.lastNetDev = last) : 
    Reports last t (readNetDev e t.fs t.wall).fst.lastNetDev (readNetDev e t.fs t.wall).snd.snd 
      (readNetDev e t.fs t.wall).snd.fst := by
  subst h
  simp only [readNetDev]
  cases h : t.fs.netDev
  case none   => constructor <;> simp [sample, h]
  case some l => constructor <;> simp [sample, h, NetSample.stored, bps]

omit [Unicode] [Runtime] in
theorem readProcNet_reports (e : Engine) (t : Tick) (pid : Int) (comm : Bytes) : 
    Reports e.lastNetDev t (readProcNet e t pid comm).fst.lastNetDev (readProcNet e t pid comm).snd.txBps 
      (readProcNet e t pid comm).snd.rxBps := by
  simp only [readProcNet]
  exact readNetDev_reports rfl

-- What `measure` reads before leaves the sample alone.
theorem measure_reports {rows : List Agg.ProcessRow} {pid : Int} {comm : Bytes} {last : NetDevSnapshot} 
    (h : e.lastNetDev = last) : 
    Reports last t (RealEngine.measure e t rows pid comm).fst.lastNetDev
      (RealEngine.measure e t rows pid comm).snd.fst.kpis.netBpsTx
      (RealEngine.measure e t rows pid comm).snd.fst.kpis.netBpsRx := by
  let pid' := locatePid (findTarget rows pid comm) pid
  let e' := (readProcFiles (readProcIo e t.fs pid' t.now).fst t.fs pid' comm t.now).fst
  have he : e'.lastNetDev = last := by
    simp only [e', readProcFiles_lastNetDev, readProcIo_lastNetDev, h]
  exact he ▸ readProcNet_reports e' t pid' comm

theorem onTick_reports (e : Engine) (cfg : Config) (t : Tick) : 
    Reports e.lastNetDev t (onTick e cfg t).engine.lastNetDev (onTick e cfg t).snapshot.kpis.netBpsTx 
      (onTick e cfg t).snapshot.kpis.netBpsRx := by
  rw [onTick, collect_eq]
  exact measure_reports rfl

omit [Unicode] [Runtime] [Zone] in
theorem Remembers.init {now : Time} {warmUp : Tick} : Remembers (.init now cfg warmUp) := by
  have hk := (readNetDev_reports (e := newEngine now) (t := warmUp) rfl).kept
  simp only [Remembers, State.init, hk, lastSample, List.findSome?_cons, List.findSome?_nil]
  cases sample warmUp <;> rfl

theorem Remembers.step (h : Remembers s) : Remembers (step s a) := by
  cases a
  case setTarget => exact h
  case tick t    =>
    simp only [Remembers, NetRate.step, (onTick_reports ..).kept, lastSample, List.findSome?_cons]
    cases sample t
    case none   => exact h
    case some _ => rfl

omit [Unicode] [Runtime] [Zone] in
theorem int64_sub_int64 {x y : Int} : int64 (int64 x - int64 y) = int64 (x - y) := by
  simp [int64]

omit [Unicode] [Runtime] [Zone] in
-- Nothing is subtracted unless the stored sums have grown.
theorem bps_eq_iff (hd : 0 < (cur.time.sub prev.time).seconds) {get : NetSample → Int} 
    (ht : t.wall = cur.time) : 
    bps prev.stored t.wall (int64 (get prev)) (int64 (get cur)) = 
      (get cur - get prev : Int) / (cur.time.sub prev.time).seconds ↔ Rated prev cur get := by
  simp only [bps, NetSample.stored, ht, int64_sub_int64, Rated, Bool.and_eq_true, Bool.not_eq_true', 
    decide_eq_true_eq, and_assoc]
  split
  case isTrue hg  =>
    rw [div_left_inj' hd.ne', Int.cast_inj]
    constructor
    case mp  => exact fun he => .inr ⟨hg.left, hg.right.left, hg.right.right, he⟩
    case mpr =>
      intro he
      cases he
      case inl he => simp [he, int64]
      case inr he => exact he.right.right.right
  case isFalse hg =>
    rw [eq_comm, div_eq_zero_iff, or_iff_left hd.ne', Int.cast_eq_zero, sub_eq_zero]
    exact (or_iff_left fun h => hg ⟨h.left, h.right.left, h.right.right.left⟩).symm

omit [Unicode] [Runtime] [Zone] in
theorem sample_time (h : sample t = some cur) : t.wall = cur.time := by
  have ⟨_, _, he⟩ := Option.map_eq_some_iff.mp h
  rw [← he]

theorem realTransfers_exported_iff (h : Remembers s) : 
    (∀ m ∈ realTransfers s a, m.Exported server env) ↔ Sampled s a := by
  cases a
  case setTarget => simp [realTransfers, Sampled]
  case tick t    =>
    simp only [realTransfers, Sampled]
    cases hp : lastSample s.past
    case none      => simp
    case some prev =>
      cases hc : sample t
      case none     => simp
      case some cur =>
        by_cases hd : 0 < (cur.time.sub prev.time).seconds
        case neg => simp [hd]
        case pos =>
          have hn := onTick_reports s.engine s.cfg t
          have ht := hn.tx cur hc
          have hr := hn.rx cur hc
          have hs : s.engine.lastNetDev = prev.stored := by rw [h, hp, Option.elim_some]
          simp only [hd, ↓reduceIte, List.mem_singleton, forall_eq, exported_iff, snapshot, ht, hr, hs, 
            Option.mem_some_iff, forall_eq', forall_const]
          exact and_congr (bps_eq_iff hd (sample_time hc)) (bps_eq_iff hd (sample_time hc))

end Real

section Run

open EbpfAgent RealEngine RealEngine.Rates
open Execution (Always outputs)

variable [Unicode] [Runtime] [Zone] {server : Api.Server} {env : Api.Env} {start now : Time} 
         {cfg : Config} {warmUp : RealEngine.Tick} {es : List Input} {as : List Rates.Action}

-- For any runs of the engines the rates have one unit if and only if nothing is sent or received while
-- the agent runs, and the samples of the other engine can be compared.
theorem oneUnit_iff_silent : 
    OneUnit server env (outputs LiveState.step ebpfTransfers (.new start) es) 
      (outputs NetRate.step realTransfers (.init now cfg warmUp) as) ↔ 
      Always LiveState.step Silent (.new start) es ∧ Always NetRate.step Sampled (.init now cfg warmUp) as := by
  rw [oneUnit_iff, Execution.forall_mem_outputs, Execution.forall_mem_outputs]
  apply and_congr
  case h₁ =>
    exact Always.congr (I := fun _ => True) trivial (fun _ _ _ _ => trivial) 
      fun _ _ _ => ebpfTransfers_exported_iff
  case h₂ =>
    exact Always.congr (I := Remembers) Remembers.init (fun _ _ h _ => h.step) 
      fun _ _ h => realTransfers_exported_iff h

end Run

section Upload

open EbpfAgent

attribute [local instance] Unicode.ascii Runtime.stable Zone.utcEpoch

def dashboard : Api.Server :=
  Api.newServer (Config.loadTarget 62 (str "curl")) (.newHub 128) .newSnapshotBuilder (str "ebpf") [] 
    .nop Time.epoch

def scrape : Api.Env where
  apiLimitNow  := Time.epoch
  authLimitNow := Time.epoch
  now          := Time.epoch
  hostname     := str "localhost"
  kernel       := str "linux/amd64"
  query        := {}

-- A process has sent 1000 bytes since the agent was started a second ago.
def uploading : BuildTick where
  now     := Time.epoch + 1_000_000_000
  cfg     := Config.loadTarget 62 (str "curl")
  later   := Config.loadTarget 62 (str "curl")
  fs      := { processes := [], nodup := List.nodup_nil }
  views _ := 
    let fs := { processes := [], nodup := List.nodup_nil }
    ⟨fs, fs, fs⟩
  coll    := some {
    processStats  := some [(62, { netTxBytes := 1000 })]
    syscallCounts := none
    dropCount     := []
  }

-- The metric is 8000, which are the bits.
theorem not_oneUnit : 
    ¬OneUnit dashboard scrape (Execution.outputs LiveState.step ebpfTransfers (.new Time.epoch) 
      [.tick uploading]) [] := by
  intro h
  have hs := ebpfTransfers_exported_iff.mp <| (Execution.forall_mem_outputs.mp h.ebpf).left
  have hv := hs (by decide +kernel) ({}, { netTxBytes := 1000 }) (List.mem_singleton_self _)
  exact absurd hv.left (by decide)

end Upload
end Agentscope.NetRate
