import DrishtiScope.EbpfAgent.BuildSnapshot
import DrishtiScope.Lib.Directory
import DrishtiScope.Lib.Execution

open Go Linux Bpf

-- The flows of a snapshot, and the sockets that are open when it is taken.
namespace EbpfAgent.Flows

-- The flow that is made up when a connection is noted, and the key of its entry.
def connectFlow (ev : Event) : Agg.NetFlow where
  src   := str "0.0.0.0"
  dst   := intToIP ev.daddr
  dport := ev.dport.toNat
  proto := str "tcp"
  state := str "ESTABLISHED"
  pid   := int ev.tgid
  comm  := ev.comm.cstr

def connectKey (ev : Event) : Bytes :=
  str "tcp:" ++ intToIP ev.daddr ++ str ":" ++ itoa ev.dport.toNat

def Connects (ev : Event) : Prop :=
  ev.type = evtConnect ∧ ¬failed ev

-- The two ends of a flow.
def connection (f : Agg.NetFlow) : Bytes × Bytes × Int × Bytes × Int :=
  (f.proto, f.src, f.sport, f.dst, f.dport)

section

variable [Unicode] [Runtime]

-- The state, and the inputs so far from the latest to the first.
structure Run where
  state : LiveState
  past  : List Input

def Run.init (start : Time) : Run where
  state := .new start
  past  := []

def Run.step (r : Run) (i : Input) : Run where
  state := r.state.step i
  past  := i :: r.past

-- A condition on the steps that are ticks.
def AtTick (P : Run → BuildTick → Prop) (r : Run) : Input → Prop
  | .event _ => True
  | .tick t  => P r t

-- The sockets of the targets that are open at a tick.
def openFlows (t : BuildTick) : List Agg.NetFlow :=
  (targets t).flatMap fun pid => Enrich.readNetConnections (t.views pid).net pid

def shown (r : Run) (t : BuildTick) : List Agg.NetFlow :=
  (buildSnapshot r.state t).snd.flows

-- A flow belongs to the open socket that it describes. One that has been made up for a connect event does
-- not have the near end, so it belongs to any socket of its process with its far end.
def Belongs (t : BuildTick) (f g : Agg.NetFlow) : Prop :=
  g ∈ openFlows t ∧ (f = g ∨ (f ∉ openFlows t ∧ (∃ ev, f = connectFlow ev) ∧ 
    g.pid = f.pid ∧ g.proto = f.proto ∧ g.dst = f.dst ∧ g.dport = f.dport))

-- The flows of a snapshot belong to open sockets of the targets, and no two of them to one connection.
structure Current (r : Run) (t : BuildTick) : Prop where
  pid    : ∀ f ∈ shown r t, f.pid ∈ targets t
  opened : ∀ f ∈ shown r t, ∃ g, Belongs t f g
  once   : (shown r t).Pairwise fun f f' => 
    ∀ g g', Belongs t f g → Belongs t f' g' → connection g ≠ connection g'

-- So far no connection has been noted, and a flow that was open at an earlier tick still is, by its key.
structure Steady (r : Run) (t : BuildTick) : Prop where
  connects : ∀ ev, .event ev ∈ r.past → ¬Connects ev
  remains  : ∀ t', .tick t' ∈ r.past → ∀ f ∈ openFlows t', ∃ g ∈ openFlows t, flowKey g = flowKey f

end

section Keys

variable {ev : Event} {f g : Agg.NetFlow}

theorem colon_not_mem_itoa {n : Int} : 58 ∉ itoa n :=
  fun h => absurd (mem_itoa h) (by decide)

theorem intToIP_bytes {n : UInt32} : 58 ∉ intToIP n ∧ 46 ∈ intToIP n := by
  have hd : str "." = [46] := rfl
  simp [intToIP, hd, colon_not_mem_itoa]

-- The key of a connection has two colons, and that of a socket has four of them at least.
theorem connectKey_ne_flowKey : connectKey ev ≠ flowKey f := by
  intro h
  have h₁ : str "tcp:" = [116, 99, 112, 58] := rfl
  have h₂ : str ":" = [58] := rfl
  have hc := congrArg (List.count 58) h
  simp only [connectKey, flowKey, h₁, h₂, List.count_append, List.count_eq_zero.mpr intToIP_bytes.left, 
    List.count_eq_zero.mpr colon_not_mem_itoa, List.count_cons, List.count_nil] at hc
  simp at hc
  omega

-- The end of a socket, as it is read from a table.
structure Readable (f : Agg.NetFlow) : Prop where
  proto : 58 ∉ f.proto
  src   : 58 ∉ f.src ∨ 46 ∉ f.src
  dst   : 58 ∉ f.dst ∨ 46 ∉ f.dst

-- Keys could only be mistaken for each other because of the colons of an address.
theorem connection_eq_of_flowKey_eq (hf : Readable f) (hg : Readable g) 
    (hc : 58 ∉ g.dst) (hd : 46 ∈ g.dst) (h : flowKey f = flowKey g) : connection f = connection g := by
  have hk (f : Agg.NetFlow) : 
      flowKey f = (((f.proto ++ 58 :: f.src) ++ 58 :: itoa f.sport) ++ 58 :: f.dst) ++ 58 :: itoa f.dport := by
    have hs : str ":" = [58] := rfl
    simp only [flowKey, hs, List.append_assoc, List.cons_append, List.nil_append]
  rw [hk, hk] at h
  have ⟨h, hdport⟩ := Separated.append_cons_inj_right colon_not_mem_itoa colon_not_mem_itoa h
  have hdst : f.dst = g.dst := by
    rcases Separated.append_cons_cases h with ⟨_, hdst⟩ | ⟨c, _, hg⟩ | ⟨c, _, hf'⟩
    · exact hdst
    · exact absurd (by simp [hg]) hc
    · rcases hf.dst with hf | hf
      · exact absurd (by simp [hf']) hf
      · exact absurd (by simp [hf', hd]) hf
  have ⟨h, _⟩ := Separated.append_cons_inj_right (hdst ▸ hc) hc h
  have ⟨h, hsport⟩ := Separated.append_cons_inj_right colon_not_mem_itoa colon_not_mem_itoa h
  have ⟨hproto, hsrc⟩ := Separated.append_cons_inj_left hf.proto hg.proto h
  simp only [connection, hproto, hsrc, itoa_injective hsport, hdst, itoa_injective hdport]

end Keys
section Walk

open Directory

variable {a : Walk} {s : LiveState} {t : BuildTick} {pid : Int} {pids : List Int} {elapsed : ℚ}

theorem visitIo_flows {now : Time} {io : Option (Int × Int)} : 
    (a.visitIo now pid io).state.flows = a.state.flows := by
  cases io <;> rfl

theorem visit_flows : 
    (a.visit t pid).state.flows = 
      Directory.enter flowKey a.state.flows (Enrich.readNetConnections (t.views pid).net pid) := by
  simp only [Walk.visit, Walk.visitFlows, visitIo_flows, Directory.enter]

theorem foldl_visit_flows : 
    (pids.foldl (Walk.visit t) a).state.flows = 
      Directory.enter flowKey a.state.flows 
        (pids.flatMap fun pid => Enrich.readNetConnections (t.views pid).net pid) := by
  induction pids generalizing a
  case nil              => rfl
  case cons pid pids hi => rw [List.foldl_cons, hi, visit_flows, List.flatMap_cons, enter_append]

theorem readMaps_flows {coll : Option Collection} : (readMaps s coll elapsed).fst.flows = s.flows := by
  obtain ⟨_, _, h⟩ := exists_readMaps_fst s coll elapsed
  rw [h]

variable [Unicode] [Runtime] {r : Run}

-- A tick enters the sockets that are open, and removes nothing.
theorem buildSnapshot_flows : 
    (buildSnapshot s t).fst.flows = Directory.enter flowKey s.flows (openFlows t) := by
  simp only [buildSnapshot, readMaps_flows, walk, foldl_visit_flows, openFlows]

theorem shown_perm : (shown r t).Perm <| values <| Directory.enter flowKey r.state.flows (openFlows t) := by
  have h := buildSnapshot_flows (s := r.state) (t := t)
  have hs : shown r t = 
      (Runtime.mapOrder (t.now.toNat + 1) (buildSnapshot r.state t).fst.flows.entries).map (·.snd) := 
    rfl
  rw [hs, h]
  exact (Runtime.mapOrder_perm ..).map _

theorem mem_shown_iff {f : Agg.NetFlow} : 
    f ∈ shown r t ↔ ∃ k, (Directory.enter flowKey r.state.flows (openFlows t)).lookup k = some f := by
  rw [shown_perm.mem_iff, mem_values_iff]

theorem mem_openFlows_iff {f : Agg.NetFlow} : 
    f ∈ openFlows t ↔ ∃ pid ∈ targets t, f ∈ Enrich.readNetConnections (t.views pid).net pid :=
  List.mem_flatMap

theorem readable_of_mem_openFlows {f : Agg.NetFlow} (h : f ∈ openFlows t) : Readable f := by
  obtain ⟨pid, _, h⟩ := mem_openFlows_iff.mp h
  have ⟨_, hp, ⟨src, hs⟩, dst, hd⟩ := Enrich.mem_readNetConnections h
  constructor
  case proto => 
    have ha : ∀ proto ∈ [str "tcp", str "udp"], 58 ∉ proto := by decide
    exact ha _ hp
  case src   => exact hs ▸ IP.string_cases
  case dst   => exact hd ▸ IP.string_cases

theorem pid_of_mem_openFlows {f : Agg.NetFlow} (h : f ∈ openFlows t) : f.pid ∈ targets t := by
  obtain ⟨pid, hp, h⟩ := mem_openFlows_iff.mp h
  exact (Enrich.mem_readNetConnections h).left ▸ hp

end Walk

section Run

open Directory

variable {s : LiveState} {ev : Event} {t : BuildTick} {k : Bytes} {f : Agg.NetFlow}

theorem noteEvent_flows_of_not_connects (h : ¬Connects ev) : (s.noteEvent ev).flows = s.flows := by
  rw [LiveState.noteEvent]
  split
  case isTrue     => rfl
  case isFalse ho =>
    split
    case isTrue hc  =>
      have hf : failed ev := by simpa [Connects, hc] using h
      simp only [LiveState.noteConnect, hf, if_true]
    case isFalse hc => rfl

-- An entry that is there already is kept.
theorem noteEvent_flows_of_connects (h : Connects ev) : 
    (s.noteEvent ev).flows = 
      s.flows.insert (connectKey ev) ((s.flows.lookup <| connectKey ev).getD <| connectFlow ev) := by
  have ho : ev.type ≠ evtOpen := by
    rw [h.left]
    decide
  rw [LiveState.noteEvent, if_neg ho, if_pos h.left, LiveState.noteConnect, if_neg h.right]
  rfl

variable [Unicode] [Runtime] {r : Run} {start : Time} {es : List Input}

-- There is an entry for each connection that has been noted and for each socket that has been open at some 
-- tick.
structure Recorded (r : Run) : Prop where
  mem_iff : ∀ k, k ∈ r.state.flows ↔ 
    (∃ ev, .event ev ∈ r.past ∧ Connects ev ∧ connectKey ev = k) ∨ 
    ∃ t, .tick t ∈ r.past ∧ ∃ f ∈ openFlows t, flowKey f = k
  entries : ∀ k f, r.state.flows.lookup k = some f → 
    (∃ ev, f = connectFlow ev ∧ connectKey ev = k) ∨ flowKey f = k

namespace Recorded

theorem init : Recorded (.init start) where
  mem_iff k     := by simp [Run.init, LiveState.new]
  entries k f h := by simp [Run.init, LiveState.new] at h

theorem event (h : Recorded r) : Recorded (r.step <| .event ev) := by
  by_cases hc : Connects ev
  case neg =>
    have hf : (r.step <| .event ev).state.flows = r.state.flows := noteEvent_flows_of_not_connects hc
    constructor
    case entries => simpa only [hf] using h.entries
    case mem_iff =>
      intro k
      rw [hf, h.mem_iff]
      simp only [Run.step, List.mem_cons, Input.event.injEq, reduceCtorEq, false_or]
      grind
  case pos =>
    have hf : (r.step <| .event ev).state.flows = 
        r.state.flows.insert (connectKey ev) 
          ((r.state.flows.lookup <| connectKey ev).getD <| connectFlow ev) := 
      noteEvent_flows_of_connects hc
    constructor
    case entries => 
      intro k f hl
      rw [hf] at hl
      by_cases hk : k = connectKey ev
      case neg => exact h.entries k f <| AList.lookup_insert_ne hk ▸ hl
      case pos =>
        rw [hk, AList.lookup_insert, Option.some.injEq] at hl
        cases hl' : r.state.flows.lookup (connectKey ev)
        case none   => 
          rw [hl', Option.getD_none] at hl
          exact .inl ⟨ev, hl.symm, hk.symm⟩
        case some g => 
          rw [hl', Option.getD_some] at hl
          exact h.entries k f <| hk ▸ hl ▸ hl'
    case mem_iff =>
      intro k
      rw [hf, AList.mem_insert, h.mem_iff]
      simp only [Run.step, List.mem_cons, Input.event.injEq, reduceCtorEq, false_or]
      grind

theorem tick (h : Recorded r) : Recorded (r.step <| .tick t) := by
  have hf : (r.step <| .tick t).state.flows = Directory.enter flowKey r.state.flows (openFlows t) := 
    buildSnapshot_flows
  constructor
  case entries =>
    intro k f hl
    rw [hf] at hl
    rcases lookup_enter_cases hl with ⟨_, hk⟩ | ⟨_, hl⟩
    · exact .inr hk
    · exact h.entries k f hl
  case mem_iff =>
    intro k
    rw [hf, mem_enter_iff, h.mem_iff, List.mem_map]
    simp only [Run.step, List.mem_cons, Input.tick.injEq, reduceCtorEq, false_or]
    grind

theorem step {i : Input} (h : Recorded r) : Recorded (r.step i) := by
  cases i
  case event => exact h.event
  case tick  => exact h.tick

end Recorded

-- A socket that is open belongs to itself only.
theorem Belongs.refl (h : f ∈ openFlows t) : Belongs t f f :=
  ⟨h, .inl rfl⟩

theorem Belongs.eq {g : Agg.NetFlow} (h : Belongs t f g) (hf : f ∈ openFlows t) : f = g :=
  h.right.resolve_right fun hn => hn.left hf

theorem once_iff : 
    ((shown r t).Pairwise fun f f' => 
      ∀ g g', Belongs t f g → Belongs t f' g' → connection g ≠ connection g') ↔ 
      ∀ k k' f f', k ≠ k' → (Directory.enter flowKey r.state.flows (openFlows t)).lookup k = some f → 
        (Directory.enter flowKey r.state.flows (openFlows t)).lookup k' = some f' → 
        ∀ g g', Belongs t f g → Belongs t f' g' → connection g ≠ connection g' := by
  have hs : ∀ f f' : Agg.NetFlow, 
      (∀ g g', Belongs t f g → Belongs t f' g' → connection g ≠ connection g') → 
      ∀ g g', Belongs t f' g → Belongs t f g' → connection g ≠ connection g' := 
    fun _ _ h _ _ hg hg' => (h _ _ hg' hg).symm
  rw [shown_perm.pairwise_iff fun {_ _} => hs _ _, pairwise_values_iff hs]

namespace Recorded

-- If the key of an entry is not that of an open socket, the entry stays as it is. Either it does not belong 
-- to an open socket or that socket has an entry of its own.
theorem not_current (h : Recorded r) (hk : k ∈ r.state.flows) (ho : k ∉ (openFlows t).map flowKey) : 
    ¬Current r t := by
  intro hc
  obtain ⟨f, hf⟩ := Option.isSome_iff_exists.mp <| AList.lookup_isSome.mpr hk
  have hl : (Directory.enter flowKey r.state.flows (openFlows t)).lookup k = some f := 
    (lookup_enter_of_notMem ho).trans hf
  have ⟨g, hg⟩ := hc.opened f <| mem_shown_iff.mpr ⟨k, hl⟩
  have ⟨e, he, hek, hel⟩ := exists_lookup_enter (m := r.state.flows) <| 
    List.mem_map_of_mem (f := flowKey) hg.left
  have hkg : k ≠ flowKey g := fun hkg => ho <| hkg ▸ List.mem_map_of_mem hg.left
  have hd : ∃ n, g.dst = intToIP n := by
    rcases hg.right with rfl | ⟨_, ⟨ev, rfl⟩, _, _, hd, _⟩
    case inr => exact ⟨_, hd⟩
    case inl =>
      rcases h.entries k f hf with ⟨ev, rfl, _⟩ | hk
      · exact ⟨_, rfl⟩
      · exact absurd hk.symm hkg
  obtain ⟨n, hd⟩ := hd
  have hb := intToIP_bytes (n := n)
  rw [← hd] at hb
  refine once_iff.mp hc.once _ _ _ _ hkg hl hel _ _ hg (.refl he) <| Eq.symm ?_
  exact connection_eq_of_flowKey_eq (readable_of_mem_openFlows he) (readable_of_mem_openFlows hg.left) 
    hb.left hb.right hek

theorem current_iff_steady (h : Recorded r) : Current r t ↔ Steady r t := by
  constructor
  case mp =>
    intro hc
    constructor
    case connects =>
      intro ev he hev
      refine h.not_current (h.mem_iff _ |>.mpr <| .inl ⟨ev, he, hev, rfl⟩) (fun hm => ?_) hc
      obtain ⟨f, _, hf⟩ := List.mem_map.mp hm
      exact connectKey_ne_flowKey hf.symm
    case remains =>
      intro t' ht f hf
      by_contra hn
      refine h.not_current (h.mem_iff _ |>.mpr <| .inr ⟨t', ht, f, hf, rfl⟩) (fun hm => hn ?_) hc
      exact List.mem_map.mp hm
  case mpr =>
    intro hs
    have hl {k f} (hl : (Directory.enter flowKey r.state.flows (openFlows t)).lookup k = some f) : 
        f ∈ openFlows t ∧ flowKey f = k := by
      rcases lookup_enter_cases hl with hm | ⟨hn, hl⟩
      · exact hm
      · have hk : k ∈ r.state.flows := AList.lookup_isSome.mp <| Option.isSome_iff_exists.mpr ⟨f, hl⟩
        rcases h.mem_iff k |>.mp hk with ⟨ev, he, hev, _⟩ | ⟨t', ht, g, hg, rfl⟩
        · exact absurd hev <| hs.connects ev he
        · exact absurd (List.mem_map.mpr <| hs.remains t' ht g hg) hn
    have ho {f} (hf : f ∈ shown r t) : f ∈ openFlows t := by
      obtain ⟨k, hk⟩ := mem_shown_iff.mp hf
      exact (hl hk).left
    constructor
    case pid    => exact fun f hf => pid_of_mem_openFlows <| ho hf
    case opened => exact fun f hf => ⟨f, .refl <| ho hf⟩
    case once   =>
      rw [once_iff]
      intro k k' f f' hk hf hf' g g' hg hg' he
      rw [← hg.eq (hl hf).left, ← hg'.eq (hl hf').left] at he
      simp only [connection, Prod.mk.injEq] at he
      apply hk
      rw [← (hl hf).right, ← (hl hf').right]
      simp only [flowKey, he]

end Recorded

-- The flows of all snapshots in a run are right if and only if no connection is noted before a tick and no 
-- socket is closed.
theorem always_current_iff_steady : 
    Execution.Always Run.step (AtTick Current) (.init start) es ↔ 
      Execution.Always Run.step (AtTick Steady) (.init start) es := by
  apply Execution.Always.congr (I := Recorded)
  case hs  => exact Recorded.init
  case hk  => exact fun _ _ h _ => h.step
  case hpq =>
    intro r i h
    cases i
    case event _ => exact Iff.rfl
    case tick t  => exact h.current_iff_steady

end Run

section Closed

attribute [local instance] Unicode.ascii Runtime.stable

def client : Process :=
  .single 121 (.ofBytes <| str "curl") (some <| str "121 (curl) S 1") (by decide)

def noSockets : ProcFS where
  processes := [client]
  nodup     := List.nodup_singleton _

-- A connection to 127.0.0.1:80 has been established.
def connected : Event where
  tsNs   := 0
  type   := evtConnect
  pid    := 121
  tgid   := 121
  uid    := 0
  ret    := 0
  flags  := 0
  extra  := 3
  saddr  := 0
  daddr  := 0x0100007f
  sport  := 0
  dport  := 80
  family := 2
  pad    := 0
  comm   := .ofBytes 16 <| str "curl"
  path   := .zeros 128

def afterClosing : BuildTick where
  now     := Time.epoch + 1_000_000_000
  cfg     := Config.loadTarget 121 (str "curl")
  later   := Config.loadTarget 121 (str "curl")
  fs      := noSockets
  views _ := ⟨noSockets, noSockets, noSockets⟩
  coll    := none

-- The socket is closed before the snapshot is taken.
theorem not_always_current : 
    ¬Execution.Always Run.step (AtTick Current) (.init Time.epoch) 
      [.event connected, .tick afterClosing] := by
  intro h
  have hs := Recorded.init.event.current_iff_steady.mp h.right.left
  exact hs.connects connected List.mem_cons_self ⟨rfl, by decide⟩

end Closed
end EbpfAgent.Flows
