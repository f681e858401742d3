import DrishtiScope.Bpf.Effects
import DrishtiScope.EbpfAgent.Agent

open Go Linux Bpf Enrich

-- The filter of the kernel program and the one of userspace, against the tree of the target.
namespace EbpfAgent

section Pids

variable {x y : Int}

theorem int_ofInt (h : 0 ≤ x ∧ x ≤ maxPid) : int (UInt32.ofInt x) = x := by
  have hm : maxPid < 2 ^ 32 := by decide
  simp only [int, UInt32.ofInt, UInt32.toNat_ofNat']
  omega

theorem ofInt_inj (hx : 0 ≤ x ∧ x ≤ maxPid) (hy : 0 ≤ y ∧ y ≤ maxPid) 
    (h : UInt32.ofInt x = UInt32.ofInt y) : x = y := by
  rw [← int_ofInt hx, ← int_ofInt hy, h]

end Pids

-- The current task is thread `t` of process `p`.
structure Runs (cur : Current) (p : Process) (t : Thread) : Prop where
  tgid : cur.tgid = UInt32.ofInt p.pid
  tid  : cur.tid = UInt32.ofInt t.tid
  comm : cur.comm = t.comm

def Runs.task (p : Process) (t : Thread) : Current where
  tgid  := UInt32.ofInt p.pid
  tid   := UInt32.ofInt t.tid
  uid   := 0
  comm  := t.comm
  ktime := 0
  junk  := .zeros 128

theorem Runs.current (p : Process) (t : Thread) : Runs (task p t) p t :=
  ⟨rfl, rfl, rfl⟩

-- The name of a thread starts with the comm filter, if there is one.
def Named (cfg : Config) (t : Thread) : Prop :=
  cfg.targetComm ≠ [] ∧ cfg.targetComm <+: t.comm.bytes

-- The maps after `buildSnapshot` has written them for the given pids.
def writeMaps (k : Kernel) (cfg : Config) (pids : List Int) : Kernel :=
  syncTargetsToMap (writeConfigToMap k cfg pids) pids

-- Each insertion into the `targets` map finds room.
def PutsSucceed (k : Kernel) (pids : List Int) : Prop :=
  k.targets.AllRoom 1 (pids.map UInt32.ofInt)

instance {k : Kernel} {pids : List Int} : Decidable (PutsSucceed k pids) :=
  inferInstanceAs <| Decidable (BoundedMap.AllRoom ..)

-- The keys of the map are those of the pids.
def TargetsAre (k : Kernel) (pids : List Int) : Prop :=
  ∀ key, key ∈ k.targets ↔ ∃ x ∈ pids, UInt32.ofInt x = key

-- The old keys and the new ones fit into the map together.
def Fits (k : Kernel) (pids : List Int) : Prop :=
  (k.targets.keys.toFinset ∪ (pids.map UInt32.ofInt).toFinset).card ≤ 256

section Maps

variable {k : Kernel} {cfg : Config} {pids : List Int} {key : UInt32}

theorem mem_targets_syncTargetsToMap : key ∈ (syncTargetsToMap k pids).targets ↔ 
    (∃ x ∈ pids, UInt32.ofInt x = key) ∧ 
    key ∈ (pids.map UInt32.ofInt).foldl (fun m key => m.insert key 1) k.targets := by
  simp only [syncTargetsToMap, BoundedMap.mem_foldl_erase, List.mem_filter, BoundedMap.mem_keys, 
    decide_eq_true_eq, List.mem_map]
  rw [and_comm, not_and_not_right, and_comm, and_congr_left_iff]
  exact fun hm => ⟨fun h => h hm, fun h _ => h⟩

theorem targetsAre_iff_putsSucceed : TargetsAre (syncTargetsToMap k pids) pids ↔ PutsSucceed k pids := by
  constructor
  case mp  =>
    intro h
    apply BoundedMap.allRoom_of_forall_mem
    intro key hm
    exact mem_targets_syncTargetsToMap.mp (h key |>.mpr <| List.mem_map.mp hm) |>.right
  case mpr =>
    intro h key
    rw [mem_targets_syncTargetsToMap, BoundedMap.mem_foldl_insert h, List.mem_map]
    exact ⟨And.left, fun hm => ⟨hm, .inl hm⟩⟩

-- Until they are deleted, the keys that are not wanted any more take up room.
theorem targetsAre_syncTargetsToMap_iff : TargetsAre (syncTargetsToMap k pids) pids ↔ Fits k pids :=
  targetsAre_iff_putsSucceed.trans BoundedMap.allRoom_iff

theorem mem_targets_writeMaps (h : PutsSucceed k pids) : 
    key ∈ (writeMaps k cfg pids).targets ↔ ∃ x ∈ pids, UInt32.ofInt x = key :=
  targetsAre_iff_putsSucceed (k := writeConfigToMap k cfg pids) |>.mpr h key

@[simp]
theorem writeMaps_observeAll : (writeMaps k cfg pids).config.observeAll = 0 :=
  rfl

@[simp]
theorem writeMaps_targetTgid : 
    (writeMaps k cfg pids).config.targetTgid = 
      if 0 < cfg.targetPid then 
        UInt32.ofInt cfg.targetPid 
      else 
        (pids.head?.map UInt32.ofInt).getD 0 :=
  rfl

theorem writeMaps_targetComm [Unicode] (w : cfg.WellFormed) : 
    (writeMaps k cfg pids).config.targetComm.cstr = cfg.targetComm := by
  have hl : cfg.targetComm.length ≤ 15 := w.comm.length_le
  exact CharArray.cstr_ofBytes (by omega) w.comm.zero_not_mem

end Maps

section Crowd

-- The tree of one target fills the map, so that there is no room for the next target.
def crowd : List Int :=
  (List.range 256).map fun n : Nat => n + 1

def crowded : Kernel :=
  syncTargetsToMap .empty crowd

theorem length_crowd : crowd.length = 256 := by
  rw [crowd, List.length_map, List.length_range]

theorem nodup_crowd : (crowd.map UInt32.ofInt).Nodup := by
  rw [crowd, List.map_map]
  apply List.nodup_range.map_on
  intro x hx y hy he
  have hm : maxPid = 4194304 := rfl
  have hx := List.mem_range.mp hx
  have hy := List.mem_range.mp hy
  have hi : (x : Int) + 1 = y + 1 := ofInt_inj (by omega) (by omega) he
  omega

theorem targetsAre_crowded : TargetsAre crowded crowd := by
  apply targetsAre_iff_putsSucceed.mpr <| BoundedMap.allRoom_iff.mpr ?_
  have hk : Kernel.empty.targets.keys.toFinset = ∅ := rfl
  have hl : (crowd.map UInt32.ofInt).toFinset.card ≤ (crowd.map UInt32.ofInt).length := 
    List.toFinset_card_le _
  rwa [hk, Finset.empty_union, ← length_crowd, ← List.length_map UInt32.ofInt]

theorem not_targetsAre_crowded : 
    crowd.length ≤ 256 ∧ [300].length ≤ 256 ∧ ¬TargetsAre (syncTargetsToMap crowded [300]) [300] := by
  refine ⟨length_crowd.le, by simp, fun h => ?_⟩
  have hk : crowded.targets.keys.toFinset = (crowd.map UInt32.ofInt).toFinset := by
    ext key
    rw [List.mem_toFinset, BoundedMap.mem_keys, targetsAre_crowded key, List.mem_toFinset, List.mem_map]
  cases targetsAre_iff_putsSucceed.mp h |>.left
  case inl hm =>
    have ⟨x, hx, he⟩ := targetsAre_crowded _ |>.mp hm
    have ⟨n, hn, hx⟩ := List.mem_map.mp hx
    have hn := List.mem_range.mp hn
    have hm : maxPid = 4194304 := rfl
    have hi := ofInt_inj (by omega) (by omega) he
    omega
  case inr hl =>
    rw [← BoundedMap.card_keys, hk, List.toFinset_card_of_nodup nodup_crowd, List.length_map, 
      length_crowd] at hl
    exact absurd hl (Nat.lt_irrefl _)

end Crowd

section Observation

variable [Unicode] [Runtime] {fs : ProcFS} {cfg : Config} {k k' : Kernel} {p : Process}
  {t : Thread} {cur : Current} {x : Int}

def resolve (fs : ProcFS) (cfg : Config) : List Int :=
  resolveTargets fs cfg.targetPid cfg.targetComm

theorem resolve_bounds (w : cfg.WellFormed) (h : x ∈ resolve fs cfg) : 0 < x ∧ x ≤ maxPid := by
  cases mem_tree <| mem_resolveTargets.mp h
  case inl h => 
    have hp := w.pid
    exact ⟨h.right ▸ h.left, h.right ▸ hp.right⟩
  case inr h =>
    have ⟨p, _, he⟩ := h
    exact he ▸ ⟨p.pid_pos, p.pid_le⟩

theorem mem_resolve_of_ofInt_eq (w : cfg.WellFormed) (h : x ∈ resolve fs cfg) 
    (he : UInt32.ofInt x = UInt32.ofInt p.pid) : p.pid ∈ resolve fs cfg := by
  have hx := resolve_bounds w h
  have hp := p.pid_pos
  rwa [← ofInt_inj ⟨hx.left.le, hx.right⟩ ⟨hp.le, p.pid_le⟩ he]

-- What the kernel lets through: the processes of the tree, and the threads that are named for it.
theorem isTarget_writeMaps (w : cfg.WellFormed) (hk : PutsSucceed k (resolve fs cfg)) 
    (hc : k'.config = (writeMaps k cfg (resolve fs cfg)).config) 
    (ht : k'.targets = (writeMaps k cfg (resolve fs cfg)).targets) 
    (hp : p ∈ fs.processes) (hr : Runs cur p t) :
    k'.isTarget cur ↔ p.pid ∈ resolve fs cfg ∨ Named cfg t := by
  rw [Kernel.isTarget_iff, commPrefixMatch_iff, hc, ht, mem_targets_writeMaps hk, 
    writeMaps_observeAll, writeMaps_targetTgid, writeMaps_targetComm w]
  rw [hr.tgid, hr.comm]
  constructor
  case mp =>
    rintro (h | ⟨_, h⟩ | h | ⟨x, hx, h⟩)
    · contradiction
    · left
      split at h
      case isTrue hpos =>
        have he := ofInt_inj w.pid ⟨p.pid_pos.le, p.pid_le⟩ h
        rw [resolve, he]
        exact mem_resolveTargets.mpr <| pid_mem_tree hp
      case isFalse =>
        cases hh : (resolve fs cfg).head?
        case none   => simp_all
        case some x =>
          simp only [hh, Option.map_some, Option.getD_some] at h
          exact mem_resolve_of_ofInt_eq w (List.mem_of_head? hh) h
    · exact .inr h
    · exact .inl <| mem_resolve_of_ofInt_eq w hx h
  case mpr =>
    intro h
    cases h
    case inl h => exact .inr <| .inr <| .inr ⟨p.pid, h, rfl⟩
    case inr h => exact .inr <| .inr <| .inl h

-- The kernel program observes the processes in `pids` and no others, so the tracepoints of another
-- process leave its counters alone.
def ObservesExactly (fs : ProcFS) (k : Kernel) (pids : List Int) : Prop :=
  ∀ p ∈ fs.processes, ∀ t ∈ p.threads, ∀ cur, Runs cur p t → 
    (k.isTarget cur ↔ p.pid ∈ pids) ∧
    (p.pid ∉ pids → ∀ arch tp, (k.run arch cur tp).processStats = k.processStats)

-- A thread that is named for the target belongs to its tree.
def NamesInTree (fs : ProcFS) (cfg : Config) : Prop :=
  ∀ p ∈ fs.processes, ∀ t ∈ p.threads, Named cfg t → p.pid ∈ tree fs cfg.targetPid cfg.targetComm

omit [Unicode] [Runtime] in
theorem processStats_run_of_not_isTarget {arch : Arch} {tp : Tracepoint} (h : ¬k.isTarget cur) : 
    (k.run arch cur tp).processStats = k.processStats := by
  cases tp
  case exec     => exact Kernel.allocEvent_processStats
  case exit     => rw [Kernel.run, Kernel.tpExit_eq_self h]
  case sysEnter => rw [Kernel.run, Kernel.tpSysEnter_eq_self h]
  case sysExit  => rw [Kernel.run, Kernel.tpSysExit_eq_self h]

theorem observesExactly_iff (hr : cfg.Reachable) (hk : PutsSucceed k (resolve fs cfg)) : 
    ObservesExactly fs (writeMaps k cfg (resolve fs cfg)) (resolve fs cfg) ↔ NamesInTree fs cfg := by
  constructor
  case mp =>
    intro h p hp t ht hn
    have hc := Runs.current p t
    apply mem_resolveTargets.mp
    apply h p hp t ht _ hc |>.left |>.mp
    exact isTarget_writeMaps hr.wellFormed hk rfl rfl hp hc |>.mpr <| .inr hn
  case mpr =>
    intro h p hp t ht cur hc
    have hi := isTarget_writeMaps hr.wellFormed hk rfl rfl hp hc
    have hn : Named cfg t → p.pid ∈ resolve fs cfg := 
      fun hn => mem_resolveTargets.mpr <| h p hp t ht hn
    refine ⟨hi.trans ⟨fun ho => ho.elim id hn, .inl⟩, fun ho _ _ => ?_⟩
    apply processStats_run_of_not_isTarget
    exact fun ht => (hi.mp ht).elim ho (ho ∘ hn)

end Observation

section Namesakes

attribute [local instance] Unicode.ascii Runtime.stable

def agy : Comm :=
  .ofBytes <| str "agy"

def agent : Process :=
  .single 5 agy none (by decide)

-- Two processes of the same name, of which neither is the parent of the other.
def namesakes : ProcFS where
  processes := [agent, .single 9 agy none (by decide)]
  nodup     := by decide

-- Process 5 is selected by its pid while the comm is still that of both.
def pinned : Config :=
  Config.loadTarget 5 (str "agy")

theorem pinned_reachable : pinned.Reachable :=
  .load _

theorem putsSucceed_pinned : PutsSucceed .empty (resolve namesakes pinned) := by
  decide

-- Process 9 is observed, although it has nothing to do with process 5.
theorem not_observesExactly_namesakes : 
    pinned.Reachable ∧ PutsSucceed .empty (resolve namesakes pinned) ∧ 
    ¬ObservesExactly namesakes (writeMaps .empty pinned (resolve namesakes pinned)) 
      (resolve namesakes pinned) := by
  refine ⟨pinned_reachable, putsSucceed_pinned, fun h => ?_⟩
  let cur : Current := ⟨9, 9, 0, agy, 0, .zeros 128⟩
  have ho := h (.single 9 agy none (by decide)) (by simp [namesakes]) ⟨9, agy⟩ 
    (List.mem_singleton_self _) cur ⟨rfl, rfl, rfl⟩ |>.left.mp (by decide)
  exact absurd ho (by decide)

theorem observesExactly_iff_namesakes : 
    ObservesExactly namesakes (writeMaps .empty pinned (resolve namesakes pinned)) 
      (resolve namesakes pinned) ↔ NamesInTree namesakes pinned :=
  observesExactly_iff pinned_reachable putsSucceed_pinned

end Namesakes
end EbpfAgent
