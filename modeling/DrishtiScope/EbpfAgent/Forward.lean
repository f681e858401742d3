import DrishtiScope.EbpfAgent.Filter

open Go Linux Bpf Enrich

-- Which of the records that the kernel program emits become rows.
namespace EbpfAgent

section Forward

variable [Unicode] [Runtime] [Zone] {fs : ProcFS} {cfg : Config} {k k' : Kernel} {p : Process}
  {t : Thread} {cur : Current} {e : Event} {arch : Arch} {tp : Tracepoint} {now : Time}

-- Userspace forwards every record that the kernel program has filtered, and no exec outside of the
-- tree of the target.
structure FiltersAgree (fs : ProcFS) (cfg : Config) (k : Kernel) : Prop where
  forwards : ∀ p ∈ fs.processes, ∀ t ∈ p.threads, ∀ cur, Runs cur p t → ∀ arch tp now, 
    ∀ e ∈ k.emitted arch cur tp, e.type ≠ evtExec → (handleEvent cfg now e).isSome
  exec : ∀ p ∈ fs.processes, ∀ t ∈ p.threads, t.tid = p.pid → ∀ cur, Runs cur p t → ∀ arch tp now, 
    ∀ e ∈ k.emitted arch cur tp, e.type = evtExec → (handleEvent cfg now e).isSome → 
      p.pid ∈ tree fs cfg.targetPid cfg.targetComm

-- A thread that the kernel program lets through belongs to the process that is selected by pid, and
-- its name is the whole comm filter. Something is selected if any process runs.
structure Selective (fs : ProcFS) (cfg : Config) : Prop where
  exact : ∀ p ∈ fs.processes, ∀ t ∈ p.threads, 
    p.pid ∈ tree fs cfg.targetPid cfg.targetComm ∨ Named cfg t →
      (0 < cfg.targetPid → p.pid = cfg.targetPid) ∧ 
      (cfg.targetComm ≠ [] → t.comm.bytes = cfg.targetComm)
  selects : cfg.targetPid = 0 → cfg.targetComm = [] → 
    ∀ p ∈ fs.processes, ∀ t ∈ p.threads, t.tid ≠ p.pid

omit [Unicode] [Runtime] in
-- The test of userspace on a record of a thread.
theorem handleEvent_isSome_iff_of_emitted (he : e ∈ k.emitted arch cur tp) (hr : Runs cur p t) : 
    (handleEvent cfg now e).isSome ↔ 
      (0 < cfg.targetPid → p.pid = cfg.targetPid) ∧ 
      (cfg.targetComm ≠ [] → t.comm.bytes = cfg.targetComm) := by
  have em := Kernel.emits_of_mem_emitted he
  have ⟨hg, _, hc⟩ := em.describes
  rw [handleEvent_isSome_iff em.known, passes_iff, hg, hc, hr.tgid, hr.comm, 
    int_ofInt ⟨p.pid_pos.le, p.pid_le⟩]

omit [Runtime] [Zone] in
-- A process whose name is the comm filter is a root.
theorem mem_tree_of_comm_eq (w : cfg.WellFormed) (hp : p ∈ fs.processes) (ht : t ∈ p.threads) 
    (hl : t.tid = p.pid) (hpid : cfg.targetPid = 0) (hn : cfg.targetComm ≠ []) 
    (hc : t.comm.bytes = cfg.targetComm) : p.pid ∈ tree fs cfg.targetPid cfg.targetComm := by
  have hm : commMatches p cfg.targetComm := by
    simp only [commMatches, Process.commFile, p.leader t ht hl, Option.map_some, Option.any_some,
      Comm.file, hc, Bytes.trimSpace_newline, w.comm.trimSpace_eq]
    exact Bytes.hasPrefix_iff.mpr List.prefix_rfl
  have hf := mem_findByComm.mpr ⟨p, hp, hm, rfl⟩
  apply root_mem_tree
  rw [roots, if_neg (by omega), if_neg hn, if_neg (List.ne_nil_of_mem hf)]
  exact hf

omit [Runtime] [Zone] in
theorem Selective.exec (s : Selective fs cfg) (w : cfg.WellFormed) (hp : p ∈ fs.processes) 
    (ht : t ∈ p.threads) (hl : t.tid = p.pid) (hpid : 0 < cfg.targetPid → p.pid = cfg.targetPid) 
    (hc : cfg.targetComm ≠ [] → t.comm.bytes = cfg.targetComm) : 
    p.pid ∈ tree fs cfg.targetPid cfg.targetComm := by
  by_cases h : 0 < cfg.targetPid
  case pos => exact hpid h ▸ pid_mem_tree hp
  case neg =>
    have h0 : cfg.targetPid = 0 := by
      have hb := w.pid.left
      omega
    by_cases hn : cfg.targetComm = []
    case pos => exact absurd hl <| s.selects h0 hn p hp t ht
    case neg => exact mem_tree_of_comm_eq w hp ht hl h0 hn (hc hn)

omit [Unicode] [Runtime] [Zone] in
theorem exists_empty_ring (k : Kernel) : 
    ∃ k' : Kernel, k'.config = k.config ∧ k'.targets = k.targets ∧ ¬k'.ringFull :=
  ⟨{ k with events := [] }, rfl, rfl, Kernel.not_ringFull rfl⟩

-- The records of one kernel state in which the ring buffer has room tell the condition.
theorem FiltersAgree.selective {k' : Kernel} (ha : FiltersAgree fs cfg k') (w : cfg.WellFormed) 
    (hk : PutsSucceed k (resolve fs cfg)) (hf : ¬k'.ringFull)
    (hk' : k'.config = (writeMaps k cfg (resolve fs cfg)).config) 
    (hc' : k'.targets = (writeMaps k cfg (resolve fs cfg)).targets) : Selective fs cfg where
  exact := by
    intro p hp t ht hi
    have hc := Runs.current p t
    have hi' := isTarget_writeMaps w hk hk' hc' hp hc |>.mpr <| hi.imp_left mem_resolveTargets.mpr
    have ⟨e, he, hx⟩ : ∃ e ∈ k'.emitted .x86_64 (Runs.task p t) .exit, e.type = evtExit := 
      Kernel.exists_exit_emitted hi' hf
    have hs := ha.forwards p hp t ht _ hc .x86_64 .exit 0 e he (by rw [hx]; decide)
    exact handleEvent_isSome_iff_of_emitted he hc |>.mp hs
  selects := by
    intro hpid hcomm p hp t ht hl
    have hc := Runs.current p t
    have ⟨e, he, hx⟩ : ∃ e ∈ k'.emitted .x86_64 (Runs.task p t) (.exec none), e.type = evtExec := 
      Kernel.exists_exec_emitted hf
    have hs : (handleEvent cfg 0 e).isSome := 
      handleEvent_isSome_iff_of_emitted he hc |>.mpr ⟨by simp [hpid], by simp [hcomm]⟩
    have hm := ha.exec p hp t ht hl _ hc .x86_64 _ 0 e he hx hs
    simp [tree, roots, hpid, hcomm] at hm

theorem Selective.filtersAgree {k' : Kernel} (s : Selective fs cfg) (w : cfg.WellFormed) 
    (hk : PutsSucceed k (resolve fs cfg)) 
    (hc : k'.config = (writeMaps k cfg (resolve fs cfg)).config) 
    (ht : k'.targets = (writeMaps k cfg (resolve fs cfg)).targets) : FiltersAgree fs cfg k' where
  forwards := by
    intro p hp t hm cur hr arch tp now e he hx
    apply handleEvent_isSome_iff_of_emitted he hr |>.mpr
    have hi := isTarget_writeMaps w hk hc ht hp hr |>.mp <| 
      (Kernel.emits_of_mem_emitted he).isTarget hx
    exact s.exact p hp t hm <| hi.imp_left mem_resolveTargets.mp
  exec := by
    intro p hp t hm hl cur hr arch tp now e he _ hs
    have hp' := handleEvent_isSome_iff_of_emitted he hr |>.mp hs
    exact s.exec w hp hm hl hp'.left hp'.right

theorem filtersAgree_iff (hr : cfg.Reachable) (hk : PutsSucceed k (resolve fs cfg)) : 
    (∀ k', k'.config = (writeMaps k cfg (resolve fs cfg)).config → 
      k'.targets = (writeMaps k cfg (resolve fs cfg)).targets → FiltersAgree fs cfg k') ↔ 
    Selective fs cfg := by
  constructor
  case mp =>
    intro h
    have ⟨k', hk', hc', hf⟩ := exists_empty_ring (writeMaps k cfg (resolve fs cfg))
    exact h k' hk' hc' |>.selective hr.wellFormed hk hf hk' hc'
  case mpr => exact fun s k' hc ht => s.filtersAgree hr.wellFormed hk hc ht

end Forward

section Child

attribute [local instance] Unicode.ascii Runtime.stable Zone.utcEpoch

def git : Comm :=
  .ofBytes <| str "git"

-- A process that has started another program.
def parentAndChild : ProcFS where
  processes := [
    agent, 
    .single 6 git (str "6 (git) S 5 6 6 0 -1 0 0 0 0 0 1 2 0 0 20 0 1 0 100 0") (by decide)
  ]
  nodup := by decide

def byComm : Config :=
  Config.loadTarget 0 (str "agy")

theorem putsSucceed_byComm : PutsSucceed .empty (resolve parentAndChild byComm) := by
  decide

-- The kernel program observes the child, but userspace drops its records.
theorem not_filtersAgree_parentAndChild : 
    byComm.Reachable ∧ PutsSucceed .empty (resolve parentAndChild byComm) ∧ 
    ¬∀ k', k'.config = (writeMaps .empty byComm (resolve parentAndChild byComm)).config → 
      k'.targets = (writeMaps .empty byComm (resolve parentAndChild byComm)).targets → 
        FiltersAgree parentAndChild byComm k' := by
  refine ⟨.load _, putsSucceed_byComm, fun h => ?_⟩
  let p : Process := 
    .single 6 git (str "6 (git) S 5 6 6 0 -1 0 0 0 0 0 1 2 0 0 20 0 1 0 100 0") (by decide)
  have hr := Runs.current p ⟨6, git⟩
  have ⟨k', hk, ht, hf⟩ := exists_empty_ring 
    (writeMaps .empty byComm (resolve parentAndChild byComm))
  have hi : k'.isTarget (Runs.task p ⟨6, git⟩) := by
    rw [Kernel.isTarget_iff, hk, ht]
    decide
  have ⟨e, he, hx⟩ : ∃ e ∈ k'.emitted .x86_64 (Runs.task p ⟨6, git⟩) .exit, e.type = evtExit := 
    Kernel.exists_exit_emitted hi hf
  have hs := h k' hk ht |>.forwards p (by simp [parentAndChild, p]) ⟨6, git⟩ 
    (List.mem_singleton_self _) _ hr .x86_64 .exit Time.epoch e he (by rw [hx]; decide)
  have hc := handleEvent_isSome_iff_of_emitted he hr |>.mp hs |>.right (by decide)
  exact absurd hc (by decide)

theorem filtersAgree_iff_parentAndChild : 
    (∀ k', k'.config = (writeMaps .empty byComm (resolve parentAndChild byComm)).config → 
      k'.targets = (writeMaps .empty byComm (resolve parentAndChild byComm)).targets → 
        FiltersAgree parentAndChild byComm k') ↔ Selective parentAndChild byComm :=
  filtersAgree_iff (.load _) putsSucceed_byComm

end Child
end EbpfAgent
