import DrishtiScope.RealEngine.Scan
import Mathlib.Data.Prod.Lex

open Go Linux

-- The order of the processes in a snapshot, and which of them the numbers of the target are from.
namespace RealEngine.Rows

section Order

variable [Unicode]

-- The row of a process, if it is relevant.
def rowOf (fs : ProcFS) (history : Int → Option ProcSnapshot) (targetPid : Int) (c : Bytes) (now : Time) 
    (p : Process) : Option Agg.ProcessRow :=
  match commOf p with
  | none      => none
  | some comm =>
    let cmdline := cmdlineOf p
    if !isTarget p.pid comm cmdline targetPid c && !isSignificant comm cmdline then none else
      let info := Enrich.readProcessInfo fs p.pid
      some { info.row with
        comm    := comm
        cmdline := cmdline
        cpuPct  := cpuPct (history p.pid) (info.utime + info.stime) now
      }

def relevant (e : Engine) (t : Tick) (targetPid : Int) (c : Bytes) : List Agg.ProcessRow :=
  t.fs.processes.filterMap <| rowOf t.fs e.procHistory targetPid c t.now

-- The row is sorted as one of the target.
def marked (targetPid : Int) (c : Bytes) (r : Agg.ProcessRow) : Bool :=
  (0 < targetPid && r.pid = targetPid) || (targetPid ≤ 0 && r.comm.equalFold c)

-- By CPU, then by RSS.
def weight (r : Agg.ProcessRow) : ℚ ×ₗ Int :=
  toLex (r.cpuPct, r.rssBytes)

def rank (targetPid : Int) (c : Bytes) (r : Agg.ProcessRow) : Bool ×ₗ ℚ ×ₗ Int :=
  toLex (marked targetPid c r, weight r)

-- The row of the target.
def KPIsOf (k : Agg.KPIs) (r : Agg.ProcessRow) : Prop :=
  k.cpuPct = r.cpuPct ∧ k.threads = r.threads ∧ k.rssBytes = r.rssBytes ∧ k.openFDs = r.openFDs

section

variable [Runtime] [Zone]

def snapshot (e : Engine) (cfg : Config) (t : Tick) : Agg.Snapshot :=
  (collect e cfg t).snapshot

-- If the target has a row, that row is the first one and the numbers are from it. The other rows follow, the 
-- busiest ones first.
def Consistent (e : Engine) (cfg : Config) (t : Tick) : Prop :=
  let snap := snapshot e cfg t
  ∀ r ∈ snap.processes, r.pid = snap.info.target.pid → KPIsOf snap.kpis r ∧ 
    ∃ rest, snap.processes = r :: rest ∧ (rest.Pairwise fun a b => weight b ≤ weight a) ∧ 
      rest.Perm ((relevant e t cfg.targetPid <| targetComm cfg.targetComm).filter (·.pid ≠ r.pid))

end

-- No row is marked unless that of the target is, which weighs more than those of its kind. The other marked 
-- rows do not weigh less than the ones that are not.
structure Leads (targetPid : Int) (c : Bytes) (rows : List Agg.ProcessRow) (r : Agg.ProcessRow) : Prop where
  kind    : ∀ a ∈ rows, a.pid ≠ r.pid → marked targetPid c a → marked targetPid c r
  heavier : ∀ a ∈ rows, a.pid ≠ r.pid → marked targetPid c a = marked targetPid c r → weight a < weight r
  others  : ∀ a ∈ rows, ∀ b ∈ rows, a.pid ≠ r.pid → b.pid ≠ r.pid → 
    marked targetPid c a → ¬marked targetPid c b → weight b ≤ weight a

def Leading (e : Engine) (cfg : Config) (t : Tick) : Prop :=
  let c := targetComm cfg.targetComm
  let rows := relevant e t cfg.targetPid c
  ∀ r ∈ rows, r.pid = reportedPid t.fs cfg.targetPid c → Leads cfg.targetPid c rows r

variable {fs : ProcFS} {targetPid : Int} {c : Bytes} {now : Time} {s : Scan} {p : Process} {l : List Process}
         {rows m : List Agg.ProcessRow} {r a b : Agg.ProcessRow} {history : Int → Option ProcSnapshot}
         {e : Engine} {t : Tick} {cfg : Config}

omit [Unicode] in
theorem weight_lt_iff : 
    weight b < weight a ↔ b.cpuPct < a.cpuPct ∨ b.cpuPct = a.cpuPct ∧ b.rssBytes < a.rssBytes :=
  Prod.Lex.toLex_lt_toLex

theorem rank_lt_iff : 
    rank targetPid c b < rank targetPid c a ↔ 
      marked targetPid c b < marked targetPid c a ∨ 
      marked targetPid c b = marked targetPid c a ∧ weight b < weight a :=
  Prod.Lex.toLex_lt_toLex

theorem rank_le_iff : 
    rank targetPid c b ≤ rank targetPid c a ↔ 
      marked targetPid c b < marked targetPid c a ∨ 
      marked targetPid c b = marked targetPid c a ∧ weight b ≤ weight a :=
  Prod.Lex.toLex_le_toLex

variable (targetPid c a b) in
theorem rowLess_iff : rowLess targetPid c a b ↔ rank targetPid c b < rank targetPid c a := by
  have he : rowLess targetPid c a b = 
      if marked targetPid c a ≠ marked targetPid c b then marked targetPid c a
      else if a.cpuPct ≠ b.cpuPct then b.cpuPct < a.cpuPct
      else b.rssBytes < a.rssBytes := 
    rfl
  rw [he, rank_lt_iff, weight_lt_iff]
  by_cases hm : marked targetPid c a = marked targetPid c b
  case neg => cases ha : marked targetPid c a <;> cases hb : marked targetPid c b <;> simp_all
  case pos =>
    rw [if_neg (not_not.mpr hm), hm]
    by_cases hc : a.cpuPct = b.cpuPct
    case pos => simp [hc]
    case neg => simp [hc, Ne.symm hc]

theorem pid_of_rowOf (h : rowOf fs history targetPid c now p = some r) : r.pid = p.pid := by
  rw [rowOf] at h
  split at h
  case h_1 => contradiction
  case h_2 =>
    simp only [Option.ite_none_left_eq_some] at h
    exact Option.some_inj.mp h.right ▸ rfl

theorem rowOf_congr {history' : Int → Option ProcSnapshot} (h : history p.pid = history' p.pid) : 
    rowOf fs history targetPid c now p = rowOf fs history' targetPid c now p := by
  simp only [rowOf, h]

theorem nodup_filterMap_rowOf (hn : (l.map (·.pid)).Nodup) : 
    ((l.filterMap <| rowOf fs history targetPid c now).map (·.pid)).Nodup := by
  induction l
  case nil         => exact List.nodup_nil
  case cons p l hi =>
    have ⟨hp, hn⟩ := List.nodup_cons.mp hn
    rw [List.filterMap_cons]
    split
    case h_1      => exact hi hn
    case h_2 r hr =>
      refine List.nodup_cons.mpr ⟨fun hm => hp ?_, hi hn⟩
      obtain ⟨r', hr', he⟩ := List.mem_map.mp hm
      obtain ⟨q, hq, hq'⟩ := List.mem_filterMap.mp hr'
      have he : r'.pid = r.pid := he
      rw [pid_of_rowOf hq', pid_of_rowOf hr] at he
      exact List.mem_map.mpr ⟨q, hq, he⟩

theorem nodup_relevant : ((relevant e t targetPid c).map (·.pid)).Nodup :=
  nodup_filterMap_rowOf t.fs.nodup

theorem scanProcess_rows : 
    (scanProcess fs targetPid c now s p).rows = 
      s.rows ++ (rowOf fs s.procHistory targetPid c now p).toList := by
  rw [scanProcess, rowOf]
  cases commOf p
  case none   => simp
  case some _ => 
    simp only
    split <;> simp

theorem scanProcess_procHistory {x : Int} (h : x ≠ p.pid) : 
    (scanProcess fs targetPid c now s p).procHistory x = s.procHistory x := by
  have hs : scanProcess fs targetPid c now s p = scanProcess fs targetPid c now s p := rfl
  obtain ⟨hh, _⟩ | ⟨r, y, hh, _⟩ := scanProcess_cases hs
  · rw [hh]
  · rw [hh, Function.update_of_ne h]

-- No process is seen twice, so that each row depends on the history of earlier ticks.
theorem scan_rows (hn : (l.map (·.pid)).Nodup) : 
    (l.foldl (scanProcess fs targetPid c now) s).rows = 
      s.rows ++ l.filterMap (rowOf fs s.procHistory targetPid c now) := by
  induction l generalizing s
  case nil         => simp
  case cons p l hi =>
    have ⟨hp, hn⟩ := List.nodup_cons.mp hn
    rw [List.foldl_cons, hi hn, scanProcess_rows, List.append_assoc]
    congr 1
    have hc : l.filterMap (rowOf fs (scanProcess fs targetPid c now s p).procHistory targetPid c now) = 
        l.filterMap (rowOf fs s.procHistory targetPid c now) := by
      refine List.filterMap_congr fun q hq => rowOf_congr <| scanProcess_procHistory fun he => hp ?_
      exact List.mem_map.mpr ⟨q, hq, he⟩
    rw [hc, List.filterMap_cons]
    cases rowOf fs s.procHistory targetPid c now p <;> rfl

theorem Leads.rank_lt (h : Leads targetPid c rows r) (ha : a ∈ rows) (hp : a.pid ≠ r.pid) : 
    rank targetPid c a < rank targetPid c r := by
  rw [rank_lt_iff]
  cases hm : marked targetPid c a <;> cases hr : marked targetPid c r
  case false.true  => exact .inl <| by decide
  case true.false  => exact absurd (h.kind a ha hp hm) (by simp [hr])
  case false.false => exact .inr ⟨rfl, h.heavier a ha hp <| hm.trans hr.symm⟩
  case true.true   => exact .inr ⟨rfl, h.heavier a ha hp <| hm.trans hr.symm⟩

theorem Leads.weight_le (h : Leads targetPid c rows r) (ha : a ∈ rows) (hb : b ∈ rows) (hpa : a.pid ≠ r.pid) 
    (hpb : b.pid ≠ r.pid) (hr : rank targetPid c b ≤ rank targetPid c a) : weight b ≤ weight a := by
  cases rank_le_iff.mp hr
  case inr hw => exact hw.right
  case inl hm =>
    have ⟨hb', ha'⟩ := Bool.lt_iff.mp hm
    exact h.others a ha b hb hpa hpb ha' (by simp [hb'])

omit [Unicode] in
theorem pid_ne_iff (hn : (rows.map (·.pid)).Nodup) (hr : r ∈ rows) (ha : a ∈ rows) : 
    a.pid ≠ r.pid ↔ a ≠ r :=
  not_congr ⟨List.inj_on_of_nodup_map hn ha hr, congrArg _⟩

-- In a sorted list a marked row cannot come after one that is not.
theorem weight_le_of_sorted (hs : m.Pairwise fun a b => rank targetPid c b ≤ rank targetPid c a) 
    (hw : m.Pairwise fun a b => weight b ≤ weight a) (ha : a ∈ m) (hb : b ∈ m) 
    (hlt : rank targetPid c b < rank targetPid c a) : weight b ≤ weight a := by
  have hne : b ≠ a := fun heq => hlt.ne (heq ▸ rfl)
  cases pair_sublist_or_reverse ha hb hne
  case inl hp => exact absurd hlt <| not_lt.mpr <| by simpa using hs.sublist hp
  case inr hp =>
    have hp : [a, b].Sublist m := by simpa using hp.reverse
    simpa using hw.sublist hp

theorem leads_of_sorted (hn : (rows.map (·.pid)).Nodup) (hr : r ∈ rows) 
    (h : ∀ R : Runtime, ∃ rest, R.sortSlice (rowLess targetPid c) rows = r :: rest ∧ 
      rest.Pairwise fun a b => weight b ≤ weight a) : Leads targetPid c rows r := by
  have hl : ∀ a ∈ rows, a.pid ≠ r.pid → rank targetPid c a < rank targetPid c r := fun a ha hp => 
    forall_head_iff (rowLess_iff targetPid c) hr |>.mp (fun R => (h R).imp fun _ => And.left) a ha <| 
      pid_ne_iff hn hr ha |>.mp hp
  constructor
  case kind =>
    intro a ha hp hm
    cases rank_lt_iff.mp (hl a ha hp)
    case inl hlt => exact (Bool.lt_iff.mp hlt).right
    case inr heq => exact heq.left ▸ hm
  case heavier =>
    intro a ha hp hm
    exact rank_lt_iff.mp (hl a ha hp) |>.resolve_left (fun hlt => hlt.ne hm) |>.right
  case others =>
    intro a ha b hb hpa hpb hma hmb
    let R := Runtime.stable
    have ⟨rest, he, hw⟩ := h R
    have hs := Runtime.sortSlice_perm (rowLess targetPid c) rows
    have hm : ∀ x ∈ rows, x.pid ≠ r.pid → x ∈ rest := fun x hx hp => 
      List.mem_cons.mp (he ▸ hs.mem_iff.mpr hx) |>.resolve_left <| pid_ne_iff hn hr hx |>.mp hp
    have hsorted := sortSlice_pairwise (l := rows) (rowLess_iff targetPid c)
    rw [he, List.pairwise_cons] at hsorted
    apply weight_le_of_sorted hsorted.right hw (hm a ha hpa) (hm b hb hpb)
    exact rank_lt_iff.mpr <| .inl <| Bool.lt_iff.mpr ⟨by simpa using hmb, hma⟩

-- Sorting the rows, whatever is done with ties.
theorem forall_sorted_iff (hn : (rows.map (·.pid)).Nodup) (hr : r ∈ rows) : 
    (∀ R : Runtime, ∃ rest, R.sortSlice (rowLess targetPid c) rows = r :: rest ∧ 
      rest.Pairwise fun a b => weight b ≤ weight a) ↔ Leads targetPid c rows r := by
  refine ⟨leads_of_sorted hn hr, fun h R => ?_⟩
  have ⟨rest, he⟩ := forall_head_iff (rowLess_iff targetPid c) hr |>.mpr 
    (fun a ha hne => h.rank_lt ha <| pid_ne_iff hn hr ha |>.mpr hne) R
  have hs := Runtime.sortSlice_perm (rowLess targetPid c) rows
  have hm : ∀ x ∈ rest, x ∈ rows ∧ x.pid ≠ r.pid := by
    intro x hx
    have hx' : x ∈ rows := hs.mem_iff.mp <| he ▸ List.mem_cons_of_mem _ hx
    have hnd := List.nodup_cons.mp <| he ▸ hs.nodup_iff.mpr (.of_map _ hn)
    exact ⟨hx', pid_ne_iff hn hr hx' |>.mpr fun heq => hnd.left <| heq ▸ hx⟩
  have hsorted := sortSlice_pairwise (l := rows) (rowLess_iff targetPid c)
  rw [he, List.pairwise_cons] at hsorted
  refine ⟨rest, he, hsorted.right.imp_of_mem fun {a b} ha hb hle => ?_⟩
  exact h.weight_le (hm a ha).left (hm b hb).left (hm a ha).right (hm b hb).right hle

theorem pid_pos_of_mem_relevant (h : r ∈ relevant e t targetPid c) : 0 < r.pid := by
  obtain ⟨p, _, hp⟩ := List.mem_filterMap.mp h
  exact pid_of_rowOf hp ▸ p.pid_pos

theorem findTarget_eq (hn : (rows.map (·.pid)).Nodup) (hr : r ∈ rows) (hp : 0 < r.pid) : 
    findTarget rows r.pid c = some r := by
  cases hf : findTarget rows r.pid c
  case none   => simpa [hp] using List.find?_eq_none.mp hf r hr
  case some a =>
    have ha : a.pid = r.pid := by simpa [hp, Int.not_le.mpr hp] using List.find?_some hf
    rw [List.inj_on_of_nodup_map hn (List.mem_of_find?_eq_some hf) hr ha]

omit [Unicode] in
theorem perm_filter_of_perm_cons (hn : (rows.map (·.pid)).Nodup) (hp : (r :: m).Perm rows) : 
    m.Perm <| rows.filter (·.pid ≠ r.pid) := by
  have hm := List.nodup_cons.mp <| (hp.map (·.pid)).nodup_iff.mpr hn
  have hf : m.filter (·.pid ≠ r.pid) = m := by
    refine List.filter_eq_self.mpr fun a ha => decide_eq_true fun he => hm.left ?_
    exact List.mem_map.mpr ⟨a, ha, he⟩
  have hc := hp.filter (·.pid ≠ r.pid)
  rwa [List.filter_cons_of_neg (by simp), hf] at hc

section

variable [Runtime] [Zone]

theorem measure_kpis {pid : Int} (h : findTarget rows pid c = some r) : 
    KPIsOf (measure e t rows pid c).snd.fst.kpis r := by
  simp only [KPIsOf, measure, h, Option.getD_some, and_self]

variable (e t targetPid c) in
omit [Zone] in
theorem scanAllProcesses_rows : 
    (scanAllProcesses e t targetPid c).rows = 
      Runtime.sortSlice (rowLess targetPid c) (relevant e t targetPid c) := by
  rw [scanAllProcesses, relevant]
  simp only [scan_rows t.fs.nodup, List.nil_append]

variable (e cfg t) in
theorem snapshot_eq : 
    let c := targetComm cfg.targetComm
    (snapshot e cfg t).processes = Runtime.sortSlice (rowLess cfg.targetPid c) (relevant e t cfg.targetPid c) ∧ 
    (snapshot e cfg t).info.target.pid = reportedPid t.fs cfg.targetPid c ∧ 
    ∀ r ∈ relevant e t cfg.targetPid c, r.pid = reportedPid t.fs cfg.targetPid c → 
      KPIsOf (snapshot e cfg t).kpis r := by
  intro c
  refine ⟨?processes, ?pid, ?kpis⟩
  case processes =>
    rw [snapshot, collect_eq, ← scanAllProcesses_rows]
    rfl
  case pid => rw [snapshot, collect_target]
  case kpis =>
    intro r hr hp
    rw [snapshot, collect_eq]
    apply measure_kpis
    rw [← hp, scanAllProcesses_rows]
    have hs := Runtime.sortSlice_perm (rowLess cfg.targetPid c) (relevant e t cfg.targetPid c)
    exact findTarget_eq ((hs.map _).nodup_iff.mpr nodup_relevant) (hs.mem_iff.mpr hr) <| 
      pid_pos_of_mem_relevant hr

end

-- The snapshot is consistent for every result of the sort if and only if the row of the target leads.
theorem forall_consistent_iff [Zone] : 
    (∀ _ : Runtime, Consistent e cfg t) ↔ Leading e cfg t := by
  constructor
  case mp =>
    intro h r hr hp
    apply forall_sorted_iff nodup_relevant hr |>.mp
    intro R
    have ⟨hs, ht, _⟩ := snapshot_eq e t cfg
    have ⟨_, rest, he, hw, _⟩ := h R r (hs ▸ mem_sortSlice.mpr hr) (ht ▸ hp)
    exact ⟨rest, hs ▸ he, hw⟩
  case mpr =>
    intro h R r hr hp
    have ⟨hs, ht, hk⟩ := snapshot_eq e t cfg
    have hr : r ∈ relevant e t cfg.targetPid (targetComm cfg.targetComm) := mem_sortSlice.mp (hs ▸ hr)
    have hp : r.pid = reportedPid t.fs cfg.targetPid (targetComm cfg.targetComm) := hp.trans ht
    have ⟨rest, he, hw⟩ := forall_sorted_iff nodup_relevant hr |>.mpr (h r hr hp) R
    refine ⟨hk r hr hp, rest, hs.trans he, hw, perm_filter_of_perm_cons nodup_relevant ?_⟩
    exact he ▸ Runtime.sortSlice_perm ..

-- A pid that is configured is the one that the rows are sorted by.
theorem leading_of_pos (h : 0 < cfg.targetPid) : Leading e cfg t := by
  intro r hr hp
  rw [reportedPid, if_neg (Int.not_le.mpr h)] at hp
  have hm : ∀ a, marked cfg.targetPid (targetComm cfg.targetComm) a ↔ a.pid = r.pid := by
    intro a
    simp [marked, h, Int.not_le.mpr h, hp]
  constructor
  case kind    => exact fun a _ hne ha => absurd (hm a |>.mp ha) hne
  case heavier => exact fun a _ hne ha => absurd (hm a |>.mp <| ha.trans <| hm r |>.mpr rfl) hne
  case others  => exact fun a _ _ _ hne _ ha => absurd (hm a |>.mp ha) hne

end Order

section Namesakes

attribute [local instance] Unicode.ascii Runtime.stable Zone.utcEpoch

-- Two agents, of which the second one uses more memory.
def agents : Tick where
  now  := Time.epoch
  wall := Time.epoch
  fs   := {
    processes := [
      .single 171 (.ofBytes <| str "agy") none (by decide), 
      { Process.single 172 (.ofBytes <| str "agy") none (by decide) with statm := some ⟨2, 1⟩ }
    ]
    nodup     := by decide
  }

def anyAgent : Config :=
  Config.loadTarget 0 (str "agy")

def agentRows : List Agg.ProcessRow :=
  relevant (newEngine Time.epoch) agents anyAgent.targetPid (targetComm anyAgent.targetComm)

theorem exists_agentRows : ∃ a ∈ agentRows, ∃ b ∈ agentRows, 
    a.pid = reportedPid agents.fs anyAgent.targetPid (targetComm anyAgent.targetComm) ∧ 
    rowLess anyAgent.targetPid (targetComm anyAgent.targetComm) b a := by
  decide +kernel

-- The first one is the target, and the row of the second one comes first.
theorem not_consistent_agents : ¬Consistent (newEngine Time.epoch) anyAgent agents := by
  intro h
  have ⟨a, ha, b, hb, hp, hl⟩ := exists_agentRows
  have hl := rowLess_iff _ _ _ _ |>.mp hl
  have ⟨hs, ht, _⟩ := snapshot_eq (newEngine Time.epoch) agents anyAgent
  have ⟨_, rest, hr, _⟩ := h a (hs ▸ mem_sortSlice.mpr ha) <| hp.trans ht.symm
  have hw := sortSlice_pairwise (l := agentRows) 
    (rowLess_iff anyAgent.targetPid (targetComm anyAgent.targetComm))
  have hm : b ∈ a :: rest := hr ▸ hs ▸ mem_sortSlice.mpr hb
  have he : Runtime.sortSlice (rowLess _ _) agentRows = a :: rest := hs.symm.trans hr
  rw [he, List.pairwise_cons] at hw
  cases List.mem_cons.mp hm
  case inl heq => exact absurd hl <| heq ▸ lt_irrefl _
  case inr hm  => exact absurd hl <| not_lt.mpr <| hw.left b hm

end Namesakes
end RealEngine.Rows
