import DrishtiScope.Lib.Execution
import DrishtiScope.Lib.Keyed
import DrishtiScope.RealEngine.Scan

open Go Linux Keyed

-- The events that report what the engine sees of the target for the first time.
namespace RealEngine.Discovery

-- What identifies a flow.
structure FlowId where
  src   : Bytes
  dst   : Bytes
  sport : Int
  dport : Int
  proto : Bytes
  deriving DecidableEq

def FlowId.of (fl : Agg.NetFlow) : FlowId :=
  ⟨fl.src, fl.dst, fl.sport, fl.dport, fl.proto⟩

-- The key under which a flow is remembered. It leaves out the protocol.
def FlowId.key (f : FlowId) : Bytes :=
  f.src ++ str ":" ++ itoa f.sport ++ str "->" ++ f.dst ++ str ":" ++ itoa f.dport

theorem FlowId.key_of (fl : Agg.NetFlow) : (FlowId.of fl).key = flowKey fl :=
  rfl

-- The event reports the path, or the flow.
def showsFile (path : Bytes) (e : Agg.EventRow) : Bool :=
  e.category = str "file" ∧ e.attrs.lookup (str "path") = some (.str path)

def showsFlow (f : FlowId) (e : Agg.EventRow) : Bool :=
  e.category = str "network" ∧ 
  e.attrs.lookup (str "src") = some (.str f.src) ∧ e.attrs.lookup (str "dst") = some (.str f.dst) ∧ 
  e.attrs.lookup (str "sport") = some (.int f.sport) ∧ 
  e.attrs.lookup (str "dport") = some (.int f.dport) ∧ 
  e.attrs.lookup (str "proto") = some (.str f.proto)

-- The descriptors of the process that lead to files, with their paths.
def openFiles (fs : ProcFS) (pid : Int) : List (Bytes × Bytes) :=
  ((fs.find? pid).bind (·.fd)).getD [] |>.filterMap fun ent => do
    let target ← ent.link
    if isRealFile target then some (ent.name, target) else none

section Fold

variable {α : Type} {key : α → Bytes} {event : α → Nat → Agg.EventRow} {max : Nat} {known : List Bytes} 
         {evts : List Agg.EventRow} {l : List α}

def report (event : α → Nat → Agg.EventRow) (evts : List Agg.EventRow) (l : List α) : List Agg.EventRow :=
  l.foldl (fun evts a => evts ++ [event a evts.length]) evts

variable (key event max known evts l) in
-- What is new is remembered, and reported while there is room for it.
theorem foldl_discover : 
    l.foldl (fun (known, evts) a => discover known max (key a) evts (event a)) (known, evts) = 
      (known ++ (fresh key known l).map key, 
        report event evts <| (fresh key known l).take (max - 1 - known.length)) := by
  induction l generalizing known evts
  case nil         => simp [fresh, firsts, report]
  case cons a l hi =>
    rw [List.foldl_cons]
    by_cases hk : key a ∈ known
    case pos =>
      have hd : discover known max (key a) evts (event a) = (known, evts) := if_pos hk
      simp only [hd, hi, fresh_cons_of_mem hk]
    case neg =>
      have hd : discover known max (key a) evts (event a) = 
          (known ++ [key a], if (known ++ [key a]).length < max then evts ++ [event a evts.length] else evts) := 
        if_neg hk
      simp only [hd, hi, fresh_cons_of_not_mem hk, List.length_append, List.length_singleton, List.map_cons, 
        List.append_assoc, List.singleton_append]
      congr 1
      split
      case isTrue h  =>
        have hm : max - 1 - known.length = (max - 1 - (known.length + 1)) + 1 := by omega
        rw [hm, List.take_succ_cons]
        rfl
      case isFalse h =>
        have h₁ : max - 1 - known.length = 0 := by omega
        have h₂ : max - 1 - (known.length + 1) = 0 := by omega
        rw [h₁, h₂, List.take_zero, List.take_zero]

theorem countP_report {p : Agg.EventRow → Bool} {q : α → Bool} (h : ∀ a n, p (event a n) = q a) : 
    (report event evts l).countP p = evts.countP p + l.countP q := by
  induction l generalizing evts
  case nil         => rfl
  case cons a l hi =>
    rw [report, List.foldl_cons, ← report, hi, List.countP_append, List.countP_singleton, h, List.countP_cons]
    omega

variable {ι : Type} [DecidableEq ι] {ident : α → ι} {i : ι}

omit [DecidableEq ι] in
theorem nodup_map_ident (hk : ∀ a b, ident a = ident b → key a = key b) (h : (l.map key).Nodup) : 
    (l.map ident).Nodup := 
  List.Nodup.of_map key h |>.map_on fun _ ha _ hb he => List.inj_on_of_nodup_map h ha hb <| hk _ _ he

theorem countP_ident (h : (l.map ident).Nodup) : 
    l.countP (ident · = i) = if i ∈ l.map ident then 1 else 0 := by
  rw [← h.count, List.count, List.countP_map]
  exact List.countP_congr fun a _ => by simp

-- Each of the new elements is reported once, unless they are many. Nothing else is reported.
structure Reported (ident : α → ι) (shows : ι → Agg.EventRow → Bool) (history : List ι) (l : List α) 
    (evts : List Agg.EventRow) : Prop where
  once  : (fresh ident history l).length < 100 → 
    ∀ a ∈ fresh ident history l, evts.countP (shows <| ident a) = 1
  never : ∀ i, i ∉ (fresh ident history l).map ident → evts.countP (shows i) = 0

theorem reported_iff {shows : ι → Agg.EventRow → Bool} {history : List ι} {n : Nat}
    (hk : ∀ a b, ident a = ident b → key a = key b) (hh : ∀ a, ident a ∈ history → key a ∈ known) 
    (hc : ∀ i, evts.countP (shows i) = ((fresh key known l).take n).countP (ident · = i)) : 
    Reported ident shows history l evts ↔ 
      ((fresh ident history l).length < 100 → 
        (fresh ident history l).length ≤ n ∧ ((fresh ident history l).map key).Nodup ∧ 
        ∀ a ∈ fresh ident history l, key a ∉ known) := by
  have hn : (((fresh key known l).take n).map ident).Nodup := by
    apply nodup_map_ident hk
    rw [List.map_take]
    exact nodup_map_fresh.sublist <| List.take_sublist ..
  have hi : ∀ i, evts.countP (shows i) = if i ∈ ((fresh key known l).take n).map ident then 1 else 0 := 
    fun i => (hc i).trans <| countP_ident hn
  simp only [← covers_iff hk hh]
  constructor
  case mp =>
    intro h hl a ha
    have h₁ := h.once hl a ha
    rw [hi] at h₁
    by_contra hm
    rw [if_neg hm] at h₁
    contradiction
  case mpr =>
    intro h
    refine ⟨fun hl a ha => by rw [hi, if_pos (h hl a ha)], fun i hm => ?_⟩
    rw [hi, if_neg]
    intro hf
    obtain ⟨b, hb, rfl⟩ := List.mem_map.mp hf
    have ⟨hb, hu⟩ := mem_of_mem_fresh <| List.mem_of_mem_take hb
    exact hm <| mem_map_fresh_iff.mpr ⟨List.mem_map_of_mem hb, hu ∘ hh b⟩

theorem length_le_iff : l.length ≤ max - 1 - known.length ↔ l = [] ∨ known.length + l.length < max := by
  rw [← List.length_eq_zero_iff]
  omega

end Fold

section Run

variable [Unicode] [Runtime] [Zone]

-- A tick, with the target that it reads at its start and the configuration that it finds at its end.
structure Round where
  target : Int × Bytes
  cfg    : Config
  tick   : Tick

-- Beside the engine, what has been seen in the run.
structure State where
  engine : Engine
  paths  : List Bytes
  flows  : List FlowId

def start (now : Time) : State where
  engine := newEngine now
  paths  := []
  flows  := []

def collected (s : State) (r : Round) : Collected :=
  collectFrom (advance s.engine) r.target r.cfg r.tick

def files (s : State) (r : Round) : List (Bytes × Bytes) :=
  openFiles r.tick.fs (collected s r).snapshot.info.target.pid

def step (s : State) (r : Round) : State where
  engine := (collected s r).engine
  paths  := s.paths ++ (files s r).map Prod.snd
  flows  := s.flows ++ (collected s r).snapshot.flows.map .of

def newFiles (s : State) (r : Round) : List (Bytes × Bytes) :=
  fresh Prod.snd s.paths (files s r)

def newFlows (s : State) (r : Round) : List Agg.NetFlow :=
  fresh .of s.flows (collected s r).snapshot.flows

structure Complete (s : State) (r : Round) : Prop where
  files : Reported Prod.snd showsFile s.paths (files s r) (collected s r).newEvents
  flows : Reported .of showsFlow s.flows (collected s r).snapshot.flows (collected s r).newEvents

-- Together with what has been seen in the whole run, what is new remains below the limits. No two flows 
-- have the same ends with different protocols.
structure Unlimited (s : State) (r : Round) : Prop where
  files : (newFiles s r).length < 100 → 
    newFiles s r = [] ∨ s.paths.dedup.length + (newFiles s r).length < 200
  flows : (newFlows s r).length < 100 → 
    newFlows s r = [] ∨ (s.flows.map FlowId.key).dedup.length + (newFlows s r).length < 100
  keys  : (newFlows s r).length < 100 → 
    ((newFlows s r).map flowKey).Nodup ∧ ∀ fl ∈ newFlows s r, flowKey fl ∉ s.flows.map FlowId.key

structure Remembers (s : State) : Prop where
  files : s.engine.knownFDs.Perm s.paths.dedup
  flows : s.engine.knownFlows.Perm (s.flows.map FlowId.key).dedup

variable {e : Engine} {fs : ProcFS} {pid : Int} {comm : Bytes} {now : Time} {t : Tick} {s : State} {r : Round} 
         {rs : List Round}

variable (e fs pid now) in
omit [Unicode] [Runtime] [Zone] in
theorem readProcIo_known : 
    (readProcIo e fs pid now).fst.knownFDs = e.knownFDs ∧ 
    (readProcIo e fs pid now).fst.knownFlows = e.knownFlows := by
  simp only [readProcIo]
  split
  case isTrue  => exact ⟨rfl, rfl⟩
  case isFalse => split <;> exact ⟨rfl, rfl⟩

variable (e fs now) in
omit [Unicode] [Runtime] [Zone] in
theorem readNetDev_known : 
    (readNetDev e fs now).fst.knownFDs = e.knownFDs ∧ 
    (readNetDev e fs now).fst.knownFlows = e.knownFlows := by
  rw [readNetDev]
  split <;> exact ⟨rfl, rfl⟩

variable (e fs pid comm now) in
omit [Unicode] in
theorem readProcFiles_known : 
    (readProcFiles e fs pid comm now).fst.knownFDs = 
      e.knownFDs ++ (fresh Prod.snd e.knownFDs <| openFiles fs pid).map Prod.snd ∧ 
    (readProcFiles e fs pid comm now).fst.knownFlows = e.knownFlows ∧ 
    (readProcFiles e fs pid comm now).snd.snd = 
      report (fun f => fileEvent pid comm now f.fst f.snd) [] 
        ((fresh Prod.snd e.knownFDs <| openFiles fs pid).take (200 - 1 - e.knownFDs.length)) := by
  rw [readProcFiles, openFiles]
  cases (fs.find? pid).bind (·.fd)
  case none         => simp [fresh, firsts, report]
  case some entries =>
    let files := entries.filterMap fun ent => do
      let target ← ent.link
      if isRealFile target then some (ent.name, target) else none
    have hf := foldl_discover Prod.snd (fun f => fileEvent pid comm now f.fst f.snd) 200 e.knownFDs [] files
    exact ⟨congrArg Prod.fst hf, rfl, congrArg Prod.snd hf⟩

variable (e t pid comm) in
omit [Unicode] [Runtime] in
theorem readProcNet_known : 
    (readProcNet e t pid comm).fst.knownFDs = e.knownFDs ∧ 
    (readProcNet e t pid comm).fst.knownFlows = 
      e.knownFlows ++ (fresh flowKey e.knownFlows (readProcNet e t pid comm).snd.flows).map flowKey ∧ 
    (readProcNet e t pid comm).snd.events = 
      report (flowEvent pid comm t.now) [] 
        ((fresh flowKey e.knownFlows (readProcNet e t pid comm).snd.flows).take 
          (100 - 1 - e.knownFlows.length)) := by
  let flows := (readProcNet e t pid comm).snd.flows
  let known := flows.foldl (fun (known, evts) fl =>
    discover known 100 (flowKey fl) evts (flowEvent pid comm t.now fl)) (e.knownFlows, [])
  have hf := foldl_discover flowKey (flowEvent pid comm t.now) 100 e.knownFlows [] flows
  have ⟨h₁, h₂⟩ := readNetDev_known { e with knownFlows := known.fst } t.fs t.wall
  exact ⟨h₁, h₂.trans <| congrArg Prod.fst hf, congrArg Prod.snd hf⟩

variable (e t pid comm) in
-- What a tick does to what is known, and the events of the tick.
theorem measure_known (rows : List Agg.ProcessRow) : 
    let m := measure e t rows pid comm
    let files := openFiles t.fs m.snd.fst.info.target.pid
    let flows := m.snd.fst.flows
    m.fst.knownFDs = e.knownFDs ++ (fresh Prod.snd e.knownFDs files).map Prod.snd ∧ 
    m.fst.knownFlows = e.knownFlows ++ (fresh flowKey e.knownFlows flows).map flowKey ∧ 
    m.snd.snd = 
      report (fun f => fileEvent m.snd.fst.info.target.pid comm t.now f.fst f.snd) [] 
        ((fresh Prod.snd e.knownFDs files).take (200 - 1 - e.knownFDs.length)) ++ 
      report (flowEvent m.snd.fst.info.target.pid comm t.now) [] 
        ((fresh flowKey e.knownFlows flows).take (100 - 1 - e.knownFlows.length)) := by
  intro m files flows
  let pid' := locatePid (findTarget rows pid comm) pid
  let e₁ := (readProcIo e t.fs pid' t.now).fst
  have ⟨hd₁, hf₁⟩ := readProcIo_known e t.fs pid' t.now
  have ⟨hd₂, hf₂, hv₂⟩ := readProcFiles_known e₁ t.fs pid' comm t.now
  have ⟨hd₃, hf₃, hv₃⟩ := readProcNet_known (readProcFiles e₁ t.fs pid' comm t.now).fst pid' comm t
  rw [hd₁] at hd₂ hv₂
  rw [hf₂, hf₁] at hf₃ hv₃
  exact ⟨hd₃.trans hd₂, hf₃, congrArg₂ _ hv₂ hv₃⟩

theorem collected_known : 
    (collected s r).engine.knownFDs = 
      s.engine.knownFDs ++ (fresh Prod.snd s.engine.knownFDs <| files s r).map Prod.snd ∧ 
    (collected s r).engine.knownFlows = 
      s.engine.knownFlows ++ 
        (fresh flowKey s.engine.knownFlows (collected s r).snapshot.flows).map flowKey ∧ 
    ∃ pid comm now, (collected s r).newEvents = 
      report (fun f => fileEvent pid comm now f.fst f.snd) [] 
        ((fresh Prod.snd s.engine.knownFDs <| files s r).take (200 - 1 - s.engine.knownFDs.length)) ++ 
      report (flowEvent pid comm now) [] 
        ((fresh flowKey s.engine.knownFlows (collected s r).snapshot.flows).take 
          (100 - 1 - s.engine.knownFlows.length)) := by
  have hc : collected s r = _ := collectFrom_eq
  rw [files, hc]
  let c := targetComm r.target.snd
  let scan := scanAllProcesses (advance s.engine) r.tick r.target.fst c
  have ⟨h₁, h₂, h₃⟩ := measure_known { advance s.engine with procHistory := scan.procHistory } 
    (reportedPid r.tick.fs r.target.fst c) c r.tick scan.rows
  exact ⟨h₁, h₂, _, _, _, h₃⟩

omit [Unicode] [Runtime] [Zone] in
theorem dedup_append_perm {κ : Type} [DecidableEq κ] {known history new : List κ} {l : List κ} 
    (h : known.Perm history.dedup) (hl : ∀ k, k ∈ new ↔ k ∈ l ∧ k ∉ known) (hn : new.Nodup) : 
    (known ++ new).Perm (history ++ l).dedup := by
  refine (List.perm_ext_iff_of_nodup (List.Nodup.append ?_ hn ?_) (List.nodup_dedup _)).mpr fun k => ?_
  · exact h.nodup_iff.mpr <| List.nodup_dedup _
  · exact fun k hk hm => (hl k).mp hm |>.right hk
  · rw [List.mem_append, hl, List.mem_dedup, List.mem_append, h.mem_iff, List.mem_dedup]
    tauto

namespace Remembers

omit [Unicode] [Runtime] [Zone] in
theorem start : Remembers (start now) where
  files := .nil
  flows := .nil

theorem step (h : Remembers s) : Remembers (step s r) where
  files := by
    rw [Discovery.step, collected_known.left]
    exact dedup_append_perm h.files (fun _ => mem_map_fresh_iff) nodup_map_fresh
  flows := by
    have hk : FlowId.key ∘ FlowId.of = flowKey := funext FlowId.key_of
    rw [Discovery.step, collected_known.right.left, List.map_append, List.map_map, hk]
    exact dedup_append_perm h.flows (fun _ => mem_map_fresh_iff) nodup_map_fresh

end Remembers

section Events

variable {ds : List (Bytes × Bytes)} {fls : List Agg.NetFlow}

omit [Unicode] [Runtime] in
theorem countP_showsFile {path : Bytes} : 
    (report (fun f => fileEvent pid comm now f.fst f.snd) [] ds ++ 
      report (flowEvent pid comm now) [] fls).countP (showsFile path) = ds.countP (Prod.snd · = path) := by
  have hd : ∀ (f : Bytes × Bytes) n, 
      showsFile path (fileEvent pid comm now f.fst f.snd n) = decide (f.snd = path) := by
    intro f n
    simp [showsFile, fileEvent]
  have hf : ∀ fl n, showsFile path (flowEvent pid comm now fl n) = false := by
    intro fl n
    have hn : str "network" ≠ str "file" := by decide
    simp [showsFile, flowEvent, hn]
  simp [List.countP_append, countP_report hd, countP_report hf]

omit [Unicode] [Runtime] in
theorem countP_showsFlow {i : FlowId} : 
    (report (fun f => fileEvent pid comm now f.fst f.snd) [] ds ++ 
      report (flowEvent pid comm now) [] fls).countP (showsFlow i) = fls.countP (FlowId.of · = i) := by
  have hd : ∀ (f : Bytes × Bytes) n, showsFlow i (fileEvent pid comm now f.fst f.snd n) = false := by
    intro f n
    have hn : str "file" ≠ str "network" := by decide
    simp [showsFlow, fileEvent, hn]
  have hf : ∀ fl n, showsFlow i (flowEvent pid comm now fl n) = decide (.of fl = i) := by
    intro fl n
    have ⟨src, dst, sport, dport, proto⟩ := i
    let attrs := (flowEvent pid comm now fl n).attrs
    have h₁ : attrs.lookup (str "src") = some (.str fl.src) := rfl
    have h₂ : attrs.lookup (str "dst") = some (.str fl.dst) := rfl
    have h₃ : attrs.lookup (str "sport") = some (.int fl.sport) := rfl
    have h₄ : attrs.lookup (str "dport") = some (.int fl.dport) := rfl
    have h₅ : attrs.lookup (str "proto") = some (.str fl.proto) := rfl
    have hc : (flowEvent pid comm now fl n).category = str "network" := rfl
    rw [showsFlow, hc, h₁, h₂, h₃, h₄, h₅]
    simp [FlowId.of]
  simp [List.countP_append, countP_report hd, countP_report hf]

end Events

theorem reported_files_iff (h : Remembers s) : 
    Reported Prod.snd showsFile s.paths (files s r) (collected s r).newEvents ↔ 
      ((newFiles s r).length < 100 → 
        newFiles s r = [] ∨ s.paths.dedup.length + (newFiles s r).length < 200) := by
  have hm : ∀ k, k ∈ s.engine.knownFDs ↔ k ∈ s.paths := fun k => h.files.mem_iff.trans List.mem_dedup
  have ⟨_, _, pid, comm, now, he⟩ := collected_known (s := s) (r := r)
  have hc : ∀ path, (collected s r).newEvents.countP (showsFile path) = 
      ((fresh Prod.snd s.engine.knownFDs <| files s r).take (200 - 1 - s.engine.knownFDs.length)).countP 
        (Prod.snd · = path) := by
    intro path
    rw [he, countP_showsFile]
  have hk : ∀ a b : Bytes × Bytes, a.snd = b.snd → a.snd = b.snd := fun _ _ => id
  refine reported_iff hk (fun _ => (hm _).mpr) hc |>.trans ?_
  apply imp_congr_right
  intro _
  rw [← length_le_iff, ← h.files.length_eq, and_iff_left]
  · rfl
  · exact ⟨nodup_map_fresh, fun f hf => mt (hm _).mp (mem_of_mem_fresh hf).right⟩

theorem reported_flows_iff (h : Remembers s) : 
    Reported .of showsFlow s.flows (collected s r).snapshot.flows (collected s r).newEvents ↔ 
      ((newFlows s r).length < 100 → 
        (newFlows s r = [] ∨ (s.flows.map FlowId.key).dedup.length + (newFlows s r).length < 100) ∧ 
        ((newFlows s r).map flowKey).Nodup ∧ ∀ fl ∈ newFlows s r, flowKey fl ∉ s.flows.map FlowId.key) := by
  have hm : ∀ k, k ∈ s.engine.knownFlows ↔ k ∈ s.flows.map FlowId.key := 
    fun k => h.flows.mem_iff.trans List.mem_dedup
  have ⟨_, _, pid, comm, now, he⟩ := collected_known (s := s) (r := r)
  have hc : ∀ i, (collected s r).newEvents.countP (showsFlow i) = 
      ((fresh flowKey s.engine.knownFlows (collected s r).snapshot.flows).take 
        (100 - 1 - s.engine.knownFlows.length)).countP (FlowId.of · = i) := by
    intro i
    rw [he, countP_showsFlow]
  have hk : ∀ a b, FlowId.of a = .of b → flowKey a = flowKey b := by
    intro a b h
    rw [← FlowId.key_of, h, FlowId.key_of]
  have hh : ∀ a, .of a ∈ s.flows → flowKey a ∈ s.engine.knownFlows := by
    intro a ha
    rw [hm, ← FlowId.key_of]
    exact List.mem_map_of_mem ha
  rw [reported_iff hk hh hc]
  simp only [← length_le_iff, ← h.flows.length_eq, ← hm]
  rfl

theorem complete_iff_unlimited (h : Remembers s) : Complete s r ↔ Unlimited s r := by
  constructor
  case mp  =>
    intro ⟨hd, hf⟩
    have hf := reported_flows_iff h |>.mp hf
    exact ⟨reported_files_iff h |>.mp hd, fun hl => (hf hl).left, fun hl => (hf hl).right⟩
  case mpr =>
    intro ⟨hd, hf, hk⟩
    exact ⟨reported_files_iff h |>.mpr hd, reported_flows_iff h |>.mpr fun hl => ⟨hf hl, hk hl⟩⟩

-- The events of a run are complete if and only if the limits are not reached.
theorem always_complete_iff : 
    Execution.Always step Complete (start now) rs ↔ Execution.Always step Unlimited (start now) rs := by
  apply Execution.Always.congr (I := Remembers) .start
  case hk  => exact fun s r h _ => h.step
  case hpq => exact fun s r h => complete_iff_unlimited h

end Run

section Flood

attribute [local instance] Unicode.ascii Runtime.stable Zone.utcEpoch

-- The agent has these files open.
def opening (ns : List Nat) : Round where
  target := (161, str "agy")
  cfg    := Config.loadTarget 161 (str "agy")
  tick   := {
    now  := Time.epoch
    wall := Time.epoch
    fs   := { 
      processes := [{ Process.single 161 (.ofBytes <| str "agy") none (by decide) with 
        fd := some <| ns.map fun n => ⟨natDigits n, some <| str "/f" ++ natDigits n⟩ }]
      nodup     := List.nodup_singleton _
    }
  }

variable {s : State} {ns : List Nat}

theorem files_opening : files s (opening ns) = ns.map fun n => (natDigits n, str "/f" ++ natDigits n) := by
  change List.filterMap _ (ns.map _) = _
  rw [List.filterMap_map]
  exact List.filterMap_eq_map.symm ▸ rfl

theorem paths_step_opening : 
    (step s (opening ns)).paths = s.paths ++ ns.map fun n => str "/f" ++ natDigits n := by
  rw [step, files_opening, List.map_map]
  rfl

-- After a tick with 200 files, a single new one goes unreported.
theorem not_always_complete_opening : 
    ¬Execution.Always step Complete (start Time.epoch) [opening (List.range 200), opening [200]] := by
  intro ⟨_, h, _⟩
  let s := step (start Time.epoch) (opening (List.range 200))
  have hi : Function.Injective fun n => str "/f" ++ natDigits n := 
    fun _ _ he => natDigits_injective <| List.append_cancel_left he
  have hp : s.paths = (List.range 200).map fun n => str "/f" ++ natDigits n := paths_step_opening
  have hf : newFiles s (opening [200]) = [(natDigits 200, str "/f" ++ natDigits 200)] := by
    have hn : Prod.snd (natDigits 200, str "/f" ++ natDigits 200) ∉ s.paths := by
      rw [hp, List.mem_map_of_injective hi]
      simp
    rw [newFiles, files_opening, List.map_singleton, fresh_cons_of_not_mem hn]
    rfl
  have hl := complete_iff_unlimited Remembers.start.step |>.mp h |>.files
  rw [hf, hp, List.Nodup.dedup (List.nodup_range.map hi), List.length_map, List.length_range] at hl
  exact absurd (hl <| by simp) (by simp)

end Flood
end RealEngine.Discovery
