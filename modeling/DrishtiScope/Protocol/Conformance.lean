import DrishtiScope.EbpfAgent.Agent
import DrishtiScope.Mock.Generator
import DrishtiScope.Protocol.Wire
import DrishtiScope.RealEngine.Discovery

open Go Agg

-- What the page can rely on, over all that the daemon sends and all that its engines report.
namespace Protocol

section Run

open RawBuilder

variable {startTime : Nat → Bytes} {ops : List (Op RawSnapshot)} {snap : RawSnapshot} {α : Type}

-- The frames that are broadcast when an item of an engine comes in.
def sent (startTime : Nat → Bytes) (b : RawBuilder) : Op RawSnapshot → List Message
  | .update s   => (b.update s).latest.toList.map (Message.snapshot · startTime)
  | .addEvent e => [.event e]

def emitted (ops : List (Op RawSnapshot)) : List EventRow :=
  ops.filterMap Op.event?

-- Each series has had a point, and there has been an event.
structure Ready (ops : List (Op RawSnapshot)) : Prop where
  cpuSeries : ∃ s, .update s ∈ ops ∧ s.cpuSeries.elems ≠ []
  ioSeries  : ∃ s, .update s ∈ ops ∧ s.ioSeries.elems ≠ []
  netSeries : ∃ s, .update s ∈ ops ∧ s.netSeries.elems ≠ []
  timeline  : emitted ops ≠ []

theorem append_none_iff {xs : List α} : Slice.append none xs ≠ none ↔ xs ≠ [] := by
  cases xs <;> simp [Slice.append]

theorem lastN_eq_nil {xs : List α} {n : Nat} (hn : 0 < n) : lastN n xs = [] ↔ xs = [] := by
  rw [lastN, List.drop_eq_nil_iff, ← List.length_eq_zero_iff]
  omega

theorem newest_ne_nil {series : Snapshot → List α} : 
    newest series (ops.map <| Op.map RawSnapshot.toSnapshot) ≠ [] ↔ 
      ∃ s, .update s ∈ ops ∧ series s.toSnapshot ≠ [] := by
  constructor
  case mp =>
    intro h
    obtain ⟨p, hp⟩ := List.exists_mem_of_ne_nil _ h
    obtain ⟨op', hm, he⟩ := List.mem_filterMap.mp hp
    obtain ⟨op, hop, rfl⟩ := List.mem_map.mp hm
    cases op
    case update s   => exact ⟨s, hop, fun hn => by simp [Op.map, hn] at he⟩
    case addEvent e => simp [Op.map] at he
  case mpr =>
    rintro ⟨s, hs, hn⟩
    have hm : (series s.toSnapshot).getLast hn ∈ newest series (ops.map <| Op.map RawSnapshot.toSnapshot) :=
      List.mem_filterMap.mpr ⟨_, List.mem_map_of_mem hs, List.getLast?_eq_some_getLast hn⟩
    exact List.ne_nil_of_mem hm

theorem emitted_map : (ops.map <| Op.map RawSnapshot.toSnapshot).filterMap Op.event? = emitted ops := by
  rw [emitted, List.filterMap_map]
  congr 1
  funext op
  cases op <;> rfl

theorem emitted_update : emitted (ops ++ [.update snap]) = emitted ops := by
  simp [emitted]

theorem nonNil_ne_none {s : Slice α} : (if s = none then some [] else s) ≠ none := by
  cases s <;> simp

theorem series_ne_none {xs : Slice α} {ring : List α} {series : Snapshot → List α} (hx : xs = Slice.append none ring) 
    (hr : ring = lastN 60 (newest series <| ops.map <| Op.map RawSnapshot.toSnapshot)) : 
    xs ≠ none ↔ ∃ s, .update s ∈ ops ∧ series s.toSnapshot ≠ [] := by
  rw [hx, append_none_iff, ne_eq, hr, lastN_eq_nil (by decide)]
  exact newest_ne_nil

-- What the builder makes of a snapshot is complete as soon as there is something for each of its slices.
theorem complete_update_iff {s : RawSnapshot} 
    (h : ((Execution.exec step newSnapshotBuilder ops).update snap).latest = some s) : 
    Complete s ↔ Ready (ops ++ [.update snap]) ∧ ∀ e ∈ lastN 300 (emitted ops), Listed e := by
  have hh : ((Execution.exec step newSnapshotBuilder ops).update snap).toBuilder = 
      .ofHistory ((ops ++ [Op.update snap]).map <| Op.map RawSnapshot.toSnapshot) := by
    have he := @toBuilder_exec newSnapshotBuilder (ops ++ [.update snap])
    rw [Execution.exec_concat] at he
    exact he.trans SnapshotBuilder.exec_eq_ofHistory
  generalize Execution.exec step newSnapshotBuilder ops = b at h hh
  have hs := Option.some.inj h
  have hc := series_ne_none (hs ▸ rfl : s.cpuSeries = _) (congrArg SnapshotBuilder.cpuSeries hh)
  have hi := series_ne_none (hs ▸ rfl : s.ioSeries = _) (congrArg SnapshotBuilder.ioSeries hh)
  have hn := series_ne_none (hs ▸ rfl : s.netSeries = _) (congrArg SnapshotBuilder.netSeries hh)
  have ht : s.timeline = Slice.append none (lastN 300 (emitted ops)) := by
    have hb : s.timeline = Slice.append none (b.update snap).toBuilder.events := hs ▸ rfl
    rw [hb, hh, SnapshotBuilder.ofHistory, emitted_map, emitted_update]
  have htn : s.timeline ≠ none ↔ emitted ops ≠ [] := by 
    rw [ht, append_none_iff, ne_eq, lastN_eq_nil (by decide)]
  have hte : s.timeline.elems = lastN 300 (emitted ops) := by 
    rw [ht, Slice.elems_append]
    exact List.nil_append _
  constructor
  case mp  => 
    intro hk
    refine ⟨⟨hc.mp hk.cpuSeries, hi.mp hk.ioSeries, hn.mp hk.netSeries, ?_⟩, hte ▸ hk.listed⟩
    rw [emitted_update]
    exact htn.mp hk.timeline
  case mpr => 
    rintro ⟨hr, hl⟩
    exact {
      processes   := hs ▸ nonNil_ne_none
      syscallsTop := hs ▸ nonNil_ne_none
      filesTop    := hs ▸ nonNil_ne_none
      flows       := hs ▸ nonNil_ne_none
      cpuSeries   := hc.mpr hr.cpuSeries
      ioSeries    := hi.mpr hr.ioSeries
      netSeries   := hn.mpr hr.netSeries
      timeline    := htn.mpr (emitted_update ▸ hr.timeline)
      listed      := hte ▸ hl
    }

-- What the builder hands out is complete at all times.
theorem complete_latestSnapshot_iff : 
    Complete (Execution.exec step newSnapshotBuilder ops).latestSnapshot ↔ 
      ∀ e ∈ lastN 300 (emitted ops), Listed e := by
  have ht : (spec <| ops.map <| Op.map RawSnapshot.toSnapshot).timeline = lastN 300 (emitted ops) := by
    rw [spec, emitted_map]
  rw [latestSnapshot_eq_spec, ← ht]
  constructor
  case mp  => exact Complete.listed
  case mpr => 
    have hn {α : Type} {xs : List α} : some xs ≠ none := Option.some_ne_none xs
    exact fun hl => ⟨hn, hn, hn, hn, hn, hn, hn, hn, hl⟩

theorem prefix_concat_iff {op : Op RawSnapshot} : 
    (∀ pre s, pre ++ [.update s] <+: ops ++ [op] → Ready (pre ++ [.update s])) ↔ 
      (∀ pre s, pre ++ [.update s] <+: ops → Ready (pre ++ [.update s])) ∧ 
        ∀ s, op = .update s → Ready (ops ++ [.update s]) := by
  constructor
  case mp =>
    intro h
    refine ⟨fun pre s hp => h pre s <| hp.trans <| List.prefix_append .., fun s hs => h ops s ?_⟩
    rw [hs]
  case mpr =>
    intro ⟨h, hop⟩ pre s hp
    rcases List.prefix_concat_iff.mp hp with he | hp
    case inl => 
      have ⟨hpre, hs⟩ := List.append_inj' he rfl
      exact hpre ▸ hop s (List.head_eq_of_cons_eq hs).symm
    case inr => exact h pre s hp

-- The page can rely on all frames if and only if it knows all events and no snapshot comes too early.
theorem forall_sent_conforms_iff : 
    (∀ m ∈ Execution.outputs step (sent startTime) newSnapshotBuilder ops, m.Conforms) ↔ 
      (∀ e ∈ emitted ops, Listed e) ∧ ∀ pre s, pre ++ [.update s] <+: ops → Ready (pre ++ [.update s]) := by
  induction ops using List.reverseRecOn
  case nil => simp [Execution.outputs, emitted]
  case append_singleton ops op hi =>
    rw [Execution.outputs_concat, List.forall_mem_append, hi, prefix_concat_iff]
    cases op
    case addEvent e => 
      have he : emitted (ops ++ [.addEvent e]) = emitted ops ++ [e] := by simp [emitted]
      rw [he, List.forall_mem_append]
      simp [sent, Message.Conforms]
      tauto
    case update snap => 
      rw [emitted_update]
      obtain ⟨s, hs⟩ : ∃ s, ((Execution.exec step newSnapshotBuilder ops).update snap).latest = some s := ⟨_, rfl⟩
      have hc := complete_update_iff hs
      have hl : (∀ e ∈ emitted ops, Listed e) → ∀ e ∈ lastN 300 (emitted ops), Listed e := 
        fun h e he => h e <| List.mem_of_mem_drop he
      have hm : (∀ m ∈ sent startTime (Execution.exec step newSnapshotBuilder ops) (.update snap), m.Conforms) ↔ 
          Complete s := by
        simp [sent, hs, Message.Conforms]
      have hr : (∀ s, Op.update snap = .update s → Ready (ops ++ [.update s])) ↔ Ready (ops ++ [.update snap]) := by
        simp
      rw [hm, hr, hc]
      constructor
      case mp  => 
        rintro ⟨⟨hk, he⟩, hr, _⟩
        exact ⟨hk, he, hr⟩
      case mpr => 
        rintro ⟨hk, he, hr⟩
        exact ⟨⟨hk, he⟩, hr, hl hk⟩

theorem outputs_ne_nil_iff : Execution.outputs step (sent startTime) newSnapshotBuilder ops ≠ [] ↔ ops ≠ [] := by
  induction ops using List.reverseRecOn
  case nil => simp [Execution.outputs]
  case append_singleton ops op hi =>
    have hs {b : RawBuilder} : sent startTime b op ≠ [] := by
      cases op <;> simp [sent, RawBuilder.update]
    simp [Execution.outputs_concat, hs]

theorem forall_mem_and_iff {p : Prop} {q : α → Prop} {xs : List α} : 
    (∀ x ∈ xs, p ∧ q x) ↔ (xs ≠ [] → p) ∧ ∀ x ∈ xs, q x := by
  cases xs
  case nil       => simp
  case cons x xs => simp [forall_and]; tauto

-- The page understands all frames if and only if it knows the mode and all events, and no snapshot comes too early.
theorem forall_sent_understood_iff [Shortest] {mode : Bytes} : 
    (∀ m ∈ Execution.outputs step (sent startTime) newSnapshotBuilder ops, m.Understood mode) ↔ 
      (ops ≠ [] → mode ∈ Frontend.Interfaces.modes.map str) ∧ (∀ e ∈ emitted ops, Listed e) ∧ 
      ∀ pre s, pre ++ [.update s] <+: ops → Ready (pre ++ [.update s]) := by
  simp only [Message.understood_iff, forall_mem_and_iff, outputs_ne_nil_iff]
  rw [forall_sent_conforms_iff]

end Run

section Engines

open Frontend

theorem lists_report {α : Type} {event : α → Nat → EventRow} {evts : List EventRow} {l : List α} 
    (h : ∀ a n, Listed (event a n)) (he : ∀ e ∈ evts, Listed e) : 
    ∀ e ∈ RealEngine.Discovery.report event evts l, Listed e := by
  induction l generalizing evts
  case nil         => exact he
  case cons a l hi =>
    refine hi ?_
    simp only [List.mem_append, List.mem_singleton]
    rintro e (hm | rfl)
    case inl => exact he e hm
    case inr => exact h a _

variable {e : EventRow}

theorem Listed.of_mem {severity category : String} (hs : severity ∈ Interfaces.severities) 
    (hc : category ∈ Interfaces.categories) (he : e.severity = str severity ∧ e.category = str category) : Listed e := 
  ⟨he.left ▸ List.mem_map_of_mem hs, he.right ▸ List.mem_map_of_mem hc⟩

variable [Zone]

theorem listed_rowOf {now : Time} {ev : Bpf.Event} (h : EbpfAgent.rowOf now ev = some e) : Listed e := by
  have hl : ∀ severity ∈ Interfaces.severities, ∀ category ∈ Interfaces.categories, ∀ title detail attrs, 
      Listed (EbpfAgent.eventRow now ev severity category title detail attrs) := 
    fun _ hs _ hc _ _ _ => .of_mem hs hc ⟨rfl, rfl⟩
  simp only [EbpfAgent.rowOf] at h
  split_ifs at h <;> cases h <;> exact hl _ (by decide) _ (by decide) _ _ _

variable [Unicode]

theorem lists_collected [Runtime] {s : RealEngine.Discovery.State} {r : RealEngine.Discovery.Round} : 
    ∀ e ∈ (RealEngine.Discovery.collected s r).newEvents, Listed e := by
  have ⟨_, _, pid, comm, now, he⟩ := @RealEngine.Discovery.collected_known _ _ _ s r
  rw [he, List.forall_mem_append]
  constructor
  case left  => 
    exact lists_report (fun _ _ => .of_mem (by decide : "info" ∈ _) (by decide : "file" ∈ _) ⟨rfl, rfl⟩) nofun
  case right => 
    exact lists_report (fun _ _ => .of_mem (by decide : "info" ∈ _) (by decide : "network" ∈ _) ⟨rfl, rfl⟩) nofun

section Mock

open Mock

variable {o o' : Output} {g : MockGenerator} {target : ProcessRow} {elapsedS : ℚ} {nowStr : Bytes} {agy : Bool}

-- The page knows everything that has been sent.
def Lists (c : BufferedChannel EventRow) : Prop :=
  ∀ e ∈ c.sent, Listed e

omit [Zone] [Unicode] in
theorem Lists.trySend {c : BufferedChannel EventRow} (h : Lists c) (he : Listed e) : Lists (c.trySend e) := by
  intro e' hm
  have hm := c.sent_trySend_sublist.subset hm
  rw [List.mem_append, List.mem_singleton] at hm
  rcases hm with hm | rfl
  case inl => exact h _ hm
  case inr => exact he

omit [Zone] [Unicode] in
theorem Lists.send {severity category : String} (h : Lists o.events) (hs : severity ∈ Interfaces.severities) 
    (hc : category ∈ Interfaces.categories) (he : e.severity = str severity ∧ e.category = str category) : 
    Lists (o.send e).events :=
  h.trySend <| .of_mem hs hc he

omit [Zone] [Unicode] in
theorem Lists.ite {p : Prop} [Decidable p] (h : Lists o.events) (hs : Lists o.events → Lists o'.events) : 
    Lists (if p then o' else o).events := by
  split
  case isTrue  => exact hs h
  case isFalse => exact h

omit [Zone] [Unicode] in
theorem lists_outboundConnect (h : Lists o.events) : Lists (outboundConnect target agy nowStr o).events :=
  h.send (by decide : "info" ∈ _) (by decide : "network" ∈ _) ⟨rfl, rfl⟩

omit [Zone] [Unicode] in
theorem lists_fileOpen (h : Lists o.events) : Lists (fileOpen target agy nowStr o).events :=
  h.send (by decide : "info" ∈ _) (by decide : "file" ∈ _) ⟨rfl, rfl⟩

omit [Zone] [Unicode] in
theorem lists_batchFlush (h : Lists o.events) : Lists (batchFlush target nowStr o).events :=
  h.send (by decide : "info" ∈ _) (by decide : "syscall" ∈ _) ⟨rfl, rfl⟩

omit [Zone] [Unicode] in
theorem lists_permissionDenied (h : Lists o.events) : Lists (permissionDenied target agy nowStr o).events :=
  h.send (by decide : "warn" ∈ _) (by decide : "file" ∈ _) ⟨rfl, rfl⟩

omit [Zone] [Unicode] in
theorem lists_childExec (h : Lists o.events) : Lists (childExec target agy nowStr o).events :=
  h.send (by decide : "info" ∈ _) (by decide : "process" ∈ _) ⟨rfl, rfl⟩

omit [Zone] [Unicode] in
theorem lists_computeBurst (h : Lists o.events) : Lists (computeBurst target nowStr o elapsedS).events :=
  h.send (by decide : "info" ∈ _) (by decide : "compute" ∈ _) ⟨rfl, rfl⟩

theorem lists_emitEventsForTarget (h : Lists o.events) (ho : g.emitEventsForTarget target elapsedS o = .ok o') : 
    Lists o'.events := by
  have hb {α β : Type} {x : Except Panic α} {f : α → Except Panic β} {b : β} (hx : (x >>= f) = .ok b) : 
      ∃ a, f a = .ok b := by
    cases x
    case error => contradiction
    case ok a  => exact ⟨a, hx⟩
  rw [MockGenerator.emitEventsForTarget] at ho
  obtain ⟨connect, ho⟩ := hb ho
  obtain ⟨opened, ho⟩ := hb ho
  obtain ⟨batch, ho⟩ := hb ho
  obtain ⟨alert, ho⟩ := hb ho
  obtain ⟨exec, ho⟩ := hb ho
  obtain ⟨spike, ho⟩ := hb ho
  apply Except.ok.inj ho ▸ Lists.ite ?_ lists_computeBurst
  apply Lists.ite ?_ lists_childExec
  apply Lists.ite ?_ lists_permissionDenied
  apply Lists.ite ?_ lists_batchFlush
  apply Lists.ite ?_ lists_fileOpen
  exact Lists.ite h lists_outboundConnect

theorem lists_step {s s' : Mock.State} {i : Input} (h : Lists s.events) (hs : s.step i = .ok s') : 
    Lists s'.events := by
  cases i
  case tick target elapsedS rng clock =>
    simp only [State.step, bind, Except.bind] at hs
    split at hs <;> try contradiction
    case _ ho => exact Except.ok.inj hs ▸ lists_emitEventsForTarget h ho
  case receive =>
    rw [← Except.ok.inj hs]
    cases hr : s.events.tryReceive
    case none      => simpa [hr] using h
    case some next => 
      have hc := (BufferedChannel.tryReceive_eq_some hr).right.left
      simpa [hr, Lists, hc] using h

theorem lists_run {s s' : Mock.State} {is : List Input} (h : Lists s.events) (hs : s.run is = .ok s') : 
    Lists s'.events := by
  induction is generalizing s
  case nil          => exact Except.ok.inj hs ▸ h
  case cons i is hi =>
    simp only [State.run, List.foldlM_cons, bind, Except.bind] at hs
    split at hs <;> try contradiction
    case _ ho => exact hi (lists_step h ho) hs

end Mock

-- The events of the three engines.
inductive Reported [Runtime] (e : EventRow) : Prop
  | ebpf (cfg : Config) (now : Time) (ev : Bpf.Event) (h : EbpfAgent.handleEvent cfg now ev = some e)
  | real (s : RealEngine.Discovery.State) (r : RealEngine.Discovery.Round) 
    (h : e ∈ (RealEngine.Discovery.collected s r).newEvents)
  | mock (g : Mock.MockGenerator) (capacity : Nat) (is : List Mock.Input) (s : Mock.State) 
    (hs : Mock.State.run ⟨g, .make capacity⟩ is = .ok s) (h : e ∈ s.events.received)

theorem Reported.listed [Runtime] (h : Reported e) : Listed e := by
  cases h
  case ebpf cfg now ev h => 
    rw [EbpfAgent.handleEvent] at h
    split at h
    case isTrue  => exact listed_rowOf h
    case isFalse => contradiction
  case real s r h => exact lists_collected e h
  case mock g capacity is s hs h => 
    refine lists_run (by simp [Lists, BufferedChannel.make]) hs e ?_
    rw [s.events.fifo]
    exact List.mem_append_left _ h

-- A snapshot comes in after `pre` and is broadcast before there is something for each of its slices.
def Early (pre : List (Op RawSnapshot)) (op : Op RawSnapshot) : Prop :=
  ∃ s, op = .update s ∧ ¬Ready (pre ++ [op])

variable [Runtime] [Shortest] {ops : List (Op RawSnapshot)} {startTime : Nat → Bytes} {mode : Bytes}

-- What the page can rely on in a run.
structure Intelligible (startTime : Nat → Bytes) (mode : Bytes) (ops : List (Op RawSnapshot)) : Prop where
  listed : ∀ e ∈ emitted ops, Listed e
  frames : ∀ pre op, pre ++ [op] <+: ops → 
    ∀ m ∈ sent startTime (Execution.exec RawBuilder.step .newSnapshotBuilder pre) op, m.Understood mode ↔ ¬Early pre op
  latest : (Message.snapshot (Execution.exec RawBuilder.step .newSnapshotBuilder ops).latestSnapshot startTime
    ).Understood mode

-- With the events of the engines, only an early snapshot is misunderstood, and never one that is asked for.
theorem understood_of_reported (hm : mode ∈ Interfaces.modes.map str) (he : ∀ e ∈ emitted ops, Reported e) : 
    Intelligible startTime mode ops := by
  have hl : ∀ e ∈ emitted ops, Listed e := fun e hm => (he e hm).listed
  refine { listed := hl, frames := fun pre op hp m hs => ?_, latest := ?_ }
  case refine_1 =>
    have hle {e : EventRow} (h : e ∈ emitted (pre ++ [op])) : Listed e := 
      hl e <| (hp.filterMap Op.event?).subset h
    rw [Message.understood_iff]
    cases op
    case addEvent e =>
      rw [List.mem_singleton.mp hs]
      refine iff_of_true ⟨hm, hle (by simp [emitted])⟩ ?_
      rintro ⟨s, hop, _⟩
      cases hop
    case update snap => 
      obtain ⟨s, hls⟩ : ∃ s, ((Execution.exec RawBuilder.step .newSnapshotBuilder pre).update snap).latest = some s := 
        ⟨_, rfl⟩
      have hms : m = .snapshot s startTime := by simpa [sent, hls] using hs
      have hn : Early pre (.update snap) ↔ ¬Ready (pre ++ [.update snap]) := by simp [Early]
      rw [hn, not_not, hms, Message.Conforms, complete_update_iff hls]
      have hlp : ∀ e ∈ lastN 300 (emitted pre), Listed e := 
        fun e h => hle <| emitted_update.symm ▸ List.mem_of_mem_drop h
      exact ⟨fun h => h.right.left, fun h => ⟨hm, h, hlp⟩⟩
  case refine_2 =>
    have hc := complete_latestSnapshot_iff.mpr fun e h => hl e <| List.mem_of_mem_drop h
    exact Message.understood_iff.mpr ⟨hm, hc⟩

end Engines

section Early

attribute [local instance] Unicode.ascii Zone.utcEpoch Runtime.stable Shortest.ofSearch

def exited : Bpf.Event where
  tsNs   := 0
  type   := Bpf.evtExit
  pid    := 7
  tgid   := 7
  uid    := 0
  ret    := 0
  flags  := 0
  extra  := 0
  saddr  := 0
  daddr  := 0
  sport  := 0
  dport  := 0
  family := 0
  pad    := 0
  comm   := .ofBytes 16 (str "agy")
  path   := .ofBytes 128 []

def exitRow : EventRow :=
  EbpfAgent.eventRow .epoch exited "info" "process" "exit" (str "pid 7 exited") [
    (str "pid", .int 7), (str "tgid", .int 7)
  ]

theorem reported_exitRow : Reported exitRow :=
  .ebpf (Config.loadTarget 0 (str "agy")) .epoch exited (by decide)

def earlyOps : List (Op RawSnapshot) :=
  [.update .emptySnapshot, .addEvent exitRow]

-- The first snapshot comes before the first event, and is broadcast without a timeline. It is the only frame that is
-- misunderstood.
theorem understood_of_reported_early : 
    str "ebpf" ∈ Frontend.Interfaces.modes.map str ∧ (∀ e ∈ emitted earlyOps, Reported e) ∧ 
    Intelligible (fun _ => []) (str "ebpf") earlyOps ∧ Early [] (.update .emptySnapshot) ∧ 
    ¬Early [.update .emptySnapshot] (.addEvent exitRow) := by
  have hm : str "ebpf" ∈ Frontend.Interfaces.modes.map str := by decide
  have he : ∀ e ∈ emitted earlyOps, Reported e := by
    simpa [earlyOps, emitted] using reported_exitRow
  refine ⟨hm, he, understood_of_reported hm he, ⟨_, rfl, fun h => h.timeline rfl⟩, ?_⟩
  rintro ⟨s, hop, _⟩
  cases hop

end Early
end Protocol
