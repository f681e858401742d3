import DrishtiScope.Agentscope.Greeting

open Go Agg Protocol
open Hub.Run (Served Keeps Takes)

-- Whether the greeting and the frames after it leave out an event.
namespace Agentscope.Greeting.Continuity

def event? : Frame → Option EventRow
  | .event e => some e.payload
  | _        => none

def rows (fs : List Stamped) : List EventRow :=
  fs.filterMap (event? ·.frame)

def recent (rows : List EventRow) : List EventRow :=
  rows.drop (rows.length - 300)

-- What has been written to the client, or is on its way to it.
def path (id : Nat) (s : State) : List Stamped :=
  s.conn.written ++ s.conn.pump.held ++ (s.hub.client id).send.buffer ++ s.hub.loop.pending id ++ 
  s.hub.broadcast.buffer ++ s.hold.toList

-- The timeline of the greeting holds the last events before it, and the later ones are sent as frames.
structure Covered (id : Nat) (s : State) (greeting : Nat × Envelope Snapshot) : Prop where
  timeline : greeting.snd.payload.timeline = recent (rows <| s.made.take greeting.fst)
  stream   : ∀ f ∈ s.made.drop greeting.fst, (event? f.frame).isSome → f ∈ path id s

def NoGap (id : Nat) (s : State) (a : Action) : Prop :=
  ∀ g ∈ (step id s a).conn.greeting, Covered id (step id s a) g

-- No queue is full, and the client stays connected.
def Unhindered (id : Nat) (s : State) : Action → Prop
  | .broadcast                           => s.hold ≠ none → s.hub.broadcast.HasRoom
  | .hub e                               => Keeps id s.hub e
  | .register                            => s.hub.clients.length < s.hub.max
  | .accept ok | .greet ok | .write ok   => ok
  | .timeout | .endRead | .unregister    => False
  | _                                    => True

-- Until the client is registered, the hub takes no event from its queue that is later than the greeting.
def Awaits (id : Nat) (s : State) : Action → Prop
  | .hub .receive => s.hub.loop = .select → s.hub.registered id = none → 
    ∀ g ∈ s.conn.greeting, ∀ f ∈ s.hub.broadcast.buffer.head?, 
      (event? f.frame).isSome → f.stamp ≤ g.fst
  | _             => True

-- The frames that the hub had taken before the registration of the client.
def missed (id : Nat) (s : State) : List Stamped :=
  s.hub.processed.take ((s.hub.registered id).getD s.hub.processed.length)

-- The greeting lies between the frames before and after it.
structure Greets (made : List Stamped) (g : Nat × Envelope Snapshot) : Prop where
  timeline : g.snd.payload.timeline = recent (rows <| made.take g.fst)
  earlier  : ∀ f ∈ made.take g.fst, f.stamp ≤ g.fst
  later    : ∀ f ∈ made.drop g.fst, g.fst < f.stamp

-- The connection is open, and what is taken from the channel of the client is written.
structure Flows (id : Nat) (s : State) : Prop where
  isOpen : s.hub.registered id ≠ none ∨ s.conn.serve = .registering → s.conn.isOpen
  kept   : (s.hub.client id).send.received ⊆ s.conn.written ++ s.conn.pump.held

structure Connected (id : Nat) (s : State) : Prop extends Greeting.Inv id s, Flows id s where
  served   : Served id s.hub
  complete : s.stream = s.made
  ring     : s.builder.events = recent (rows s.made)
  latest   : ∃ snap, s.builder.latest = some snap ∧ snap.timeline = s.builder.events
  greets   : ∀ g ∈ s.conn.greeting, Greets s.made g
  missed   : ∀ g ∈ s.conn.greeting, ∀ f ∈ missed id s, (event? f.frame).isSome → f.stamp ≤ g.fst

variable {id : Nat} {s : State} {a : Action} {mode : Bytes} {maxClients : Int} 
         {g : Nat × Envelope Snapshot} {f : Stamped}

theorem Connected.of_start : Connected id (start mode maxClients) where
  toInv       := start_inv
  served      := ⟨by simp [start, Hub.Run.start], fun h => absurd rfl h⟩
  complete    := rfl
  ring        := by simp [start, SnapshotBuilder.newSnapshotBuilder, recent, rows]
  latest      := ⟨_, rfl, rfl⟩
  greets      := by simp [start]
  isOpen h    := by simp [start, Hub.Run.start] at h
  kept        := by simp [start, Hub.Run.start, BufferedChannel.make]
  missed      := by simp [start]

-- Every event that is later than the greeting is on the path to the client.
theorem Connected.covered (h : Connected id s) (hg : g ∈ s.conn.greeting) : Covered id s g where
  timeline := (h.greets g hg).timeline
  stream   := by
    intro f hf he
    have hl := (h.greets g hg).later f hf
    have hm : f ∈ s.stream := h.complete ▸ List.mem_of_mem_drop hf
    rw [State.stream, s.hub.broadcast.fifo] at hm
    have hp := h.hub.phase id
    have hn : f ∉ Continuity.missed id s := fun hn => by
      have hle := h.missed g hg f hn he
      omega
    cases hr : s.hub.registered id
    case none =>
      have hn : f ∉ s.hub.broadcast.received := by 
        simpa [Continuity.missed, hr] using hn
      simp only [path, List.mem_append] at hm ⊢
      tauto
    case some k =>
      have hn : f ∉ s.hub.processed.take k := by simpa [Continuity.missed, hr] using hn
      rw [hr] at hp
      have hs := hp.sent_append <| h.served.mem (by simp [hr])
      rw [(s.hub.client id).send.fifo] at hs
      have hd : f ∈ s.hub.broadcast.received → f ∈ s.hub.processed.drop k := by
        intro hf
        rw [← List.take_append_drop k s.hub.broadcast.received] at hf
        exact (List.mem_append.mp hf).resolve_left hn
      rw [← hs] at hd
      have hk : f ∈ (s.hub.client id).send.received → f ∈ s.conn.written ∨ f ∈ s.conn.pump.held := 
        fun hf => List.mem_append.mp <| h.kept hf
      simp only [path, List.mem_append] at hm hd ⊢
      tauto

theorem rows_append {fs fs' : List Stamped} : rows (fs ++ fs') = rows fs ++ rows fs' :=
  List.filterMap_append

section Published

variable {b : SnapshotBuilder} {now : Time} {item : Item} {n : Nat} {fs : List Stamped}

-- The builder keeps the last rows of the frames that are made.
theorem publish_ring (h : b.events = recent (rows fs)) : 
    (publish b mode now item).fst.events = recent (rows <| fs ++ [⟨n, (publish b mode now item).snd⟩]) := by
  rw [rows_append]
  cases item
  case snapshot => simpa [publish, SnapshotBuilder.update, rows, event?] using h
  case event e  => 
    have hr : rows [⟨n, (publish b mode now (.event e)).snd⟩] = [e] := rfl
    rw [hr]
    simp only [publish, SnapshotBuilder.addEvent, h, recent, appendCapped_eq]

theorem publish_latest (h : ∃ snap, b.latest = some snap ∧ snap.timeline = b.events) : 
    ∃ snap, (publish b mode now item).fst.latest = some snap ∧ 
      snap.timeline = (publish b mode now item).fst.events := by
  have ⟨snap, hl, _⟩ := h
  cases item
  case snapshot => exact ⟨_, rfl, rfl⟩
  case event e  => simp [publish, SnapshotBuilder.addEvent, hl]

end Published

theorem Connected.accepted (hu : Unhindered id s a) : Accepted s a := by
  intro ha
  subst ha
  exact hu

theorem Connected.step_complete (h : Connected id s) (hu : Unhindered id s a) : 
    (step id s a).stream = (step id s a).made := by
  cases h.toInv.produces (a := a)
  case passes hm _ hc => rw [hc (accepted hu), hm, h.complete]
  case makes hm hs    => rw [hs, hm, h.complete]

theorem Connected.step_builder (h : Connected id s) : 
    (step id s a).builder.events = recent (rows (step id s a).made) ∧
    ∃ snap, (step id s a).builder.latest = some snap ∧ snap.timeline = (step id s a).builder.events := by
  cases h.toInv.produces (a := a)
  case passes hb hm _ _      => rw [hb, hm]; exact ⟨h.ring, h.latest⟩
  case makes item now f _ hb hm _ => 
    have hf : f.frame = (publish s.builder s.mode now item).snd := congrArg Prod.snd hb
    have hb : (step id s a).builder = (publish s.builder s.mode now item).fst := congrArg Prod.fst hb
    have he : f = ⟨f.stamp, (publish s.builder s.mode now item).snd⟩ := by rw [← hf]
    rw [hm, hb, he]
    exact ⟨publish_ring h.ring, publish_latest h.latest⟩

namespace Greets

variable {made : List Stamped}

theorem append (h : Greets made g) (hl : g.fst ≤ made.length) (hf : f.stamp = made.length + 1) : 
    Greets (made ++ [f]) g := by
  have ht : (made ++ [f]).take g.fst = made.take g.fst := List.take_append_of_le_length hl
  constructor
  case timeline => rw [ht]; exact h.timeline
  case earlier  => rw [ht]; exact h.earlier
  case later    =>
    rw [List.drop_append_of_le_length hl]
    intro f' hf'
    cases List.mem_append.mp hf'
    case inl hm => exact h.later f' hm
    case inr hm => rw [List.mem_singleton.mp hm, hf]; omega

-- The greeting that is taken now.
theorem of_captured {snap : Envelope Snapshot} (hs : snap.payload.timeline = recent (rows made)) 
    (hb : ∀ f ∈ made, f.stamp ≤ made.length) : Greets made (made.length, snap) where
  timeline := by rw [List.take_length]; exact hs
  earlier  := by rw [List.take_length]; exact hb
  later    := by simp

end Greets

theorem Connected.step_greets (h : Connected id s) : 
    ∀ g ∈ (step id s a).conn.greeting, Greets (step id s a).made g := by
  intro g hg
  cases @step_greeting id s a
  case inl he => 
    rw [he] at hg
    cases h.toInv.produces (a := a)
    case passes hm _ _   => rw [hm]; exact h.greets g hg
    case makes hf _ hm _ => rw [hm]; exact (h.greets g hg).append (h.captured g hg) hf
  case inr hc =>
    have ⟨now, he⟩ := hc.greeting
    have ⟨snap, hl, ht⟩ := h.latest
    rw [he] at hg
    cases hg
    rw [hc.made]
    refine .of_captured ?_ (h.complete ▸ h.bounds)
    simp only [marshal, SnapshotBuilder.latestSnapshot, hl, Option.getD_some, ht, h.ring]

theorem Connected.step_served (h : Connected id s) (hu : Unhindered id s a) : 
    Served id (step id s a).hub := by
  cases @step_drives id s a
  case idle hh       => exact hh ▸ h.served
  case broadcast hh  => exact hh ▸ h.served.step trivial fun _ => by contradiction
  case read hh       => exact hh ▸ h.served.step trivial fun _ => by contradiction
  case register ha _ _ _ hh =>
    subst ha
    exact hh ▸ h.served.step trivial fun _ => hu
  case unregister ha _ =>
    subst ha
    contradiction
  case foreign ha he hh =>
    subst ha
    refine hh ▸ h.served.step hu fun hr => ?_
    rw [hr] at he
    simp [Hub.Run.Event.Foreign] at he

theorem Connected.opened (h : Connected id s) (hp : s.conn.pump ≠ .fresh) : 
    s.conn.isOpen ∧ (s.hub.client id).closed = false := by
  have ⟨⟨k, hr⟩, _⟩ := h.pumping hp
  have hn : s.hub.registered id ≠ none := by simp [hr]
  exact ⟨h.isOpen <| .inl hn, (h.hub.phase id).opened <| h.served.mem hn⟩

theorem Flows.of_eq {s' : State} (h : Flows id s) 
    (hr : s'.hub.registered id ≠ none ∨ s'.conn.serve = .registering → 
      s.hub.registered id ≠ none ∨ s.conn.serve = .registering) 
    (ho : s'.conn.isOpen = s.conn.isOpen) 
    (hf : (s'.hub.client id).send.received = (s.hub.client id).send.received) 
    (hw : s'.conn.written = s.conn.written) (hp : s'.conn.pump.held = s.conn.pump.held) : 
    Flows id s' where
  isOpen hn := ho ▸ h.isOpen (hr hn)
  kept      := by rw [hf, hw, hp]; exact h.kept

theorem Connected.serveWS_flows (h : Connected id s) (hu : Unhindered id s a) : 
    Flows id (serveWS id s a) := by
  have hf := h.toFlows
  unfold serveWS
  split
  case h_1 hs => 
    have ⟨hr, _⟩ := h.unregistered (by simp [hs])
    refine hf.of_eq (fun hn => ?_) rfl rfl rfl rfl
    by_cases hm : s.hub.max ≤ s.hub.count <;> simp [hr, hm] at hn
  case h_2 hs | h_3 hs => 
    have ⟨hr, _⟩ := h.unregistered (by simp [hs])
    exact hf.of_eq (fun hn => by simp [hr] at hn) rfl rfl rfl rfl
  case h_4 => exact ⟨fun _ => hu, hf.kept⟩
  case h_5 hs =>
    split
    case h_1 hl => 
      have ⟨hr, _⟩ := h.unregistered (by simp [hs])
      have he := (Hub.Run.step_register h.hub hl hr).right.right
      exact hf.of_eq (fun _ => .inr hs) rfl (by rw [he]) rfl rfl
    case h_2    => exact hf
  case h_7 hs =>
    have ⟨k, hr, hu⟩ := h.registered (by simp [hs])
    exact hf.of_eq (fun _ => .inl (by simp [hr])) rfl rfl rfl (by rw [hu.fresh hs]; rfl)
  case h_8 ok hs =>
    have ⟨k, hr, _⟩ := h.registered (by simp [hs])
    have ho := hf.isOpen (.inl (by simp [hr]))
    have hu : ok = true := hu
    split
    case h_1 => exact hf.of_eq (fun _ => .inl (by simp [hr])) rfl rfl rfl rfl
    case h_2 => 
      refine ⟨fun _ => by simp [Conn.write, ho, hu], ?_⟩
      simp only [Conn.write, ho, hu, Bool.and_self, if_true]
      intro f hm
      have hm := List.mem_append.mp <| hf.kept hm
      simp only [List.mem_append]
      tauto
  case h_6 | h_9 | h_10 | h_11 => contradiction
  case h_12 => exact hf

theorem Connected.writePump_flows (h : Connected id s) (hu : Unhindered id s a) : 
    Flows id (writePump id s a) := by
  have hf := h.toFlows
  simp only [writePump]
  split
  case h_1 hp =>
    split
    case h_1 f c ht => 
      have hr := (BufferedChannel.tryReceive_eq_some ht).right.right
      rw [Hub.Run.step_read h.hub ht]
      refine ⟨hf.isOpen, ?_⟩
      simp only [Function.update_self, hr]
      intro f' hm
      have hk := hf.kept
      rw [hp] at hk
      cases List.mem_append.mp hm
      case inl hm => exact List.mem_append_left _ <| (List.mem_append.mp <| hk hm).resolve_right List.not_mem_nil
      case inr hm => exact List.mem_append_right _ hm
    case h_2 => exact hf
  case h_2 f ok hp =>
    have ho := (h.opened (by simp [hp])).left
    have hu : ok = true := hu
    refine ⟨fun _ => by simp [Conn.write, ho, hu], ?_⟩
    simp only [Conn.write, ho, hu, Bool.and_self, if_true]
    intro f' hm
    have hm := hf.kept hm
    rw [hp] at hm
    exact List.mem_append_left _ hm
  case h_3 hp =>
    have hc := (h.opened (by simp [hp])).right
    simp only [hc, Bool.false_eq_true, false_and, if_false]
    exact hf
  case h_4 => exact hf

theorem Connected.step_flows (h : Connected id s) (hu : Unhindered id s a) : 
    Flows id (step id s a) := by
  have hf := h.toFlows
  simp only [step]
  split
  case h_1 => split <;> exact hf.of_eq (fun h => h) rfl rfl rfl rfl
  case h_2 =>
    split
    case h_1 => 
      rw [Hub.Run.step_broadcast h.hub]
      exact hf.of_eq (fun h => h) rfl rfl rfl rfl
    case h_2 => exact hf
  case h_3 =>
    split
    case isTrue he => 
      have hl := Hub.Run.Leaves.step (s := s.hub) he
      exact hf.of_eq (fun hn => hl.registered ▸ hn) rfl hl.received rfl rfl
    case isFalse   => exact hf
  case h_4 | h_5 | h_6 => exact h.writePump_flows hu
  case h_7             => exact h.serveWS_flows hu

theorem step_processed : 
    (step id s a).hub.processed = s.hub.processed ∨ 
    ∃ f, a = .hub .receive ∧ Takes s.hub .receive (step id s a).hub f := by
  cases @step_drives id s a
  case idle hh       => exact .inl <| by rw [hh]
  case broadcast hh  => exact .inl <| hh ▸ Hub.Run.processed_of_ne (by simp)
  case read hh       => exact .inl <| hh ▸ Hub.Run.processed_of_ne (by simp)
  case register hh   => exact .inl <| hh ▸ Hub.Run.processed_of_ne (by simp)
  case unregister hh => exact .inl <| hh ▸ Hub.Run.processed_of_ne (by simp)
  case foreign e ha _ hh =>
    rw [hh]
    cases Hub.Run.processed_step (s := s.hub) (e := e)
    case inl he => exact .inl he
    case inr ht =>
      have ⟨f, ht⟩ := ht
      have he := ht.event
      subst he
      exact .inr ⟨f, ha, ht⟩

-- The frames that the client has missed are taken while it waits for its registration.
theorem Connected.step_missed (h : Connected id s) (hw : Awaits id s a) : 
    ∀ g ∈ (step id s a).conn.greeting, ∀ f ∈ Continuity.missed id (step id s a), 
      (event? f.frame).isSome → f.stamp ≤ g.fst := by
  intro g hg f hf he
  cases h.toInv.step_registered (a := a)
  case inr hr =>
    rw [hr.greeting] at hg
    have hp : (step id s a).hub.processed = s.hub.processed := congrArg BufferedChannel.received hr.broadcast
    rw [Continuity.missed, hr.registered, hp] at hf
    exact h.missed g hg f (by rw [Continuity.missed, hr.before]; exact hf) he
  case inl hr =>
    rw [Continuity.missed, hr] at hf
    cases @step_processed id s a
    case inl hp =>
      rw [hp] at hf
      cases @step_greeting id s a
      case inl hs => exact h.missed g (hs ▸ hg) f hf he
      case inr hs =>
        have ⟨now, hc⟩ := hs.greeting
        rw [hc] at hg
        cases hg
        have hm := s.hub.broadcast.received_prefix_sent.subset <| List.mem_of_mem_take hf
        exact h.bounds f <| List.mem_append_left _ hm
    case inr hp =>
      have ⟨f', ha, ht⟩ := hp
      subst ha
      rw [ht.processed] at hf
      cases hn : s.hub.registered id
      case none =>
        rw [hn, Option.getD_none, List.take_length] at hf
        cases List.mem_append.mp hf
        case inl hm => exact h.missed g hg f (by simpa [Continuity.missed, hn] using hm) he
        case inr hm =>
          cases List.mem_singleton.mp hm
          exact hw ht.loop hn g hg f (by simp [ht.head]) he
      case some k =>
        have hk := (hn ▸ h.hub.phase id).le_length
        rw [hn, Option.getD_some, List.take_append_of_le_length hk] at hf
        exact h.missed g hg f (by simpa [Continuity.missed, hn] using hf) he

theorem Connected.step (h : Connected id s) (hu : Unhindered id s a) (hw : Awaits id s a) : 
    Connected id (step id s a) where
  toInv    := h.toInv.step
  toFlows  := h.step_flows hu
  served   := h.step_served hu
  complete := h.step_complete hu
  ring     := h.step_builder.left
  latest   := h.step_builder.right
  greets   := h.step_greets
  missed   := h.step_missed hw

-- A frame that is taken from the queue too early is on no path to the client anymore.
theorem Connected.not_mem_path {l : List Stamped} (h : Connected id s) (hl : s.hub.loop = .select) 
    (hn : s.hub.registered id = none) (hb : s.hub.broadcast.buffer = f :: l) : 
    f ∉ path id (Greeting.step id s (.hub .receive)) := by
  have ⟨c, hc, hr⟩ := Hub.Run.step_receive h.hub hl hb
  have hs : Greeting.step id s (.hub .receive) = { s with hub := Hub.Run.step s.hub .receive } := rfl
  have hst := h.stage
  have ⟨hm, _, hf⟩ := (hn ▸ h.hub.phase id).not_mem
  have he : (s.hub.client id).send.buffer = [] := by
    rw [(s.hub.client id).send.fifo] at hf
    exact (List.append_eq_nil_iff.mp hf).right
  have hp := h.stamps
  rw [State.stream, s.hub.broadcast.fifo, hb, List.append_assoc, List.cons_append] at hp
  have hlt := (List.pairwise_cons.mp (List.pairwise_append.mp hp).right.left).left
  rw [hn] at hst
  simp only [hs, hr, path, hst.written, hst.pump, Pump.held, he, Hub.Run.Loop.pending, hm, if_false, hc, 
    List.nil_append]
  intro hmem
  exact Nat.lt_irrefl _ <| hlt f hmem

theorem Connected.noGap_iff (h : Connected id s) (hu : Unhindered id s a) : 
    NoGap id s a ↔ Awaits id s a := by
  constructor
  case mpr => exact fun hw g hg => (h.step hu hw).covered hg
  case mp  =>
    intro hc
    cases a
    case hub e =>
      cases e
      case receive =>
        intro hl hn g hg f hf he
        by_contra hlt
        have ⟨l, hb⟩ := List.head?_eq_some_iff.mp hf
        have hm : f ∈ s.made := by
          rw [← h.complete, State.stream, s.hub.broadcast.fifo, hb]
          simp
        rw [← List.take_append_drop g.fst s.made] at hm
        have hd := (List.mem_append.mp hm).resolve_left fun ht => hlt <| (h.greets g hg).earlier f ht
        exact h.not_mem_path hl hn hb <| (hc g hg).stream f hd he
      all_goals trivial
    all_goals trivial

-- In a run in which nothing hinders the client, no event is left out if and only if the hub takes no event 
-- between the greeting and the registration.
theorem always_noGap_iff {as : List Action} 
    (h : Execution.Always (Greeting.step id) (Unhindered id) (start mode maxClients) as) : 
    Execution.Always (Greeting.step id) (NoGap id) (start mode maxClients) as ↔ 
      Execution.Always (Greeting.step id) (Awaits id) (start mode maxClients) as := by
  apply Execution.Always.congr_of h (I := Connected id) .of_start
  case hk  => exact fun s a hs hu hn => hs.step hu <| (hs.noGap_iff hu).mp hn
  case hpq => exact fun s a hs hu => hs.noGap_iff hu

section Missed

-- The event is taken from the queue after the greeting has been captured, and before the registration.
def tooEarly : List Greeting.Action := [
  .clientCount, .buildHello someHello .epoch, .latest .epoch, .accept true, 
  .receive (.event someEvent) .epoch, .broadcast, .hub .receive, .hub .endLoop, 
  .register, .go, .greet true
]

theorem unhindered_tooEarly : Execution.Always (Greeting.step 0) (Unhindered 0) (start [] 128) 
    (tooEarly ++ [.greet true]) := by
  refine ⟨trivial, trivial, trivial, rfl, trivial, fun _ => ?_, trivial, trivial, ?_, trivial, rfl, rfl, 
    trivial⟩
  · decide
  · exact (by decide : ((0 : Nat) : Int) < 128)

theorem not_always_noGap_tooEarly : 
    Execution.Always (Greeting.step 0) (Unhindered 0) (start [] 128) (tooEarly ++ [.greet true]) ∧
    ¬Execution.Always (Greeting.step 0) (NoGap 0) (start [] 128) (tooEarly ++ [.greet true]) := by
  refine ⟨unhindered_tooEarly, fun h => ?_⟩
  have hc := (Execution.Always.concat_iff.mp h).right _ rfl
  have hm := hc.stream ⟨1, .event <| marshal .epoch kindEvent [] someEvent⟩ (.head _) rfl
  have hs : 1 ∈ List.map Stamped.stamp [⟨0, _⟩, ⟨0, _⟩] := List.mem_map_of_mem hm
  simp at hs

theorem always_noGap_iff_tooEarly : 
    Execution.Always (Greeting.step 0) (NoGap 0) (start [] 128) (tooEarly ++ [.greet true]) ↔ 
    Execution.Always (Greeting.step 0) (Awaits 0) (start [] 128) (tooEarly ++ [.greet true]) :=
  always_noGap_iff unhindered_tooEarly

end Missed
end Agentscope.Greeting.Continuity
