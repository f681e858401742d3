import DrishtiScope.Agentscope.Fanout
import DrishtiScope.Hub.Run

open Go Agg Protocol Hub.Run

-- What a client is sent when it connects, and by whom.
namespace Agentscope

-- What fanout does to the builder with an item, and the frame that it broadcasts then.
def publish (builder : SnapshotBuilder) (mode : Bytes) (now : Time) : Item → SnapshotBuilder × Frame
  | .snapshot snap => 
    let (builder, snap) := builder.update snap
    (builder, .snapshot <| marshal now kindSnapshot mode snap)
  | .event e       => (builder.addEvent e, .event <| marshal now kindEvent mode e)

def Action.broadcast? : Action → Option Frame
  | .broadcast f => some f
  | _            => none

def Fanout.broadcasts (s : Fanout) : List Frame :=
  s.trace.filterMap Action.broadcast?

theorem publish_fanout {s : Fanout} {item : Item} {now : Time} (h : s.returned = false) : 
    (s.step (.receive item now)).builder = (publish s.builder s.mode now item).fst ∧
    (s.step (.receive item now)).broadcasts = s.broadcasts ++ [(publish s.builder s.mode now item).snd] := by
  have hn : s.returned ≠ true := by simp [h]
  simp only [Fanout.step, if_neg hn, Fanout.broadcasts]
  cases item
  case snapshot => exact ⟨rfl, List.filterMap_append⟩
  case event    => exact ⟨rfl, List.filterMap_append⟩

def isSnapshot : Frame → Bool
  | .snapshot _ => true
  | _           => false

namespace Greeting

-- A frame with the number of items that the builder had been given when it was made.
structure Stamped where
  stamp : Nat
  frame : Frame

-- Where the handler of the request stands.
inductive Serve
  | counting
  | hello
  | latest
  | accepting
  | registering
  | starting
  | greeting
  | reading
  | leaving
  | returned
  deriving DecidableEq

inductive Pump
  | fresh
  | idle
  | writing (f : Stamped)
  | ended

def Pump.held : Pump → List Stamped
  | writing f => [f]
  | _         => []

-- The request of a client and its connection. `left` is what ServeWS still has to write of its two messages.
structure Conn where
  serve    : Serve
  hello    : Option (Envelope Hello)
  greeting : Option (Nat × Envelope Snapshot)
  left     : List Stamped
  pump     : Pump
  isOpen   : Bool
  written  : List Stamped

def Conn.greetMsgs (c : Conn) : List Stamped :=
  match c.hello, c.greeting with
  | some h, some (n, g) => [⟨0, .hello h⟩, ⟨n, .snapshot g⟩]
  | _, _                => []

theorem Conn.greetMsgs_eq_nil {c : Conn} (h : c.greeting = none) : c.greetMsgs = [] := by
  simp only [greetMsgs]
  split
  case h_1 hg => rw [h] at hg; contradiction
  case h_2    => rfl

theorem Conn.greetMsgs_eq {c : Conn} (h : c.greetMsgs ≠ []) : 
    ∃ h n g, c.hello = some h ∧ c.greeting = some (n, g) ∧ 
      c.greetMsgs = [⟨0, .hello h⟩, ⟨n, .snapshot g⟩] := by
  simp only [greetMsgs] at h ⊢
  split at h
  case h_1 hh hg => exact ⟨_, _, _, hh, hg, rfl⟩
  case h_2       => contradiction

-- `made` keeps the frames that fanout has made, of which `hold` has not been passed to the hub yet.
structure State where
  builder : SnapshotBuilder
  mode    : Bytes
  made    : List Stamped
  hold    : Option Stamped
  hub     : Hub.Run.State Stamped
  conn    : Conn

def start (mode : Bytes) (maxClients : Int) : State where
  builder := .newSnapshotBuilder
  mode    := mode
  made    := []
  hold    := none
  hub     := Hub.Run.start maxClients fun _ => 64
  conn    := ⟨.counting, none, none, [], .fresh, false, []⟩

inductive Action
  | receive (item : Item) (now : Time)
  | broadcast
  | hub (e : Hub.Run.Event Stamped)
  | clientCount
  | buildHello (h : Hello) (now : Time)
  | latest (now : Time)
  | accept (ok : Bool)
  | register
  | timeout
  | go
  | greet (ok : Bool)
  | endRead
  | unregister
  | take
  | write (ok : Bool)
  | endPump

-- A write that fails closes the connection.
def Conn.write (c : Conn) (f : Stamped) (ok : Bool) : Conn :=
  { c with 
    isOpen  := c.isOpen && ok
    written := if c.isOpen && ok then c.written ++ [f] else c.written
  }

-- `handleWS` and then `ServeWS`. A registration meets the hub at its `select`.
def serveWS (id : Nat) (s : State) (a : Action) : State :=
  match s.conn.serve, a with
  | .counting, .clientCount      => 
    { s with conn.serve := if s.hub.max ≤ s.hub.count then .returned else .hello }
  | .hello, .buildHello h now    => 
    { s with conn.hello := some (marshal now kindHello s.mode h), conn.serve := .latest }
  | .latest, .latest now         => 
    let snap := marshal now kindSnapshot s.mode s.builder.latestSnapshot
    let c := { s.conn with greeting := some (s.made.length, snap), serve := .accepting }
    { s with conn := { c with left := c.greetMsgs } }
  | .accepting, .accept ok       => 
    { s with conn.isOpen := ok, conn.serve := if ok then .registering else .returned }
  | .registering, .register      => 
    match s.hub.loop with
    | .select => { s with hub := Hub.Run.step s.hub (.register id), conn.serve := .starting }
    | _       => s
  | .registering, .timeout       => { s with conn.isOpen := false, conn.serve := .returned }
  | .starting, .go               => { s with conn.pump := .idle, conn.serve := .greeting }
  | .greeting, .greet ok         => 
    match s.conn.left with
    | []        => { s with conn.serve := .reading }
    | f :: left => { s with conn := { s.conn.write f ok with left } }
  | .reading, .endRead           => { s with conn.isOpen := false, conn.serve := .leaving }
  | .leaving, .unregister        => 
    match s.hub.loop with
    | .select => { s with hub := Hub.Run.step s.hub (.unregister id), conn.serve := .returned }
    | _       => s
  | .leaving, .timeout           => { s with conn.serve := .returned }
  | _, _                         => s

def writePump (id : Nat) (s : State) (a : Action) : State :=
  match s.conn.pump, a with
  | .idle, .take          => 
    match (s.hub.client id).send.tryReceive with
    | some (f, _) => { s with hub := Hub.Run.step s.hub (.read id), conn.pump := .writing f }
    | none        => s
  | .writing f, .write ok => 
    let c := s.conn.write f ok
    { s with conn := { c with pump := if c.isOpen then .idle else .ended } }
  | .idle, .endPump       => 
    if (s.hub.client id).closed ∧ (s.hub.client id).send.buffer = [] then 
      { s with conn.pump := .ended, conn.isOpen := false }
    else s
  | _, _                  => s

-- The client has the number `id` in the hub.
def step (id : Nat) (s : State) : Action → State
  | .receive item now => 
    if s.hold.isSome then s else
      let (builder, frame) := publish s.builder s.mode now item
      let f := ⟨s.made.length + 1, frame⟩
      { s with builder, made := s.made ++ [f], hold := some f }
  | .broadcast        => 
    match s.hold with
    | some f => { s with hub := Hub.Run.step s.hub (.broadcast f), hold := none }
    | none   => s
  | .hub e            => if e.Foreign id then { s with hub := Hub.Run.step s.hub e } else s
  | .take             => writePump id s .take
  | .write ok         => writePump id s (.write ok)
  | .endPump          => writePump id s .endPump
  | a                 => serveWS id s a

-- The frames in the order in which fanout passes them to the hub, with the one that it holds.
def State.stream (s : State) : List Stamped :=
  s.hub.broadcast.sent ++ s.hold.toList

-- Before the client is registered, nothing has been written.
structure Unregistered (c : Conn) : Prop where
  pump    : c.pump = .fresh
  written : c.written = []
  left    : c.left = c.greetMsgs
  serve   : c.serve ∉ [.starting, .greeting, .reading, .leaving]
  early   : c.serve ∈ [.counting, .hello, .latest] → c.greeting = none
  built   : c.serve = .latest → c.hello ≠ none
  caught  : c.serve ∈ [.accepting, .registering] → c.greetMsgs ≠ []

structure Registered (c : Conn) : Prop where
  caught : c.greetMsgs ≠ []
  serve  : c.serve ∈ [.starting, .greeting, .reading, .leaving, .returned]
  fresh  : c.serve = .starting → c.pump = .fresh

def Stage (registered : Option Nat) (c : Conn) : Prop :=
  match registered with
  | none   => Unregistered c
  | some _ => Registered c

structure Inv (id : Nat) (s : State) : Prop where
  hub      : Hub.Run.Inv s.hub
  stamps   : s.stream.Pairwise (·.stamp < ·.stamp)
  bounds   : ∀ f ∈ s.stream, f.stamp ≤ s.made.length
  captured : ∀ g ∈ s.conn.greeting, g.fst ≤ s.made.length
  stage    : Stage (s.hub.registered id) s.conn

variable {id : Nat} {s : State} {a : Action} {mode : Bytes} {maxClients : Int} {f : Stamped} {ok : Bool}

-- What a step does in the hub: nothing, or an event of its own.
inductive Drives (id : Nat) (s : State) (a : Action) (s' : State) : Prop
  | idle (hh : s'.hub = s.hub)
  | broadcast (ha : a = .broadcast) (f : Stamped) (hf : s.hold = some f) 
    (hh : s'.hub = Hub.Run.step s.hub (.broadcast f))
  | foreign (e : Event Stamped) (ha : a = .hub e) (he : e.Foreign id) (hh : s'.hub = Hub.Run.step s.hub e)
  | read (f : Stamped) (c : BufferedChannel Stamped) (ht : (s.hub.client id).send.tryReceive = some (f, c)) 
    (hh : s'.hub = Hub.Run.step s.hub (.read id))
  | register (ha : a = .register) (hs : s.conn.serve = .registering) (hl : s.hub.loop = .select) 
    (hg : s'.conn.greeting = s.conn.greeting) (hh : s'.hub = Hub.Run.step s.hub (.register id))
  | unregister (ha : a = .unregister) (hh : s'.hub = Hub.Run.step s.hub (.unregister id))

theorem serveWS_drives : Drives id s a (serveWS id s a) := by
  simp only [serveWS]
  split
  case h_5 hs => 
    split
    case h_1 hl => exact .register rfl hs hl rfl rfl
    case h_2    => exact .idle rfl
  case h_8  => split <;> exact .idle rfl
  case h_10 => 
    split
    case h_1 => exact .unregister rfl rfl
    case h_2 => exact .idle rfl
  all_goals exact .idle rfl

theorem writePump_drives : Drives id s a (writePump id s a) := by
  simp only [writePump]
  split
  case h_1 =>
    split
    case h_1 ht => exact .read _ _ ht rfl
    case h_2    => exact .idle rfl
  case h_3 => split <;> exact .idle rfl
  all_goals exact .idle rfl

theorem step_drives : Drives id s a (step id s a) := by
  simp only [step]
  split
  case h_1 => split <;> exact .idle rfl
  case h_2 =>
    split
    case h_1 hf => exact .broadcast rfl _ hf rfl
    case h_2    => exact .idle rfl
  case h_3 =>
    split
    case isTrue he => exact .foreign _ rfl he rfl
    case isFalse   => exact .idle rfl
  case h_4 | h_5 | h_6 => exact writePump_drives
  case h_7             => exact serveWS_drives

theorem Drives.inv {s' : State} (h : Drives id s a s') (hi : Hub.Run.Inv s.hub) : Hub.Run.Inv s'.hub := by
  cases h
  case idle hh       => exact hh ▸ hi
  case broadcast hh  => exact hh ▸ hi.step
  case foreign hh    => exact hh ▸ hi.step
  case read hh       => exact hh ▸ hi.step
  case register hh   => exact hh ▸ hi.step
  case unregister hh => exact hh ▸ hi.step

theorem Inv.unregistered (h : Inv id s) 
    (hs : s.conn.serve ∈ [.counting, .hello, .latest, .accepting, .registering]) : 
    s.hub.registered id = none ∧ Unregistered s.conn := by
  have hst := h.stage
  cases hr : s.hub.registered id
  case none   => rw [hr] at hst; exact ⟨rfl, hst⟩
  case some k =>
    rw [hr] at hst
    have hl := hst.serve
    cases he : s.conn.serve <;> simp [he] at hs hl

-- The handler and the writer leave the producer to itself.
structure Same (s s' : State) : Prop where
  builder : s'.builder = s.builder
  made    : s'.made = s.made
  stream  : s'.stream = s.stream

theorem Same.of_sent {s' : State} (hb : s'.builder = s.builder) (hm : s'.made = s.made) 
    (hh : s'.hold = s.hold) (hs : s'.hub.broadcast.sent = s.hub.broadcast.sent) : Same s s' :=
  ⟨hb, hm, by rw [State.stream, State.stream, hs, hh]⟩

theorem Inv.serveWS_same (h : Inv id s) : Same s (serveWS id s a) := by
  simp only [serveWS]
  split
  case h_5 hs => 
    split
    case h_1 hl => 
      have ⟨hr, _⟩ := h.unregistered (by simp [hs])
      exact .of_sent rfl rfl rfl <| congrArg _ <| (Hub.Run.step_register h.hub hl hr).left
    case h_2 => exact ⟨rfl, rfl, rfl⟩
  case h_8 =>
    split
    · exact ⟨rfl, rfl, rfl⟩
    · exact ⟨rfl, rfl, rfl⟩
  case h_10 =>
    split
    · exact .of_sent rfl rfl rfl (Hub.Run.Leaves.unregister : Hub.Run.Leaves id s.hub _).sent
    · exact ⟨rfl, rfl, rfl⟩
  all_goals exact ⟨rfl, rfl, rfl⟩

theorem Inv.writePump_same (h : Inv id s) : Same s (writePump id s a) := by
  simp only [writePump]
  split
  case h_1 =>
    split
    case h_1 ht => exact .of_sent rfl rfl rfl <| by simp [Hub.Run.step_read h.hub ht]
    case h_2    => exact ⟨rfl, rfl, rfl⟩
  case h_2 => exact ⟨rfl, rfl, rfl⟩
  case h_3 => split <;> exact ⟨rfl, rfl, rfl⟩
  case h_4 => exact ⟨rfl, rfl, rfl⟩

-- If the step passes a frame to the hub, there is room for it.
def Accepted (s : State) (a : Action) : Prop :=
  a = .broadcast → s.hold ≠ none → s.hub.broadcast.HasRoom

-- A step of fanout makes the next frame, or passes on the one that it holds.
inductive Produces (s : State) (a : Action) (s' : State) : Prop
  | passes (hb : s'.builder = s.builder) (hm : s'.made = s.made) (hs : s'.stream <+: s.stream) 
    (hc : Accepted s a → s'.stream = s.stream)
  | makes (item : Item) (now : Time) (f : Stamped) (hf : f.stamp = s.made.length + 1) 
    (hb : (s'.builder, f.frame) = publish s.builder s.mode now item) (hm : s'.made = s.made ++ [f]) 
    (hs : s'.stream = s.stream ++ [f])

theorem Same.produces {s' : State} (h : Same s s') : Produces s a s' :=
  .passes h.builder h.made (h.stream ▸ List.prefix_rfl) fun _ => h.stream

theorem Inv.produces (h : Inv id s) : Produces s a (step id s a) := by
  simp only [step]
  split
  case h_1 item now =>
    split
    case isTrue     => exact Same.produces ⟨rfl, rfl, rfl⟩
    case isFalse hn => 
      refine .makes item now ⟨s.made.length + 1, (publish s.builder s.mode now item).snd⟩ rfl rfl rfl ?_
      simp [State.stream, Option.not_isSome_iff_eq_none.mp hn]
  case h_2 =>
    split
    case h_1 f hf => 
      have he : Option.toList (none : Option Stamped) = [] := rfl
      refine .passes rfl rfl ?_ fun ha => ?_
      all_goals simp only [State.stream, hf, Hub.Run.step_broadcast h.hub, he, List.append_nil, 
        Option.toList_some]
      · simp only [BufferedChannel.trySend]
        split
        · exact List.prefix_rfl
        · exact List.prefix_append ..
      · exact BufferedChannel.sent_trySend <| ha rfl (by simp [hf])
    case h_2 => exact Same.produces ⟨rfl, rfl, rfl⟩
  case h_3 =>
    split
    case isTrue he => 
      refine Same.produces <| .of_sent rfl rfl rfl ?_
      exact (Hub.Run.Leaves.step he).sent
    case isFalse   => exact Same.produces ⟨rfl, rfl, rfl⟩
  case h_4 | h_5 | h_6 => exact h.writePump_same.produces
  case h_7             => exact h.serveWS_same.produces

namespace Produces

variable {s' : State}

theorem stamps (h : Produces s a s') (hs : s.stream.Pairwise (·.stamp < ·.stamp)) 
    (hb : ∀ f ∈ s.stream, f.stamp ≤ s.made.length) : s'.stream.Pairwise (·.stamp < ·.stamp) := by
  cases h
  case passes hp _       => exact hs.sublist hp.sublist
  case makes f hf _ _ he =>
    rw [he, List.pairwise_append]
    refine ⟨hs, List.pairwise_singleton .., fun f' hf' f'' he' => ?_⟩
    have hl := hb f' hf'
    rw [List.mem_singleton.mp he']
    omega

theorem length_le (h : Produces s a s') : s.made.length ≤ s'.made.length := by
  cases h
  case passes hm _ _  => rw [hm]
  case makes _ hm _   => simp [hm]

theorem bounds (h : Produces s a s') (hb : ∀ f ∈ s.stream, f.stamp ≤ s.made.length) : 
    ∀ f ∈ s'.stream, f.stamp ≤ s'.made.length := by
  cases h
  case passes hm hp _ => 
    rw [hm]
    exact fun f hf => hb f <| hp.subset hf
  case makes f hf _ hm he =>
    intro f' hf'
    rw [he] at hf'
    rw [hm, List.length_append, List.length_singleton]
    cases List.mem_append.mp hf'
    case inl hl => exact Nat.le_succ_of_le <| hb f' hl
    case inr hr => rw [List.mem_singleton.mp hr, hf]

end Produces

theorem Inv.registered (h : Inv id s) (hs : s.conn.serve ∈ [.starting, .greeting, .reading, .leaving]) : 
    ∃ k, s.hub.registered id = some k ∧ Registered s.conn := by
  have hst := h.stage
  cases hr : s.hub.registered id
  case none   => rw [hr] at hst; exact absurd hs hst.serve
  case some k => rw [hr] at hst; exact ⟨k, rfl, hst⟩

theorem start_inv : Inv id (start mode maxClients) where
  hub      := .of_start
  stamps   := .nil
  bounds   := by simp [start, State.stream, Hub.Run.start, BufferedChannel.make]
  captured := by simp [start]
  stage    := ⟨rfl, rfl, rfl, by simp [start], by simp [start], by simp [start], by simp [start]⟩

-- The rest of the request and the connection follow the handler.
theorem Inv.serveWS_stage (h : Inv id s) : 
    Stage ((serveWS id s a).hub.registered id) (serveWS id s a).conn := by
  simp only [serveWS]
  split
  case h_1 hs =>
    have ⟨hr, hu⟩ := h.unregistered (by simp [hs])
    rw [hr]
    by_cases hm : s.hub.max ≤ s.hub.count
    all_goals 
      exact ⟨hu.pump, hu.written, hu.left, by simp [hm], by simp [hm, hu.early, hs], by simp [hm], by simp [hm]⟩
  case h_2 hs =>
    have ⟨hr, hu⟩ := h.unregistered (by simp [hs])
    have hg := hu.early (by simp [hs])
    rw [hr]
    refine ⟨hu.pump, hu.written, ?_, by simp, fun _ => hg, by simp, by simp⟩
    refine .trans (hu.left.trans <| Conn.greetMsgs_eq_nil hg) (Conn.greetMsgs_eq_nil ?_).symm
    exact hg
  case h_3 hs =>
    have ⟨hr, hu⟩ := h.unregistered (by simp [hs])
    rw [hr]
    refine ⟨hu.pump, hu.written, rfl, by simp, by simp, by simp, fun _ => ?_⟩
    have ⟨hello, hh⟩ := Option.ne_none_iff_exists'.mp <| hu.built hs
    simp [Conn.greetMsgs, hh]
  case h_4 hs =>
    have ⟨hr, hu⟩ := h.unregistered (by simp [hs])
    rw [hr]
    refine ⟨hu.pump, hu.written, hu.left, ?_, ?_, ?_, fun _ => hu.caught (by simp [hs])⟩
    all_goals dsimp only; split <;> simp
  case h_5 hs =>
    split
    case h_1 hl =>
      have ⟨hr, hu⟩ := h.unregistered (by simp [hs])
      rw [(Hub.Run.step_register h.hub hl hr).right.left]
      exact ⟨hu.caught (by simp [hs]), by simp, fun _ => hu.pump⟩
    case h_2 => exact h.stage
  case h_6 hs =>
    have ⟨hr, hu⟩ := h.unregistered (by simp [hs])
    rw [hr]
    exact ⟨hu.pump, hu.written, hu.left, by simp, by simp, by simp, by simp⟩
  case h_7 hs =>
    have ⟨k, hr, hu⟩ := h.registered (by simp [hs])
    rw [hr]
    exact ⟨hu.caught, by simp, by simp⟩
  case h_8 hs =>
    have ⟨k, hr, hu⟩ := h.registered (by simp [hs])
    split
    all_goals rw [hr]
    · exact ⟨hu.caught, by simp, by simp⟩
    · exact ⟨hu.caught, hu.serve, by simp [Conn.write, hs]⟩
  case h_9 hs =>
    have ⟨k, hr, hu⟩ := h.registered (by simp [hs])
    rw [hr]
    exact ⟨hu.caught, by simp, by simp⟩
  case h_10 hs =>
    have ⟨k, hr, hu⟩ := h.registered (by simp [hs])
    split
    case h_1 => 
      have hu' := (Hub.Run.Leaves.unregister : Hub.Run.Leaves id s.hub (Hub.Run.step s.hub (.unregister id)))
      rw [hu'.registered, hr]
      exact ⟨hu.caught, by simp, by simp⟩
    case h_2 => exact h.stage
  case h_11 hs =>
    have ⟨k, hr, hu⟩ := h.registered (by simp [hs])
    rw [hr]
    exact ⟨hu.caught, by simp, by simp⟩
  case h_12 => exact h.stage

-- The greeting is taken from the builder before the client is registered.
structure Captures (s s' : State) : Prop where
  serve    : s.conn.serve = .latest
  hub      : s'.hub = s.hub
  made     : s'.made = s.made
  greeting : ∃ now, s'.conn.greeting = 
    some (s.made.length, marshal now kindSnapshot s.mode s.builder.latestSnapshot)

theorem serveWS_greeting : 
    (serveWS id s a).conn.greeting = s.conn.greeting ∨ Captures s (serveWS id s a) := by
  simp only [serveWS]
  split
  case h_3 hs    => exact .inr ⟨hs, rfl, rfl, _, rfl⟩
  case h_5 | h_8 | h_10 => split <;> exact .inl rfl
  all_goals exact .inl rfl

theorem Inv.pumping (h : Inv id s) (hp : s.conn.pump ≠ .fresh) : 
    (∃ k, s.hub.registered id = some k) ∧ Registered s.conn ∧ s.conn.serve ≠ .starting := by
  have hst := h.stage
  cases hr : s.hub.registered id
  case none   => rw [hr] at hst; exact absurd hst.pump hp
  case some k => rw [hr] at hst; exact ⟨⟨k, rfl⟩, hst, fun hs => hp (hst.fresh hs)⟩

-- The writer leaves the request alone.
theorem Inv.writePump_stage (h : Inv id s) : 
    Stage ((writePump id s a).hub.registered id) (writePump id s a).conn := by
  simp only [writePump]
  split
  case h_1 hp =>
    have ⟨⟨k, hr⟩, hu, hs⟩ := h.pumping (by simp [hp])
    split
    case h_1 ht =>
      rw [Hub.Run.step_read h.hub ht, hr]
      exact ⟨hu.caught, hu.serve, fun h => absurd h hs⟩
    case h_2    => exact h.stage
  case h_2 hp =>
    have ⟨⟨k, hr⟩, hu, hs⟩ := h.pumping (by simp [hp])
    rw [hr]
    exact ⟨hu.caught, hu.serve, fun h => absurd h hs⟩
  case h_3 hp =>
    have ⟨⟨k, hr⟩, hu, hs⟩ := h.pumping (by simp [hp])
    split
    case isTrue  => rw [hr]; exact ⟨hu.caught, hu.serve, fun h => absurd h hs⟩
    case isFalse => exact h.stage
  case h_4 => exact h.stage

theorem writePump_greeting : (writePump id s a).conn.greeting = s.conn.greeting := by
  simp only [writePump]
  split
  case h_1 | h_3 => split <;> rfl
  all_goals rfl

-- A registration, and what it sees.
structure Registers (id : Nat) (s : State) (a : Action) (s' : State) : Prop where
  action     : a = .register
  serve      : s.conn.serve = .registering
  loop       : s.hub.loop = .select
  before     : s.hub.registered id = none
  broadcast  : s'.hub.broadcast = s.hub.broadcast
  registered : s'.hub.registered id = some s.hub.processed.length
  greeting   : s'.conn.greeting = s.conn.greeting

theorem Inv.step_registered (h : Inv id s) : 
    (step id s a).hub.registered id = s.hub.registered id ∨ Registers id s a (step id s a) := by
  cases @step_drives id s a
  case idle hh       => exact .inl <| by rw [hh]
  case broadcast hh  => exact .inl <| by rw [hh, Hub.Run.step_broadcast h.hub]
  case foreign he hh => exact .inl <| by rw [hh, (Hub.Run.Leaves.step he).registered]
  case read ht hh    => exact .inl <| by rw [hh, Hub.Run.step_read h.hub ht]
  case unregister hh => exact .inl <| hh ▸ (Hub.Run.Leaves.unregister : Hub.Run.Leaves id s.hub _).registered
  case register ha hs hl hg hh =>
    have ⟨hr, _⟩ := h.unregistered (by simp [hs])
    have ⟨hb, hk, _⟩ := Hub.Run.step_register h.hub hl hr
    exact .inr ⟨ha, hs, hl, hr, hh ▸ hb, hh ▸ hk, hg⟩

theorem step_stage (h : Inv id s) : 
    Stage ((step id s a).hub.registered id) (step id s a).conn := by
  simp only [step]
  split
  case h_1 => split <;> exact h.stage
  case h_2 =>
    split
    case h_1 => rw [Hub.Run.step_broadcast h.hub]; exact h.stage
    case h_2 => exact h.stage
  case h_3 =>
    split
    case isTrue he => rw [(Hub.Run.Leaves.step he).registered]; exact h.stage
    case isFalse   => exact h.stage
  case h_4 | h_5 | h_6 => exact h.writePump_stage
  case h_7             => exact h.serveWS_stage

theorem step_greeting : 
    (step id s a).conn.greeting = s.conn.greeting ∨ Captures s (step id s a) := by
  simp only [step]
  split
  case h_1 | h_2 | h_3 => split <;> exact .inl rfl
  case h_4 | h_5 | h_6 => exact .inl writePump_greeting
  case h_7             => exact serveWS_greeting

theorem Inv.step (h : Inv id s) : Inv id (step id s a) where
  hub      := step_drives.inv h.hub
  stamps   := (h.produces (a := a)).stamps h.stamps h.bounds
  bounds   := (h.produces (a := a)).bounds h.bounds
  captured := by
    intro g hg
    refine .trans ?_ (h.produces (a := a)).length_le
    cases @step_greeting id s a
    case inl he => exact h.captured g (he ▸ hg)
    case inr he =>
      have ⟨_, he⟩ := he.greeting
      rw [he] at hg
      cases hg
      exact Nat.le_refl _
  stage    := step_stage h

-- The first frame is the hello frame, the second one is the greeting snapshot, and no snapshot is older
-- than one before it.
structure Ordered (c : Conn) : Prop where
  first  : ∀ f ∈ c.written[0]?, ∃ h ∈ c.hello, f.frame = .hello h
  second : ∀ f ∈ c.written[1]?, ∃ g ∈ c.greeting, f = ⟨g.fst, .snapshot g.snd⟩
  newer  : (c.written.filter (isSnapshot ·.frame)).Pairwise (·.stamp ≤ ·.stamp)

-- The writer starts when the greeting has been written, and no snapshot from before the greeting is on 
-- its way to the client when it is registered.
def InTurn (s : State) : Action → Prop
  | .register => s.conn.serve = .registering → s.hub.loop = .select → 
    ∀ g ∈ s.conn.greeting, ∀ f ∈ s.hub.broadcast.buffer ++ s.hold.toList, 
      isSnapshot f.frame → g.fst ≤ f.stamp
  | .write ok => s.conn.pump.held ≠ [] → s.conn.isOpen → ok → s.conn.left = []
  | _         => True

-- Everything that the client can still be sent by the hub is newer than the greeting.
def Newer (id : Nat) (s : State) : Prop :=
  ∀ k, s.hub.registered id = some k → ∀ g ∈ s.conn.greeting, ∀ f ∈ s.stream.drop k, 
    isSnapshot f.frame → g.fst ≤ f.stamp

theorem Produces.mem_drop {s' : State} {k : Nat} (h : Produces s a s') (hf : f ∈ s'.stream.drop k) : 
    f ∈ s.stream.drop k ∨ f.stamp = s.made.length + 1 := by
  cases h
  case passes hp _   => exact .inl <| (hp.drop k).subset hf
  case makes hf' _ _ he =>
    rw [he, List.drop_append] at hf
    cases List.mem_append.mp hf
    case inl hl => exact .inl hl
    case inr hr => exact .inr <| List.mem_singleton.mp (List.mem_of_mem_drop hr) ▸ hf'

theorem Inv.newer (h : Inv id s) (hn : Newer id s) (ht : InTurn s a) : 
    Newer id (Greeting.step id s a) := by
  intro k hk g hg f hf hs
  cases h.step_registered (a := a)
  case inr hr =>
    have ha := hr.action
    subst ha
    -- What is on its way is all that the client can still get.
    have he : s.stream.drop s.hub.processed.length = s.hub.broadcast.buffer ++ s.hold.toList := by
      rw [State.stream, s.hub.broadcast.fifo, List.append_assoc, List.drop_left]
    have hst : (Greeting.step id s .register).stream = s.stream := h.serveWS_same.stream
    cases hr.registered.symm.trans hk
    rw [hst, he] at hf
    exact ht hr.serve hr.loop g (hr.greeting ▸ hg) f hf hs
  case inl hr =>
    rw [hr] at hk
    have hg : g ∈ s.conn.greeting := by
      cases @step_greeting id s a
      case inl he => exact he ▸ hg
      case inr he => 
        have hu := (h.unregistered (by simp [he.serve])).left
        rw [hu] at hk
        contradiction
    cases (h.produces (a := a)).mem_drop hf
    case inl hm => exact hn k hk g hg f hm hs
    case inr hm => exact hm ▸ Nat.le_succ_of_le (h.captured g hg)

-- What has been written, where `pumped` has been taken from the channel of the client.
inductive Wrote (c : Conn) (pumped : List Stamped) : Prop
  | greeting (hp : pumped = []) (hw : c.written ++ c.left = c.greetMsgs)
  | live (hl : c.left = []) (hw : c.written = c.greetMsgs ++ pumped)
  | broken (ho : c.isOpen = false) (hw : c.written <+: c.greetMsgs)

namespace Wrote

variable {c c' : Conn} {pumped : List Stamped}

theorem of_unregistered (h : Unregistered c) : Wrote c [] :=
  .greeting rfl <| by rw [h.written, h.left, List.nil_append]

theorem of_eq (h : Wrote c pumped) (hw : c'.written = c.written) (hl : c'.left = c.left) 
    (hg : c'.greetMsgs = c.greetMsgs) (ho : c.isOpen = false → c'.isOpen = false) : 
    Wrote c' pumped := by
  cases h
  case greeting hp hw' => exact .greeting hp <| by rw [hw, hl, hg, hw']
  case live hl' hw'    => exact .live (hl.trans hl') <| by rw [hw, hg, hw']
  case broken ho' hw'  => exact .broken (ho ho') <| by rw [hw, hg]; exact hw'

-- The handler writes the next frame of the greeting.
theorem greet {left : List Stamped} (h : Wrote c pumped) (hl : c.left = f :: left) : 
    Wrote { c.write f ok with left } pumped := by
  cases h
  case live hl' _    => rw [hl] at hl'; contradiction
  case broken ho hw  => exact .broken (by simp [Conn.write, ho]) <| by simp only [Conn.write, ho]; exact hw
  case greeting hp hw =>
    rw [hl] at hw
    by_cases ho : c.isOpen && ok
    case pos =>
      refine .greeting hp ?_
      simp only [Conn.write, ho, if_true, List.append_assoc, List.singleton_append]
      exact hw
    case neg => 
      refine .broken (by simpa [Conn.write] using ho) ?_
      simp only [Conn.write, ho]
      exact ⟨_, hw⟩

-- The writer writes a frame.
theorem pump (h : Wrote c pumped) (hl : c.isOpen → ok → c.left = []) : 
    ∃ fs, fs.Sublist [f] ∧ Wrote (c.write f ok) (pumped ++ fs) := by
  by_cases ho : c.isOpen && ok
  case neg =>
    refine ⟨[], List.nil_sublist _, ?_⟩
    rw [List.append_nil]
    exact h.of_eq (by simp [Conn.write, ho]) rfl rfl fun ho => by simp [Conn.write, ho]
  case pos =>
    refine ⟨[f], List.Sublist.refl _, ?_⟩
    have ⟨ho₁, ho₂⟩ := Bool.and_eq_true_iff.mp ho
    have hl := hl ho₁ ho₂
    refine .live hl ?_
    simp only [Conn.write, ho, if_true]
    cases h
    case greeting hp hw => rw [hl, List.append_nil] at hw; rw [hw, hp]; rfl
    case live hw        => rw [hw, List.append_assoc]; rfl
    case broken ho' _   => rw [ho₁] at ho'; contradiction

end Wrote

-- The frames of the hub that have been written were taken from the channel in turn.
def Pumped (id : Nat) (s : State) : Prop :=
  ∃ pumped, (pumped ++ s.conn.pump.held).Sublist (s.hub.client id).send.received ∧ 
    Wrote s.conn pumped

theorem Pumped.of_unregistered (h : Unregistered s.conn) : Pumped id s :=
  ⟨[], by simp [h.pump, Pump.held], .of_unregistered h⟩

-- A change of the request that does not touch what is written.
theorem Pumped.of_eq {s' : State} (h : Pumped id s) (hw : s'.conn.written = s.conn.written) 
    (hl : s'.conn.left = s.conn.left) (hg : s'.conn.greetMsgs = s.conn.greetMsgs) 
    (ho : s.conn.isOpen = false → s'.conn.isOpen = false) 
    (hp : s'.conn.pump = s.conn.pump ∨ s'.conn.pump.held = []) 
    (hr : (s'.hub.client id).send.received = (s.hub.client id).send.received) : Pumped id s' := by
  have ⟨pumped, hs, hp'⟩ := h
  refine ⟨pumped, ?_, hp'.of_eq hw hl hg ho⟩
  rw [hr]
  cases hp
  case inl hp => rw [hp]; exact hs
  case inr hp => rw [hp, List.append_nil]; exact (List.sublist_append_left ..).trans hs

theorem Inv.serveWS_pumped (h : Inv id s) (hp : Pumped id s) : Pumped id (serveWS id s a) := by
  have hst := h.serveWS_stage (a := a)
  cases hr : (serveWS id s a).hub.registered id
  case none   => rw [hr] at hst; exact .of_unregistered hst
  case some k =>
    clear hst
    simp only [serveWS] at hr ⊢
    split at hr
    case h_1 hs | h_2 hs | h_3 hs | h_4 hs | h_6 hs => 
      have ⟨hn, _⟩ := h.unregistered (by simp [hs])
      exact absurd (hn.symm.trans hr) (by simp)
    case h_5 hs =>
      split
      case h_1 hl =>
        have ⟨hn, hu⟩ := h.unregistered (by simp [hs])
        refine ⟨[], by simp [hu.pump, Pump.held], ?_⟩
        exact (Wrote.of_unregistered hu).of_eq rfl rfl rfl fun h => h
      case h_2 => exact hp
    case h_7 => exact hp.of_eq rfl rfl rfl (fun h => h) (.inr rfl) rfl
    case h_8 => 
      split
      case h_1    => exact hp.of_eq rfl rfl rfl (fun h => h) (.inl rfl) rfl
      case h_2 hl => 
        have ⟨pumped, hs, hw⟩ := hp
        exact ⟨pumped, hs, hw.greet hl⟩
    case h_9  => exact hp.of_eq rfl rfl rfl (fun _ => rfl) (.inl rfl) rfl
    case h_10 => 
      split
      case h_1 => 
        refine hp.of_eq rfl rfl rfl (fun h => h) (.inl rfl) ?_
        exact (Hub.Run.Leaves.unregister : Hub.Run.Leaves id s.hub _).received
      case h_2 => exact hp
    case h_11 => exact hp.of_eq rfl rfl rfl (fun h => h) (.inl rfl) rfl
    case h_12 => exact hp

theorem Inv.writePump_pumped (h : Inv id s) (hp : Pumped id s) (ht : InTurn s a) : 
    Pumped id (writePump id s a) := by
  simp only [writePump]
  split
  case h_1 hi =>
    split
    case h_1 hf => 
      have ⟨pumped, hs, hw⟩ := hp
      refine ⟨pumped, ?_, hw.of_eq rfl rfl rfl fun h => h⟩
      have hr := (BufferedChannel.tryReceive_eq_some hf).right.right
      simp only [Hub.Run.step_read h.hub hf, Function.update_self, hr]
      have hs : pumped.Sublist (s.hub.client id).send.received := by simpa [hi, Pump.held] using hs
      exact hs.append_right _
    case h_2 => exact hp
  case h_2 f ok hi =>
    have ⟨pumped, hs, hw⟩ := hp
    have hl : s.conn.isOpen → ok → s.conn.left = [] := ht (by simp [hi, Pump.held])
    have ⟨fs, hf, hw'⟩ := hw.pump hl (f := f)
    refine ⟨pumped ++ fs, ?_, hw'.of_eq rfl rfl rfl fun h => h⟩
    rw [hi] at hs
    have hn : (if (s.conn.write f ok).isOpen then Pump.idle else Pump.ended).held = [] := by 
      split <;> rfl
    dsimp only
    rw [hn, List.append_nil]
    exact (hf.append_left pumped).trans hs
  case h_3 => 
    split
    case isTrue  => exact hp.of_eq rfl rfl rfl (fun _ => rfl) (.inr rfl) rfl
    case isFalse => exact hp
  case h_4 => exact hp

-- What holds as long as every step is in turn.
structure Turn (id : Nat) (s : State) : Prop extends Inv id s where
  newer  : Newer id s
  pumped : Pumped id s

theorem Turn.of_start : Turn id (start mode maxClients) where
  toInv       := start_inv
  newer _ h _ := by contradiction
  pumped      := .of_unregistered (start_inv : Inv id (start mode maxClients)).stage

theorem Turn.step (h : Turn id s) (ht : InTurn s a) : Turn id (step id s a) where
  toInv  := h.toInv.step
  newer  := h.toInv.newer h.newer ht
  pumped := by
    have hp := h.pumped
    simp only [Greeting.step]
    split
    case h_1 => split <;> exact hp
    case h_2 =>
      split
      case h_1 => 
        refine hp.of_eq rfl rfl rfl (fun h => h) (.inl rfl) ?_
        rw [Hub.Run.step_broadcast h.hub]
      case h_2 => exact hp
    case h_3 =>
      split
      case isTrue he => 
        refine hp.of_eq rfl rfl rfl (fun h => h) (.inl rfl) ?_
        exact (Hub.Run.Leaves.step he).received
      case isFalse   => exact hp
    case h_4 | h_5 | h_6 => exact h.writePump_pumped hp ht
    case h_7             => exact h.serveWS_pumped hp

theorem Wrote.prefix_append {c : Conn} {pumped : List Stamped} (h : Wrote c pumped) : 
    c.written <+: c.greetMsgs ++ pumped := by
  cases h
  case greeting hw  => exact (hw ▸ List.prefix_append ..).trans <| List.prefix_append ..
  case live hw      => exact hw ▸ List.prefix_rfl
  case broken ho hw => exact hw.trans <| List.prefix_append ..

theorem Turn.sublist_stream {pumped : List Stamped} {k : Nat} (h : Turn id s) 
    (hr : s.hub.registered id = some k) (hs : pumped.Sublist (s.hub.client id).send.received) : 
    pumped.Sublist (s.stream.drop k) := by
  have hp := h.hub.phase id
  rw [hr] at hp
  have hc : (s.hub.client id).send.received <+: s.hub.processed.drop k := 
    BufferedChannel.received_prefix_sent.trans hp.segment
  have hq : s.hub.processed <+: s.stream := 
    s.hub.broadcast.received_prefix_sent.trans <| List.prefix_append ..
  exact hs.trans <| hc.sublist.trans (hq.drop k).sublist

theorem Turn.ordered (h : Turn id s) : Ordered s.conn := by
  have hst := h.stage
  cases hr : s.hub.registered id
  case none   => 
    rw [hr] at hst
    have hw := hst.written
    exact ⟨by simp [hw], by simp [hw], by simp [hw]⟩
  case some k =>
    rw [hr] at hst
    have ⟨hello, n, g, hh, hg, hm⟩ := Conn.greetMsgs_eq hst.caught
    have ⟨pumped, hs, hw⟩ := h.pumped
    have hp := hw.prefix_append
    have hl := h.sublist_stream hr <| (List.sublist_append_left ..).trans hs
    rw [hm] at hp
    have hi (i : Nat) (f : Stamped) (hf : s.conn.written[i]? = some f) : 
        (⟨0, .hello hello⟩ :: ⟨n, .snapshot g⟩ :: pumped)[i]? = some f := by
      have ⟨hlt, he⟩ := List.getElem?_eq_some_iff.mp hf
      exact he ▸ List.prefix_iff_getElem?.mp hp i hlt
    constructor
    case first =>
      intro f hf
      cases hi 0 f hf
      exact ⟨hello, hh, rfl⟩
    case second =>
      intro f hf
      cases hi 1 f hf
      exact ⟨(n, g), hg, rfl⟩
    case newer =>
      refine .sublist (hp.sublist.filter _) ?_
      simp only [List.cons_append, List.nil_append, isSnapshot, List.filter_cons, if_true, 
        Bool.false_eq_true, if_false, List.pairwise_cons]
      constructor
      · intro f hf
        have ⟨hf, hs⟩ := List.mem_filter.mp hf
        exact h.newer k hr _ hg f (hl.subset hf) hs
      · exact (h.stamps.sublist <| hl.trans (List.drop_sublist ..)).imp Nat.le_of_lt |>.filter _

-- In every run whose steps are in turn, the client is sent the greeting first, and newer snapshots then.
theorem ordered_of_always {as : List Action} 
    (h : Execution.Always (step id) InTurn (start mode maxClients) as) : 
    Ordered (Execution.exec (step id) (start mode maxClients) as).conn :=
  (h.invariant (I := Turn id) .of_start fun _ _ => Turn.step).ordered

section Overtaken

def someHello : Hello where
  schema         := 1
  hostname       := []
  kernel         := []
  ebpfFailReason := []
  product        := []
  target         := ⟨0, []⟩

def someEvent : EventRow :=
  ⟨[], [], [], [], 0, [], [], [], []⟩

def connecting : List Action :=
  [.clientCount, .buildHello someHello .epoch, .latest .epoch, .accept true, .register, .go]

-- An event is broadcast to the client, and written by its writer.
def broadcasting : List Action := [
  .receive (.event someEvent) .epoch, .broadcast, .hub .receive, .hub (.next 0), .hub .endLoop, .take, 
  .write true
]

-- The writer is faster than the handler that has started it.
theorem not_ordered_overtaken : 
    ¬Ordered (Execution.exec (step 0) (start [] 128) (connecting ++ broadcasting)).conn := by
  intro h
  have ⟨_, _, hf⟩ := h.first ⟨1, .event <| marshal .epoch kindEvent [] someEvent⟩ rfl
  contradiction

theorem ordered_of_always_greeted : 
    Execution.Always (step 0) InTurn (start [] 128) 
      (connecting ++ [.greet true, .greet true] ++ broadcasting) ∧ 
    Ordered (Execution.exec (step 0) (start [] 128) 
      (connecting ++ [.greet true, .greet true] ++ broadcasting)).conn := by
  have h : Execution.Always (step 0) InTurn (start [] 128) 
      (connecting ++ [.greet true, .greet true] ++ broadcasting) := by
    refine ⟨trivial, trivial, trivial, trivial, ?_, trivial, trivial, trivial, trivial, trivial, trivial, 
      trivial, trivial, trivial, ?_, trivial⟩
    · intro _ _ _ _ f hf
      exact absurd hf List.not_mem_nil
    · exact fun _ _ _ => rfl
  exact ⟨h, ordered_of_always h⟩

end Overtaken
end Greeting
end Agentscope
