import DrishtiScope.Agentscope.Continuity
import DrishtiScope.Frontend.Store

open Go Agg Protocol

-- What becomes of the events on their way from an engine to the page in the browser.
namespace Agentscope.Browser

open Greeting (Stamped Conn Pump)
open Greeting.Continuity (event? rows rows_append)

-- The rows that have been written are the first ones that the writer took from the channel of the client, and 
-- all of them as long as the connection is open.
structure Carried (id : Nat) (s : Greeting.State) : Prop where
  left    : rows s.conn.left = []
  isOpen  : s.conn.isOpen → 
    rows (s.conn.written ++ s.conn.pump.held) = rows (s.hub.client id).send.received
  written : rows s.conn.written <+: rows (s.hub.client id).send.received
  known   : ∀ f ∈ s.conn.written ++ s.conn.pump.held ++ s.conn.left, 
    f ∈ (s.hub.client id).send.received ∨ f ∈ s.conn.greetMsgs

namespace Carried

variable {id : Nat} {s s' : Greeting.State} {a : Greeting.Action} {f : Stamped} {fs : List Stamped} 
  {mode : Bytes} {maxClients : Int} {ok : Bool}

theorem rows_greetMsgs {c : Conn} : rows c.greetMsgs = [] := by
  simp only [Conn.greetMsgs]
  split <;> rfl

theorem of_start : Carried id (Greeting.start mode maxClients) where
  left     := rfl
  isOpen h := by contradiction
  written  := List.prefix_rfl
  known    := by simp [Greeting.start, Pump.held]

-- The connection may close, but the rows stay where they are.
theorem of_eq (h : Carried id s) (hl : s'.conn.left = s.conn.left) 
    (hg : s'.conn.greetMsgs = s.conn.greetMsgs) (hw : s'.conn.written = s.conn.written) 
    (ho : s'.conn.isOpen → s.conn.isOpen) (hp : s'.conn.pump.held = s.conn.pump.held) 
    (hr : (s'.hub.client id).send.received = (s.hub.client id).send.received) : Carried id s' where
  left     := hl ▸ h.left
  isOpen h' := by rw [hw, hp, hr, h.isOpen (ho h')]
  written  := by rw [hw, hr]; exact h.written
  known    := by rw [hw, hp, hl, hr, hg]; exact h.known

-- Before the client is registered, the writer has taken nothing.
theorem of_unregistered (hi : Hub.Run.Inv s.hub) (hr : s.hub.registered id = none) 
    (hu : Greeting.Unregistered s.conn) : Carried id s where
  left      := by rw [hu.left, rows_greetMsgs]
  isOpen _  := by
    have hf := (hr ▸ hi.phase id).not_mem.right.right
    rw [(s.hub.client id).send.fifo] at hf
    rw [hu.written, hu.pump, (List.append_eq_nil_iff.mp hf).left]
    rfl
  written   := by rw [hu.written]; exact List.nil_prefix
  known f   := by
    rw [hu.written, hu.pump, hu.left]
    exact .inr

theorem mem_write {c : Conn} {f' : Stamped} (h : f' ∈ (c.write f ok).written) : 
    f' ∈ c.written ∨ f' = f := by
  simp only [Conn.write] at h
  split at h
  case isTrue  => simpa using h
  case isFalse => exact .inl h

-- A frame that is no event is written by the handler.
theorem greet {left : List Stamped} (h : Carried id s) (hl : s.conn.left = f :: left) : 
    Carried id { s with conn := { s.conn.write f ok with left } } := by
  have hf : rows [f] = [] ∧ rows left = [] := by
    have hn := h.left
    rw [hl, ← List.singleton_append, rows_append] at hn
    exact List.append_eq_nil_iff.mp hn
  have hw : rows (s.conn.write f ok).written = rows s.conn.written := by
    simp only [Conn.write]
    split
    case isTrue  => rw [rows_append, hf.left, List.append_nil]
    case isFalse => rfl
  constructor
  case left    => exact hf.right
  case written => exact hw ▸ h.written
  case isOpen  =>
    intro ho
    rw [← h.isOpen (Bool.and_eq_true_iff.mp ho).left, rows_append, hw, rows_append]
    rfl
  case known   =>
    intro f' hm
    refine h.known f' ?_
    simp only [hl, List.mem_append, List.mem_cons] at hm ⊢
    have hc : f' ∈ (s.conn.write f ok).written → f' ∈ s.conn.written ∨ f' = f := mem_write
    simp only [Conn.write] at hm hc
    tauto

theorem serveWS (h : Carried id s) (hi : Greeting.Inv id s) : Carried id (Greeting.serveWS id s a) := by
  have hst := hi.serveWS_stage (a := a)
  have hh : Hub.Run.Inv (Greeting.serveWS id s a).hub := Greeting.serveWS_drives.inv hi.hub
  cases hr : (Greeting.serveWS id s a).hub.registered id
  case none   => 
    rw [hr] at hst
    exact .of_unregistered hh hr hst
  case some k =>
    clear hst hh
    simp only [Greeting.serveWS] at hr ⊢
    split at hr
    case h_1 hs | h_2 hs | h_3 hs | h_4 hs | h_6 hs => 
      have hn := (hi.unregistered (by simp [hs])).left
      exact absurd (hn.symm.trans hr) (by simp)
    case h_5 hs =>
      split
      case h_1 hl =>
        have hn := (hi.unregistered (by simp [hs])).left
        exact h.of_eq rfl rfl rfl (fun h => h) rfl <| congrArg _ (Hub.Run.step_register hi.hub hl hn).right.right
      case h_2    => exact h
    case h_7 hs => 
      obtain ⟨_, _, hu⟩ := hi.registered (by simp [hs])
      exact h.of_eq rfl rfl rfl (fun h => h) (by rw [hu.fresh hs]; rfl) rfl
    case h_8 =>
      split
      case h_1    => exact h.of_eq rfl rfl rfl (fun h => h) rfl rfl
      case h_2 hl => exact h.greet hl
    case h_9  => exact h.of_eq rfl rfl rfl (fun ho => absurd ho Bool.false_ne_true) rfl rfl
    case h_10 => 
      split
      case h_1 => 
        exact h.of_eq rfl rfl rfl (fun h => h) rfl (Hub.Run.Leaves.unregister : Hub.Run.Leaves id s.hub _).received
      case h_2 => exact h
    case h_11 => exact h.of_eq rfl rfl rfl (fun h => h) rfl rfl
    case h_12 => exact h

theorem writePump (h : Carried id s) (hi : Greeting.Inv id s) : Carried id (Greeting.writePump id s a) := by
  simp only [Greeting.writePump]
  split
  case h_1 hp =>
    split
    case h_2    => exact h
    case h_1 ht => 
      have hr := (BufferedChannel.tryReceive_eq_some ht).right.right
      have ho := h.isOpen
      simp only [hp, Pump.held, List.append_nil] at ho
      rw [Hub.Run.step_read hi.hub ht]
      constructor <;> simp only [Function.update_self, hr, rows_append, Pump.held]
      case left    => exact h.left
      case isOpen  => exact fun hopen => by rw [ho hopen]
      case written => exact h.written.trans <| List.prefix_append ..
      case known   =>
        intro f hm
        have hk := h.known f
        simp only [hp, Pump.held, List.mem_append, List.not_mem_nil, or_false] at hm hk ⊢
        tauto
  case h_2 f ok hp =>
    have ho := h.isOpen
    simp only [hp, Pump.held] at ho
    have hn : (if (s.conn.write f ok).isOpen then Pump.idle else Pump.ended).held = [] := by 
      split <;> rfl
    constructor <;> simp only [hn, List.append_nil]
    case left    => exact h.left
    case isOpen  =>
      intro hopen
      rw [← ho (Bool.and_eq_true_iff.mp hopen).left]
      exact congrArg rows <| if_pos hopen
    case written =>
      simp only [Conn.write]
      split
      case isTrue hopen => rw [ho (Bool.and_eq_true_iff.mp hopen).left]
      case isFalse      => exact h.written
    case known   =>
      intro f' hm
      refine h.known f' ?_
      simp only [hp, Pump.held, List.mem_append, List.mem_singleton] at hm ⊢
      have hc : f' ∈ (s.conn.write f ok).written → f' ∈ s.conn.written ∨ f' = f := mem_write
      simp only [Conn.write] at hm hc
      tauto
  case h_3 hp =>
    split
    case isTrue  => exact h.of_eq rfl rfl rfl (fun ho => absurd ho Bool.false_ne_true) (by rw [hp]; rfl) rfl
    case isFalse => exact h
  case h_4    => exact h

theorem step (h : Carried id s) (hi : Greeting.Inv id s) : Carried id (Greeting.step id s a) := by
  simp only [Greeting.step]
  split
  case h_1 => split <;> exact h.of_eq rfl rfl rfl (fun h => h) rfl rfl
  case h_2 =>
    split
    case h_1 => exact h.of_eq rfl rfl rfl (fun h => h) rfl <| by rw [Hub.Run.step_broadcast hi.hub]
    case h_2 => exact h
  case h_3 =>
    split
    case isTrue he => exact h.of_eq rfl rfl rfl (fun h => h) rfl (Hub.Run.Leaves.step he).received
    case isFalse   => exact h
  case h_4 | h_5 | h_6 => exact h.writePump hi
  case h_7             => exact h.serveWS hi

end Carried

-- The daemon with one connection, and the page on the other end of it. `delivered` counts the messages that have 
-- arrived, and `responses` are the answers to GET /api/snapshot that have not. `effects` keeps what the 
-- page has shown, and `latests` what the builder has had as its latest snapshot.
structure State where
  server    : Greeting.State
  delivered : Nat
  responses : List (Envelope Snapshot)
  page      : Frontend.App
  effects   : List Frontend.App.Effect
  latests   : List Snapshot

def start (mode : Bytes) (maxClients : Int) (storage : Frontend.LocalStorage) (classList : List String) : 
    State where
  server    := Greeting.start mode maxClients
  delivered := 0
  responses := []
  page      := .load storage classList
  effects   := []
  latests   := [emptySnapshot]

inductive Action
  | server (a : Greeting.Action)
  | deliver (now setAt : Int)
  | respond (now : Time)
  | fetched (i : Nat) (now : Int)
  | loadSnapshot (i : Nat) (now : Int)
  | user (x : Frontend.App.Action)

-- What the user does with the page, and what becomes of the connection. A page that is loaded again has 
-- another connection.
def isLocal : Frontend.App.Action → Bool
  | .message .. | .fetched .. | .loadSnapshot .. | .reload _ => false
  | _                                                        => true

def State.show (s : State) (x : Frontend.App.Action) : State :=
  { s with page := s.page.step x, effects := s.effects ++ s.page.effect x }

def step (id : Nat) (s : State) : Action → State
  | .server a           => 
    let server := Greeting.step id s.server a
    { s with server, latests := s.latests ++ [server.builder.latestSnapshot] }
  | .deliver now setAt  =>
    match s.server.conn.written[s.delivered]? with
    | some f => { s.show (.message (.frame f.frame) now setAt) with delivered := s.delivered + 1 }
    | none   => s
  | .respond now        => 
    let snap := marshal now kindSnapshot s.server.mode s.server.builder.latestSnapshot
    { s with responses := s.responses ++ [snap] }
  | .fetched i now      => 
    match s.responses[i]? with
    | some data => { s.show (.fetched data now) with responses := s.responses.eraseIdx i }
    | none      => s
  | .loadSnapshot i now => 
    match s.responses[i]? with
    | some data => { s.show (.loadSnapshot data now) with responses := s.responses.eraseIdx i }
    | none      => s
  | .user x             => if isLocal x then s.show x else s

-- The rows that the page has been sent, and those that it has let through.
def State.sent (s : State) : List EventRow :=
  rows <| s.server.conn.written.take s.delivered

def State.heard (s : State) : List EventRow :=
  Frontend.App.Effect.since Frontend.App.Effect.heard? s.effects

-- The frames that the hub has taken from its queue since the client was registered.
def segment (id : Nat) (hub : Hub.Run.State Stamped) : List Stamped :=
  (hub.registered id).elim [] hub.processed.drop

-- What the goroutine takes from the engines. It takes nothing while it holds a frame.
def taken (s : State) : Action → List Fanout.Event
  | .server (.receive item now) => if s.server.hold.isSome then [] else [.receive item now]
  | _                           => []

-- The builder and the frames are those of the goroutine by itself.
structure Simulates (s : Greeting.State) (fanout : Fanout) : Prop where
  running : fanout.returned = false
  mode    : s.mode = fanout.mode
  builder : s.builder = fanout.builder
  frames  : s.made.map (·.frame) = fanout.broadcasts

-- Once a client is registered, the page is sent the rows that the hub takes from its queue, without a gap, and
-- it shows the last ones.
structure Shows (id : Nat) (s : State) : Prop where
  made     : (rows s.server.hub.processed).Sublist (rows s.server.made)
  sent     : s.sent <+: rows (segment id s.server.hub)
  heard    : s.heard.Sublist s.sent
  events   : s.page.store.events = Frontend.App.recent s.heard
  snapshot : ∀ snap ∈ s.page.store.snapshot, snap ∈ s.latests

section Server

variable {id : Nat} {s : Greeting.State} {a : Greeting.Action} {f : Stamped} {ok : Bool}

-- What has been written stays written.
theorem written_prefix_write {c : Conn} : c.written <+: (c.write f ok).written := by
  simp only [Conn.write]
  split
  case isTrue  => exact List.prefix_append ..
  case isFalse => exact List.prefix_rfl

theorem written_prefix_step : s.conn.written <+: (Greeting.step id s a).conn.written := by
  have hw : ∀ a, s.conn.written <+: (Greeting.writePump id s a).conn.written := by
    intro a
    simp only [Greeting.writePump]
    split
    case h_1 => split <;> exact List.prefix_rfl
    case h_2 => exact written_prefix_write
    case h_3 => split <;> exact List.prefix_rfl
    case h_4 => exact List.prefix_rfl
  simp only [Greeting.step]
  split
  case h_1 | h_2 | h_3 => split <;> exact List.prefix_rfl
  case h_4 | h_5 | h_6 => exact hw _
  case h_7             =>
    simp only [Greeting.serveWS]
    split
    case h_5 | h_10 => split <;> exact List.prefix_rfl
    case h_8        =>
      split
      case h_1 => exact List.prefix_rfl
      case h_2 => exact written_prefix_write
    all_goals exact List.prefix_rfl

theorem stream_sublist_made {s' : Greeting.State} (h : Greeting.Produces s a s') 
    (hs : s.stream.Sublist s.made) : s'.stream.Sublist s'.made := by
  cases h
  case passes hm hp _ => exact hm ▸ hp.sublist.trans hs
  case makes hm he    => exact hm ▸ he ▸ hs.append_right _

end Server

def snapshot? : Frame → Option Snapshot
  | .snapshot e => some e.payload
  | _           => none

-- Each snapshot that has left the builder was its latest one.
structure Latest (s : State) : Prop where
  current  : s.server.builder.latestSnapshot ∈ s.latests
  made     : ∀ f ∈ s.server.made, ∀ snap ∈ snapshot? f.frame, snap ∈ s.latests
  greeting : ∀ g ∈ s.server.conn.greeting, g.snd.payload ∈ s.latests

structure Inv (id : Nat) (s : State) : Prop extends Greeting.Inv id s.server, Carried id s.server, Latest s where
  stream    : s.server.stream.Sublist s.server.made
  delivered : s.delivered ≤ s.server.conn.written.length
  responses : ∀ data ∈ s.responses, data.payload ∈ s.latests
  faithful  : s.page.Faithful s.effects
  heard     : s.heard.Sublist s.sent
  shown     : ∀ p ∈ Frontend.App.Effect.since Frontend.App.Effect.shown? s.effects, p.fst ∈ s.latests

variable {id : Nat} {s s' : State} {a : Action} {as : List Action} {now setAt : Int} {f : Stamped} 
  {x : Frontend.App.Action} {data : Envelope Snapshot} {page : Frontend.App} {mode : Bytes} {maxClients : Int} 
  {storage : Frontend.LocalStorage} {classList : List String}

open Frontend.App (Effect)

theorem Latest.server (h : Latest s) (hi : Greeting.Inv id s.server) {a : Greeting.Action} : 
    Latest (step id s (.server a)) := by
  constructor
  case current  => exact List.mem_append_right _ <| List.mem_singleton_self _
  case greeting =>
    intro g hg
    cases @Greeting.step_greeting id s.server a
    case inl he => exact List.mem_append_left _ <| h.greeting g <| he ▸ hg
    case inr he =>
      have ⟨now, he⟩ := he.greeting
      change g ∈ (Greeting.step id s.server a).conn.greeting at hg
      rw [he] at hg
      cases hg
      exact List.mem_append_left _ h.current
  case made     =>
    intro f hf snap hs
    change f ∈ (Greeting.step id s.server a).made at hf
    cases hi.produces (a := a)
    case passes hm _ _ => exact List.mem_append_left _ <| h.made f (hm ▸ hf) snap hs
    case makes item now f' _ hb hm _ =>
      rw [hm] at hf
      cases List.mem_append.mp hf
      case inl hf => exact List.mem_append_left _ <| h.made f hf snap hs
      case inr hf =>
        rw [List.mem_singleton.mp hf] at hs
        have hf' : f'.frame = (publish s.server.builder s.server.mode now item).snd := congrArg Prod.snd hb
        have hb : (Greeting.step id s.server a).builder = (publish s.server.builder s.server.mode now item).fst := 
          congrArg Prod.fst hb
        rw [hf'] at hs
        refine List.mem_append_right _ <| List.mem_singleton.mpr ?_
        rw [hb]
        cases item
        case snapshot => cases hs; rfl
        case event    => contradiction

theorem segment_subset {hub : Hub.Run.State Stamped} : segment id hub ⊆ hub.processed := by
  rw [segment]
  cases hub.registered id
  case none   => exact List.nil_subset _
  case some k => exact List.drop_subset ..

theorem Inv.segment (h : Inv id s) : 
    (s.server.hub.client id).send.received <+: segment id s.server.hub := by
  have hp := h.hub.phase id
  refine List.IsPrefix.trans (s.server.hub.client id).send.received_prefix_sent ?_
  rw [Browser.segment]
  cases hr : s.server.hub.registered id
  all_goals rw [hr] at hp
  case none   => 
    rw [hp.not_mem.right.right]
    exact List.nil_prefix
  case some k => exact hp.segment

-- A message comes from the hub, or it greets the client.
theorem Inv.latest_of_written (h : Inv id s) (hf : f ∈ s.server.conn.written) : 
    ∀ snap ∈ snapshot? f.frame, snap ∈ s.latests := by
  intro snap hs
  cases h.known f (by simp [hf])
  case inl hm =>
    have hm := s.server.hub.broadcast.received_prefix_sent.subset <| segment_subset <| h.segment.subset hm
    exact h.made f (h.stream.subset <| List.mem_append_left _ hm) snap hs
  case inr hm =>
    have ⟨hello, n, g, _, hg, he⟩ := Conn.greetMsgs_eq (List.ne_nil_of_mem hm)
    rw [he] at hm
    simp only [List.mem_cons, List.not_mem_nil, or_false] at hm
    cases hm
    case inl hm => rw [hm] at hs; contradiction
    case inr hm => 
      rw [hm] at hs
      cases hs
      exact h.greeting _ hg

-- What a message, or an answer, makes the page show.
theorem effect_message (page : Frontend.App) (now setAt : Int) (f : Frame) : 
    let fx := page.effect (.message (.frame f) now setAt)
    .loaded ∉ fx ∧ (fx.filterMap Effect.heard?).Sublist (event? f).toList ∧ 
      (page.store.isPaused = false → fx.filterMap Effect.heard? = (event? f).toList) ∧
      ∀ p ∈ fx.filterMap Effect.shown?, snapshot? f = some p.fst := by
  cases f
  case hello    => simp [Frontend.App.effect, event?]
  case snapshot => 
    simp only [Frontend.App.effect, Frontend.App.shows]
    split
    case isFalse => simp [event?]
    case isTrue  => split <;> simp [Effect.heard?, Effect.shown?, event?, snapshot?]
  case event    =>
    simp only [Frontend.App.effect]
    split <;> simp_all [Effect.heard?, Effect.shown?, event?]

theorem shows_mem (page : Frontend.App) (now : Int) (snap : Snapshot) : 
    .loaded ∉ page.shows snap now ∧ (page.shows snap now).filterMap Effect.heard? = [] ∧ 
      ∀ p ∈ (page.shows snap now).filterMap Effect.shown?, p.fst = snap := by
  simp only [Frontend.App.shows]
  split <;> simp [Effect.heard?, Effect.shown?]

-- The page changes, and the daemon does not.
theorem Inv.show (h : Inv id s) (hl : .loaded ∉ s.page.effect x) 
    (hh : (s.page.effect x).filterMap Effect.heard? = []) 
    (hp : ∀ p ∈ (s.page.effect x).filterMap Effect.shown?, p.fst ∈ s.latests) : Inv id (s.show x) := by
  refine { h with faithful := h.faithful.step, heard := ?_, shown := ?_ }
  case refine_1 =>
    rw [State.heard, State.show, Effect.since_append hl, hh, List.append_nil]
    exact h.heard
  case refine_2 =>
    rw [State.show, Effect.since_append hl]
    intro p hm
    cases List.mem_append.mp hm
    case inl hm => exact h.shown p hm
    case inr hm => exact hp p hm

theorem Inv.of_start : Inv id (start mode maxClients storage classList) where
  toInv      := Greeting.start_inv
  toCarried  := .of_start
  current    := List.mem_singleton_self _
  made       := by simp [start, Greeting.start]
  greeting   := by simp [start, Greeting.start]
  stream     := List.Sublist.refl _
  delivered  := Nat.zero_le _
  responses  := by simp [start]
  faithful   := .of_load
  heard      := List.Sublist.refl _
  shown      := by simp [start, Effect.since]

theorem Inv.server (h : Inv id s) {a : Greeting.Action} : Inv id (step id s (.server a)) where
  toInv        := h.toInv.step
  toCarried    := h.toCarried.step h.toInv
  toLatest     := h.toLatest.server h.toInv
  stream       := stream_sublist_made h.toInv.produces h.stream
  delivered    := h.delivered.trans written_prefix_step.length_le
  responses    := fun data hm => List.mem_append_left _ <| h.responses data hm
  faithful     := h.faithful
  shown p hm   := List.mem_append_left _ <| h.shown p hm
  heard        := by
    have hw : (Greeting.step id s.server a).conn.written.take s.delivered = s.server.conn.written.take s.delivered := by
      have ⟨l, hl⟩ : s.server.conn.written <+: (Greeting.step id s.server a).conn.written := written_prefix_step
      rw [← hl, List.take_append_of_le_length h.delivered]
    change s.heard.Sublist (rows <| (Greeting.step id s.server a).conn.written.take s.delivered)
    rw [hw]
    exact h.heard

theorem sent_succ (hf : s.server.conn.written[s.delivered]? = some f) : 
    rows (s.server.conn.written.take (s.delivered + 1)) = s.sent ++ (event? f.frame).toList := by
  rw [List.take_add_one, hf, rows_append, State.sent]
  cases he : event? f.frame <;> simp [rows, he]

theorem Inv.deliver (h : Inv id s) : Inv id (step id s (.deliver now setAt)) := by
  simp only [step]
  split
  case h_2      => exact h
  case h_1 f hf =>
    have ⟨hl, hh, _, hs⟩ := effect_message s.page now setAt f.frame
    have hw := h.latest_of_written <| List.mem_of_getElem? hf
    have hlt := (List.getElem?_eq_some_iff.mp hf).fst
    have hp := h.faithful.step (x := .message (.frame f.frame) now setAt)
    refine { h with delivered := hlt, faithful := hp, heard := ?_, shown := ?_ }
    case refine_1 =>
      change (Effect.since Effect.heard? (s.effects ++ _)).Sublist (rows <| s.server.conn.written.take (s.delivered + 1))
      rw [sent_succ hf, Effect.since_append hl]
      exact h.heard.append hh
    case refine_2 =>
      rw [State.show, Effect.since_append hl]
      intro p hm
      cases List.mem_append.mp hm
      case inl hm => exact h.shown p hm
      case inr hm => exact hw p.fst <| hs p hm

theorem Inv.withResponses (h : Inv id s) {responses : List (Envelope Snapshot)} 
    (hr : ∀ data ∈ responses, data.payload ∈ s.latests) : Inv id { s with responses } :=
  { h with responses := hr }

theorem Inv.loadSnapshot (h : Inv id s) (hm : data ∈ s.responses) : Inv id (s.show (.loadSnapshot data now)) := by
  have ⟨hl, hh, hs⟩ := shows_mem s.page now data.payload
  exact h.show hl hh fun p hp => hs p hp ▸ h.responses data hm

theorem Inv.fetched (h : Inv id s) (hm : data ∈ s.responses) : Inv id (s.show (.fetched data now)) := by
  have ⟨hl, hh, hs⟩ := shows_mem s.page now data.payload
  by_cases hk : data.kind = kindSnapshot
  case pos => 
    apply h.show <;> simp only [Frontend.App.effect, if_pos hk]
    case hl => exact hl
    case hh => exact hh
    case hp => exact fun p hp => hs p hp ▸ h.responses data hm
  case neg => apply h.show <;> simp [Frontend.App.effect, hk]

theorem effect_of_isLocal (h : isLocal x) : page.effect x = [] := by
  cases x <;> first | rfl | contradiction

theorem Inv.step (h : Inv id s) : Inv id (step id s a) := by
  cases a
  case server a    => exact h.server
  case deliver     => exact h.deliver
  case respond now =>
    refine h.withResponses fun data hm => ?_
    cases List.mem_append.mp hm
    case inl hm => exact h.responses data hm
    case inr hm => exact List.mem_singleton.mp hm ▸ h.current
  case fetched i now =>
    simp only [Browser.step]
    split
    case h_1 data hd => 
      exact (h.fetched <| List.mem_of_getElem? hd).withResponses fun d hm => h.responses d <| List.mem_of_mem_eraseIdx hm
    case h_2         => exact h
  case loadSnapshot i now =>
    simp only [Browser.step]
    split
    case h_1 data hd => 
      exact (h.loadSnapshot <| List.mem_of_getElem? hd).withResponses fun d hm => h.responses d <| List.mem_of_mem_eraseIdx hm
    case h_2         => exact h
  case user x =>
    simp only [Browser.step]
    split
    case isTrue hx => apply h.show <;> simp [effect_of_isLocal hx]
    case isFalse   => exact h

theorem Inv.shows (h : Inv id s) : Shows id s where
  made     := by
    have hs : s.server.hub.processed.Sublist s.server.stream := 
      (s.server.hub.broadcast.received_prefix_sent.trans <| List.prefix_append ..).sublist
    exact (hs.trans h.stream).filterMap _
  sent     := ((List.take_prefix ..).filterMap _).trans <| h.toCarried.written.trans <| h.segment.filterMap _
  heard    := h.heard
  events   := h.faithful.events
  snapshot := by
    intro snap hs
    rw [h.faithful.snapshot] at hs
    have ⟨p, hp, he⟩ := Option.map_eq_some_iff.mp hs
    exact he ▸ h.shown p (List.mem_of_getLast? hp)

-- The rows that the engine emits.
def emitted? : Action → Option EventRow
  | .server (.receive (.event e) _) => some e
  | _                               => none

theorem rows_made_step (hi : Greeting.Inv id s.server) : 
    (rows (step id s a).server.made).Sublist (rows s.server.made ++ (emitted? a).toList) := by
  have hl : ∀ l : List EventRow, (rows s.server.made).Sublist (rows s.server.made ++ l) := 
    fun _ => List.sublist_append_left ..
  cases a
  case server a =>
    change (rows (Greeting.step id s.server a).made).Sublist _
    simp only [Greeting.step]
    split
    case h_1 item now    =>
      split
      case isTrue  => exact hl _
      case isFalse =>
        rw [rows_append]
        cases item <;> exact List.Sublist.refl _
    case h_2 | h_3       => split <;> exact hl _
    case h_4 | h_5 | h_6 => exact hi.writePump_same.made ▸ hl _
    case h_7             => exact hi.serveWS_same.made ▸ hl _
  case respond => exact hl _
  case user    => simp only [step]; split <;> exact hl _
  all_goals simp only [step]; split <;> exact hl _

section Fanout

variable {fanout : Fanout}

theorem step_mode {s : Greeting.State} {a : Greeting.Action} : (Greeting.step id s a).mode = s.mode := by
  have hw : ∀ a, (Greeting.writePump id s a).mode = s.mode := by
    intro a
    simp only [Greeting.writePump]
    split
    case h_1 | h_3 => split <;> rfl
    all_goals rfl
  simp only [Greeting.step]
  split
  case h_1 | h_2 | h_3 => split <;> rfl
  case h_4 | h_5 | h_6 => exact hw _
  case h_7             =>
    simp only [Greeting.serveWS]
    split
    case h_5 | h_8 | h_10 => split <;> rfl
    all_goals rfl

theorem Simulates.of_eq {s s' : Greeting.State} (h : Simulates s fanout) (hb : s'.builder = s.builder) 
    (hm : s'.made = s.made) (hd : s'.mode = s.mode) : Simulates s' fanout :=
  ⟨h.running, hd ▸ h.mode, hb ▸ h.builder, hm ▸ h.frames⟩

theorem Simulates.receive {s : Greeting.State} {item : Item} {now : Time} (h : Simulates s fanout) 
    (hn : s.hold = none) : 
    Simulates (Greeting.step id s (.receive item now)) (fanout.step (.receive item now)) := by
  have ⟨hb, ht⟩ := @publish_fanout fanout item now h.running
  rw [← h.mode, ← h.builder] at hb ht
  simp only [Greeting.step, hn, Option.isSome_none, Bool.false_eq_true, if_false]
  constructor
  case running => cases item <;> simp [Fanout.step, h.running, Fanout.onSnapshot, Fanout.onEvent]
  case mode    => cases item <;> simp [Fanout.step, h.running, Fanout.onSnapshot, Fanout.onEvent, h.mode]
  case builder => exact hb.symm
  case frames  => rw [ht, ← h.frames, List.map_append, List.map_singleton]

theorem Simulates.step (h : Simulates s.server fanout) (hi : Greeting.Inv id s.server) : 
    Simulates (step id s a).server (Execution.exec Fanout.step fanout (taken s a)) := by
  cases a
  case server a =>
    have hm : (Greeting.step id s.server a).mode = s.server.mode := step_mode
    cases a
    case receive item now =>
      simp only [taken]
      split
      case isTrue hs  => 
        have he : Greeting.step id s.server (.receive item now) = s.server := by simp [Greeting.step, hs]
        exact h.of_eq (congrArg _ he) (congrArg _ he) hm
      case isFalse hn => exact @Simulates.receive id _ _ _ _ h <| Option.not_isSome_iff_eq_none.mp hn
    case broadcast | hub =>
      refine h.of_eq ?_ ?_ hm
      all_goals simp only [Browser.step, Greeting.step]; split <;> rfl
    case take | write | endPump => exact h.of_eq hi.writePump_same.builder hi.writePump_same.made hm
    all_goals exact h.of_eq hi.serveWS_same.builder hi.serveWS_same.made hm
  case respond => exact h
  case user    => simp only [Browser.step]; split <;> exact h
  all_goals simp only [Browser.step]; split <;> exact h

end Fanout

-- The page has let everything through.
def Attentive (s : State) : Prop :=
  s.page.store.isPaused = false ∧ s.heard = s.sent

theorem Attentive.show (h : Attentive s) (hx : x ≠ .togglePause) (hl : .loaded ∉ s.page.effect x) 
    (hh : (s.page.effect x).filterMap Effect.heard? = []) : Attentive (s.show x) := by
  refine ⟨(Frontend.App.isPaused_step hx hl).trans h.left, ?_⟩
  rw [State.heard, State.show, Effect.since_append hl, hh, List.append_nil]
  exact h.right

theorem Attentive.step (h : Attentive s) (hi : Inv id s) (ha : a ≠ .user .togglePause) : 
    Attentive (step id s a) := by
  cases a
  case server a    =>
    refine ⟨h.left, h.right.trans ?_⟩
    have ⟨l, hl⟩ : s.server.conn.written <+: (Greeting.step id s.server a).conn.written := written_prefix_step
    change rows _ = rows ((Greeting.step id s.server a).conn.written.take s.delivered)
    rw [← hl, List.take_append_of_le_length hi.delivered]
  case respond now => exact h
  case deliver now setAt =>
    simp only [Browser.step]
    split
    case h_2      => exact h
    case h_1 f hf =>
      have ⟨hl, _, hh, _⟩ := effect_message s.page now setAt f.frame
      have hp := Frontend.App.isPaused_step (x := .message (.frame f.frame) now setAt) nofun hl
      refine ⟨hp.trans h.left, ?_⟩
      change Effect.since Effect.heard? (s.effects ++ _) = rows (s.server.conn.written.take (s.delivered + 1))
      rw [sent_succ hf, Effect.since_append hl, hh h.left, ← h.right, State.heard]
  case fetched i now =>
    simp only [Browser.step]
    split
    case h_2         => exact h
    case h_1 data hd => 
      have ⟨hl, hh, _⟩ := shows_mem s.page now data.payload
      have hs : Attentive (s.show (.fetched data now)) := by
        apply h.show (x := .fetched data now) nofun
        all_goals simp only [Frontend.App.effect]
        all_goals split <;> simp [hl, hh]
      exact hs
  case loadSnapshot i now =>
    simp only [Browser.step]
    split
    case h_2         => exact h
    case h_1 data hd => 
      have ⟨hl, hh, _⟩ := shows_mem s.page now data.payload
      have hs : Attentive (s.show (.loadSnapshot data now)) := h.show (by simp) hl hh
      exact hs
  case user x =>
    simp only [Browser.step]
    split
    case isTrue hx => apply h.show (by simpa using ha) <;> simp [effect_of_isLocal hx]
    case isFalse   => exact h

-- In any run, the page shows events that the engine has emitted, in this order and each of them once, with the 
-- frames that `fanout` makes of them, and misses none that it has been sent if it is never paused.
theorem shows_exec (id : Nat) (mode : Bytes) (maxClients : Int) (storage : Frontend.LocalStorage) 
    (classList : List String) (as : List Action) : 
    let s := Execution.exec (step id) (start mode maxClients storage classList) as
    Shows id s ∧ (rows s.server.made).Sublist (as.filterMap emitted?) ∧ 
      Simulates s.server (Execution.exec Fanout.step (.start mode) <| 
        Execution.outputs (step id) taken (start mode maxClients storage classList) as) ∧ 
      (.user .togglePause ∉ as → s.heard = s.sent) := by
  have h : ∀ as, Inv id (Execution.exec (step id) (start mode maxClients storage classList) as) := 
    fun as => Execution.invariant .of_start fun _ _ => Inv.step
  refine ⟨(h as).shows, ?_, ?_, fun hn => ?_⟩
  case refine_1 =>
    induction as using List.reverseRecOn
    case nil => exact List.Sublist.refl _
    case append_singleton as a hi =>
      rw [Execution.exec_concat, List.filterMap_append]
      refine (rows_made_step (h as).toInv).trans ?_
      cases he : emitted? a <;> simpa [he] using hi
  case refine_2 =>
    induction as using List.reverseRecOn
    case nil => exact ⟨rfl, rfl, rfl, rfl⟩
    case append_singleton as a hi =>
      rw [Execution.exec_concat, Execution.outputs_concat, Execution.exec_append]
      exact hi.step (h as).toInv
  case refine_3 =>
    suffices ha : Attentive (Execution.exec (step id) (start mode maxClients storage classList) as) from ha.right
    induction as using List.reverseRecOn
    case nil => exact ⟨rfl, rfl⟩
    case append_singleton as a hi =>
      rw [List.mem_append, not_or, List.mem_singleton] at hn
      rw [Execution.exec_concat]
      exact (hi hn.left).step (h as) (Ne.symm hn.right)

end Agentscope.Browser
