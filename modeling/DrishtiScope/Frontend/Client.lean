import DrishtiScope.Lib.Execution
import Mathlib.Data.List.Induction
import Mathlib.Tactic.Common

-- The connection of the UI to the daemon.
namespace Frontend

inductive ConnectionStatus
  | connecting
  | connected
  | reconnecting
  | offline
  deriving DecidableEq

inductive ReadyState
  | connecting
  | open
  | closing
  | closed
  deriving DecidableEq

-- A socket of the browser, and whether its close event has been delivered.
structure WebSocket where
  readyState : ReadyState
  reported   : Bool

namespace WebSocket

def new : WebSocket :=
  ⟨.connecting, false⟩

-- A socket that is not closed or closing.
def isLive (ws : WebSocket) : Bool :=
  ws.readyState = .connecting || ws.readyState = .open

-- `close()` takes its time.
def close (ws : WebSocket) : WebSocket :=
  if ws.isLive then { ws with readyState := .closing } else ws

end WebSocket

-- All sockets that the client has created, the index of the current one, and the timers that have not
-- expired.
structure WebSocketClient where
  sockets               : List WebSocket
  ws                    : Option Nat
  reconnectAttempts     : Nat
  intentionalDisconnect : Bool
  timers                : List Nat
  statusChanges         : List ConnectionStatus

namespace WebSocketClient

def new : WebSocketClient where
  sockets               := []
  ws                    := none
  reconnectAttempts     := 0
  intentionalDisconnect := false
  timers                := []
  statusChanges         := []

def onStatusChange (c : WebSocketClient) (status : ConnectionStatus) : WebSocketClient :=
  { c with statusChanges := c.statusChanges ++ [status] }

def connect (c : WebSocketClient) : WebSocketClient :=
  let c := { c with intentionalDisconnect := false }
  let c := c.onStatusChange (if c.reconnectAttempts = 0 then .connecting else .reconnecting)
  { c with ws := some c.sockets.length, sockets := c.sockets ++ [.new] }

-- `this.ws?.close()`.
def closeCurrent (c : WebSocketClient) : WebSocketClient :=
  { c with sockets := c.ws.elim c.sockets fun i => c.sockets.modify i .close }

def disconnect (c : WebSocketClient) : WebSocketClient :=
  let c := { c with intentionalDisconnect := true }
  { c.closeCurrent with ws := none }

def scheduleReconnect (c : WebSocketClient) : WebSocketClient :=
  let delay :=
    if c.reconnectAttempts = 1 then 1000
    else if c.reconnectAttempts = 2 then 2000
    else if 3 ≤ c.reconnectAttempts then 5000
    else 500
  { c with reconnectAttempts := c.reconnectAttempts + 1, timers := c.timers ++ [delay] }

def onopen (c : WebSocketClient) : WebSocketClient :=
  { c.onStatusChange .connected with reconnectAttempts := 0 }

def onclose (c : WebSocketClient) : WebSocketClient :=
  if c.intentionalDisconnect then c.onStatusChange .offline else c.scheduleReconnect

def onerror (c : WebSocketClient) : WebSocketClient :=
  c.closeCurrent

-- What the owner calls, and what the browser does with a socket or a timer.
inductive Event
  | connect
  | disconnect
  | open (i : Nat)
  | error (i : Nat)
  | close (i : Nat)
  | expire (k : Nat)

def Event.isBrowser : Event → Bool
  | connect | disconnect => false
  | _                    => true

-- Whether the owner has called `disconnect()` since it last called `connect()`.
structure State where
  client       : WebSocketClient
  disconnected : Bool

def start : State :=
  ⟨.new, false⟩

-- An event of the socket. Its handlers run when the state of the socket has changed.
def deliver (c : WebSocketClient) (i : Nat) (possible : WebSocket → Bool) 
    (change : WebSocket → WebSocket) (handler : WebSocketClient → WebSocketClient) : WebSocketClient :=
  if c.sockets[i]?.any possible then 
    handler { c with sockets := c.sockets.modify i change } 
  else 
    c

def openEvent (c : WebSocketClient) (i : Nat) : WebSocketClient :=
  c.deliver i (·.readyState = .connecting) ({ · with readyState := .open }) onopen

def errorEvent (c : WebSocketClient) (i : Nat) : WebSocketClient :=
  c.deliver i (!·.reported) ({ · with readyState := .closed }) onerror

def closeEvent (c : WebSocketClient) (i : Nat) : WebSocketClient :=
  c.deliver i (!·.reported) (fun _ => ⟨.closed, true⟩) onclose

def expire (c : WebSocketClient) (k : Nat) : WebSocketClient :=
  if k < c.timers.length then connect { c with timers := c.timers.eraseIdx k } else c

def step (s : State) : Event → State
  | .connect    => ⟨s.client.connect, false⟩
  | .disconnect => ⟨s.client.disconnect, true⟩
  | .open i     => { s with client := s.client.openEvent i }
  | .error i    => { s with client := s.client.errorEvent i }
  | .close i    => { s with client := s.client.closeEvent i }
  | .expire k   => { s with client := s.client.expire k }

-- The socket is there and has the property.
def Has (P : WebSocket → Bool) (sockets : List WebSocket) (i : Nat) : Prop :=
  sockets[i]?.any P

-- There is at most one live socket, and no new one unless the owner wants it.
structure Safe (s : State) (e : Event) : Prop where
  one     : ∀ i j, Has (·.isLive) (step s e).client.sockets i → 
    Has (·.isLive) (step s e).client.sockets j → i = j
  desired : (step s e).disconnected → (step s e).client.sockets.length = s.client.sockets.length

-- The owner connects when the last socket has reported its end and no reconnect is due, and disconnects
-- when no reconnect is due.
def Careful (s : State) : Event → Prop
  | .connect    => (∀ ws ∈ s.client.sockets, ws.reported) ∧ s.client.timers = []
  | .disconnect => s.client.timers = []
  | _           => True

-- Wherever the owner stops, and however the browser goes on.
def Robust (es : List Event) : Prop :=
  ∀ es₁ bs, es₁ <+: es → (∀ b ∈ bs, b.isBrowser) → Execution.Always step Safe start (es₁ ++ bs)

variable {c : WebSocketClient} {sockets : List WebSocket} {P Q : WebSocket → Bool} 
         {f : WebSocket → WebSocket} {i j k : Nat} {s : State} {e : Event} {es bs : List Event}

-- The close event of the socket is still to come.
abbrev pending (ws : WebSocket) : Bool :=
  !ws.reported

theorem Has.mono (h : Has P sockets i) (hpq : ∀ ws, P ws → Q ws) : Has Q sockets i := by
  simp only [Has, Option.any_eq_true] at h ⊢
  exact h.imp fun ws hw => ⟨hw.left, hpq ws hw.right⟩

theorem not_has (hp : ∀ ws, ¬P ws) : ¬Has P sockets i := by
  simp only [Has, Option.any_eq_true, not_exists, not_and]
  exact fun ws _ => hp ws

theorem has_modify : 
    Has P (sockets.modify i f) j ↔ if j = i then Has (P <| f ·) sockets j else Has P sockets j := by
  simp only [Has, List.getElem?_modify]
  by_cases h : i = j
  case pos => cases sockets[j]? <;> simp [h]
  case neg => simp [h, Ne.symm h]

theorem Has.of_modify (h : Has P (sockets.modify i f) j) (hf : ∀ ws, P (f ws) → P ws) : 
    Has P sockets j := by
  rw [has_modify] at h
  split at h
  case isTrue  => exact h.mono hf
  case isFalse => exact h

theorem has_append : Has P (sockets ++ [.new]) i ↔ Has P sockets i ∨ (i = sockets.length ∧ P .new) := by
  simp only [Has]
  rcases Nat.lt_trichotomy i sockets.length with h | h | h
  · simp [List.getElem?_append_left h, Nat.ne_of_lt h]
  · simp [h]
  · have hi : i - sockets.length ≠ 0 := Nat.sub_ne_zero_of_lt h
    have hl := Nat.le_of_lt h
    simp [List.getElem?_append_right hl, Nat.ne_of_gt h, List.getElem?_eq_none hl, hi]

theorem pending_close {ws : WebSocket} : pending ws.close = pending ws := by
  rw [WebSocket.close]
  split <;> rfl

theorem isLive_close {ws : WebSocket} (h : ws.close.isLive) : ws.isLive := by
  by_contra hn
  rw [WebSocket.close, if_neg hn] at h
  exact hn h

theorem has_pending_closeCurrent : Has pending c.closeCurrent.sockets i ↔ Has pending c.sockets i := by
  simp only [closeCurrent]
  cases c.ws
  case none   => rfl
  case some j => simp only [Option.elim_some, has_modify, pending_close, ite_self]

theorem has_isLive_closeCurrent (h : Has (·.isLive) c.closeCurrent.sockets i) : 
    Has (·.isLive) c.sockets i := by
  simp only [closeCurrent] at h
  cases hw : c.ws
  case none   => simpa [hw] using h
  case some j =>
    simp only [hw, Option.elim_some] at h
    exact h.of_modify fun _ => isLive_close

theorem length_closeCurrent : c.closeCurrent.sockets.length = c.sockets.length := by
  simp only [closeCurrent]
  cases c.ws
  case none   => rfl
  case some j => simp

theorem not_has_pending (h : ∀ ws ∈ sockets, ws.reported) : ¬Has pending sockets i := by
  simp only [Has, Option.any_eq_true, not_exists, not_and]
  intro ws hw
  simp [h ws (List.mem_of_getElem? hw)]

-- There is one socket whose end is awaited, or one reconnect that is due, or the owner has to act.
structure Inv (s : State) : Prop where
  one          : ∀ i j, Has pending s.client.sockets i → Has pending s.client.sockets j → i = j
  live         : ∀ i, Has (·.isLive) s.client.sockets i → Has pending s.client.sockets i
  timers       : s.client.timers.length ≤ 1
  due          : s.client.timers ≠ [] → ∀ i, ¬Has pending s.client.sockets i
  intended     : s.client.intentionalDisconnect → s.client.timers = []
  disconnected : s.disconnected → s.client.intentionalDisconnect

theorem inv_start : Inv start := by
  constructor <;> simp [start, new, Has]

namespace Inv

-- A connection is opened while everything is quiet.
theorem connect (h : Inv s) (hp : ∀ i, ¬Has pending s.client.sockets i) 
    (hc : c.sockets = s.client.sockets) (ht : c.timers = []) : Inv ⟨c.connect, false⟩ := by
  have hs : c.connect.sockets = s.client.sockets ++ [.new] := congrArg (· ++ [WebSocket.new]) hc
  have ht : c.connect.timers = [] := ht
  constructor
  case one          => 
    intro i j hi hj
    simp only [hs, has_append, hp, false_or] at hi hj
    exact hi.left.trans hj.left.symm
  case live         =>
    intro i hi
    rw [hs, has_append] at hi ⊢
    exact hi.imp (h.live i) fun hi => ⟨hi.left, rfl⟩
  case timers       => simp [ht]
  case due          => exact fun hn => absurd ht hn
  case intended     => exact fun _ => ht
  case disconnected => simp

-- A socket is closed, or is told to close.
theorem shrink (h : Inv s) (hp : ∀ i, Has pending c.sockets i → Has pending s.client.sockets i) 
    (hl : ∀ i, Has (·.isLive) c.sockets i → Has pending c.sockets i) (ht : c.timers = s.client.timers) 
    (hi : c.intentionalDisconnect = s.client.intentionalDisconnect) : Inv ⟨c, s.disconnected⟩ where
  one i j hi hj := h.one i j (hp i hi) (hp j hj)
  live          := hl
  timers        := ht ▸ h.timers
  due hn i hi   := h.due (ht ▸ hn) i (hp i hi)
  intended hd   := ht ▸ h.intended (hi ▸ hd)
  disconnected hd := hi ▸ h.disconnected hd

theorem disconnect (h : Inv s) (ht : s.client.timers = []) : Inv ⟨s.client.disconnect, true⟩ where
  one i j hi hj  := h.one i j (has_pending_closeCurrent.mp hi) (has_pending_closeCurrent.mp hj)
  live i hi      := has_pending_closeCurrent.mpr <| h.live i <| has_isLive_closeCurrent hi
  timers         := Nat.le_trans (Nat.le_of_eq <| congrArg List.length ht) (Nat.zero_le 1)
  due hn         := absurd ht hn
  intended _     := ht
  disconnected _ := rfl

theorem openEvent (h : Inv s) (hi : Has (·.readyState = .connecting) s.client.sockets i) : 
    Inv ⟨onopen { s.client with 
      sockets := s.client.sockets.modify i ({ · with readyState := .open }) }, s.disconnected⟩ := by
  have hp : Has pending s.client.sockets i := h.live i <| hi.mono fun ws hw => by
    simp only [decide_eq_true_eq] at hw
    simp [WebSocket.isLive, hw]
  refine h.shrink (fun j hj => hj.of_modify fun _ => id) (fun j hj => ?_) rfl rfl
  change Has _ (s.client.sockets.modify i _) j at hj ⊢
  rw [has_modify] at hj ⊢
  split
  case isTrue he  => exact he ▸ hp
  case isFalse hn => 
    rw [if_neg hn] at hj
    exact h.live j hj

theorem errorEvent (h : Inv s) : 
    Inv ⟨onerror { s.client with 
      sockets := s.client.sockets.modify i ({ · with readyState := .closed }) }, s.disconnected⟩ := by
  refine h.shrink (fun j hj => ?_) (fun j hj => ?_) rfl rfl
  case refine_1 => exact (has_pending_closeCurrent.mp hj).of_modify fun _ => id
  case refine_2 =>
    refine has_pending_closeCurrent.mpr ?_
    have hj := has_isLive_closeCurrent hj
    rw [has_modify] at hj ⊢
    split
    case isTrue he  => 
      rw [if_pos he] at hj
      exact absurd hj <| not_has fun _ => by simp [WebSocket.isLive]
    case isFalse hn =>
      rw [if_neg hn] at hj
      exact h.live j hj

theorem closeEvent (h : Inv s) (hi : Has pending s.client.sockets i) : 
    Inv ⟨onclose { s.client with 
      sockets := s.client.sockets.modify i fun _ => ⟨.closed, true⟩ }, s.disconnected⟩ := by
  have ht : s.client.timers = [] := by
    by_contra hn
    exact h.due hn i hi
  -- No other socket is waiting.
  have hp (j : Nat) : ¬Has pending (s.client.sockets.modify i fun _ => ⟨.closed, true⟩) j := by
    rw [has_modify]
    split
    case isTrue     => exact not_has fun _ => by simp
    case isFalse hn => exact fun hj => hn <| h.one j i hj hi
  have hl (j : Nat) : ¬Has (·.isLive) (s.client.sockets.modify i fun _ => ⟨.closed, true⟩) j := by
    rw [has_modify]
    split
    case isTrue     => exact not_has fun _ => by simp [WebSocket.isLive]
    case isFalse hn => exact fun hj => hn <| h.one j i (h.live j hj) hi
  simp only [onclose]
  split
  case isTrue  => exact h.shrink (fun j hj => absurd hj (hp j)) (fun j hj => absurd hj (hl j)) rfl rfl
  case isFalse hd =>
    constructor
    case one          => exact fun j _ hj => absurd hj (hp j)
    case live         => exact fun j hj => absurd hj (hl j)
    case timers       => simp [scheduleReconnect, ht]
    case due          => exact fun _ => hp
    case intended     => exact fun hi => absurd hi hd
    case disconnected => exact h.disconnected

theorem expire (h : Inv s) (hk : k < s.client.timers.length) : 
    s.disconnected = false ∧ Inv ⟨(s.client.expire k), false⟩ := by
  have ht : s.client.timers ≠ [] := List.ne_nil_of_length_pos <| Nat.zero_lt_of_lt hk
  have hd : s.disconnected = false := by
    by_contra hd
    exact ht <| h.intended <| h.disconnected <| by simpa using hd
  have he : s.client.timers.eraseIdx k = [] := by
    rw [← List.length_eq_zero_iff, List.length_eraseIdx_of_lt hk]
    have := h.timers
    omega
  rw [WebSocketClient.expire, if_pos hk]
  exact ⟨hd, h.connect (h.due ht) rfl he⟩

end Inv

-- An event that is not possible has no effect.
theorem deliver_cases {possible : WebSocket → Bool} {handler : WebSocketClient → WebSocketClient} : 
    c.deliver i possible f handler = c ∨ (Has possible c.sockets i ∧ 
      c.deliver i possible f handler = handler { c with sockets := c.sockets.modify i f }) := by
  rw [deliver]
  split
  case isTrue h => exact .inr ⟨h, rfl⟩
  case isFalse  => exact .inl rfl

theorem Inv.deliver {possible : WebSocket → Bool} {handler : WebSocketClient → WebSocketClient} 
    (h : Inv s) (hh : Has possible s.client.sockets i → 
      Inv ⟨handler { s.client with sockets := s.client.sockets.modify i f }, s.disconnected⟩) : 
    Inv ⟨s.client.deliver i possible f handler, s.disconnected⟩ := by
  obtain he | ⟨hi, he⟩ := deliver_cases (c := s.client) (i := i)
  · rwa [he]
  · rw [he]
    exact hh hi

theorem Inv.step (h : Inv s) (hc : Careful s e) : Inv (step s e) := by
  cases e <;> simp only [WebSocketClient.step]
  case connect    => exact h.connect (fun _ => not_has_pending hc.left) rfl hc.right
  case disconnect => exact h.disconnect hc
  case «open» i   => exact h.deliver h.openEvent
  case error i    => exact h.deliver fun _ => h.errorEvent
  case close i    => exact h.deliver h.closeEvent
  case expire k   =>
    by_cases hk : k < s.client.timers.length
    case pos =>
      have ⟨hd, hi⟩ := h.expire hk
      rwa [hd]
    case neg => rwa [WebSocketClient.expire, if_neg hk]

-- Browser events open no sockets, except that a reconnect may be due.
theorem length_deliver {possible : WebSocket → Bool} {handler : WebSocketClient → WebSocketClient} 
    (hh : ∀ c, (handler c).sockets.length = c.sockets.length) : 
    (c.deliver i possible f handler).sockets.length = c.sockets.length := by
  obtain he | ⟨_, he⟩ := deliver_cases (c := c) (i := i)
  · rw [he]
  · rw [he, hh, List.length_modify]

theorem Inv.safe (h : Inv s) (hc : Careful s e) : Safe s e where
  one i j hi hj := (h.step hc).one i j ((h.step hc).live i hi) ((h.step hc).live j hj)
  desired hd    := by
    cases e <;> simp only [WebSocketClient.step] at hd ⊢
    case connect    => contradiction
    case disconnect => exact length_closeCurrent
    case «open» i   => exact length_deliver fun _ => rfl
    case error i    => exact length_deliver fun _ => length_closeCurrent
    case close i    => 
      refine length_deliver fun c => ?_
      rw [onclose]
      split <;> rfl
    case expire k   =>
      by_cases hk : k < s.client.timers.length
      case pos => simp [(h.expire hk).left] at hd
      case neg => rw [WebSocketClient.expire, if_neg hk]

theorem careful_of_isBrowser (h : e.isBrowser) : Careful s e := by
  cases e
  case connect    => contradiction
  case disconnect => contradiction
  all_goals trivial

theorem always_safe (h : Execution.Always step Careful start es) : 
    Execution.Always step Safe start es :=
  h.imp inv_start (fun _ _ => Inv.step) fun _ _ => Inv.safe

theorem robust_of_careful (h : Execution.Always step Careful start es) : Robust es := by
  intro es₁ bs ⟨es₂, he⟩ hb
  rw [← he, Execution.Always.append_iff] at h
  refine always_safe <| Execution.Always.append_iff.mpr ⟨h.left, ?_⟩
  generalize Execution.exec step start es₁ = s
  induction bs generalizing s
  case nil          => trivial
  case cons b bs hi =>
    exact ⟨careful_of_isBrowser <| hb b List.mem_cons_self, 
      hi (fun b hm => hb b <| List.mem_cons_of_mem _ hm) _⟩

theorem Has.lt_length (h : Has P sockets i) : i < sockets.length := by
  by_contra hn
  simp [Has, List.getElem?_eq_none (Nat.le_of_not_lt hn)] at h

theorem sockets_expire (ht : s.client.timers ≠ []) : 
    (step s (.expire 0)).client.sockets = s.client.sockets ++ [.new] := by
  rw [step, expire, if_pos <| List.length_pos_iff.mpr ht]
  rfl

-- A reconnect that is due creates a socket next to the one that is there.
theorem not_safe_expire (ht : s.client.timers ≠ []) (hl : Has (·.isLive) s.client.sockets i) : 
    ¬Safe s (.expire 0) := by
  intro h
  have ho := h.one
  rw [sockets_expire ht] at ho
  have hi := ho i s.client.sockets.length (has_append.mpr <| .inl hl) (has_append.mpr <| .inr ⟨rfl, rfl⟩)
  exact absurd hl.lt_length (by simp [hi])

-- It also creates one after the owner has disconnected.
theorem not_safe_expire_disconnected (ht : s.client.timers ≠ []) (hd : s.disconnected) : 
    ¬Safe s (.expire 0) := by
  intro h
  have hl := sockets_expire ht ▸ h.desired hd
  simp at hl

theorem has_connect : Has (·.isLive) s.client.connect.sockets s.client.sockets.length :=
  has_append.mpr <| .inr ⟨rfl, rfl⟩

-- The end of an old socket is taken for the end of the new one.
theorem closeEvent_connect (hi : Has pending s.client.sockets i) : 
    (s.client.connect.closeEvent i).timers ≠ [] ∧ 
    Has (·.isLive) (s.client.connect.closeEvent i).sockets s.client.sockets.length := by
  have hp : Has pending s.client.connect.sockets i := has_append.mpr <| .inl hi
  have he : s.client.connect.closeEvent i = scheduleReconnect { s.client.connect with 
      sockets := s.client.connect.sockets.modify i fun _ => ⟨.closed, true⟩ } := 
    if_pos hp
  have hn : s.client.sockets.length ≠ i := fun he => absurd hi.lt_length (by simp [he])
  rw [he]
  refine ⟨by simp [scheduleReconnect], ?_⟩
  change Has _ (s.client.connect.sockets.modify i _) _
  rw [has_modify, if_neg hn]
  exact has_connect

-- Where the owner is careless, the browser can go on in such a way that the client is unsafe.
theorem exists_not_safe (h : ¬Careful s e) : 
    ∃ bs : List Event, (∀ b ∈ bs, b.isBrowser) ∧ ¬Execution.Always step Safe s (e :: bs) := by
  cases e <;> simp only [Careful, not_and_or, not_true_eq_false] at h
  case connect    =>
    cases h
    case inl hr =>
      have ⟨ws, hm, hw⟩ : ∃ ws ∈ s.client.sockets, ¬ws.reported := by simpa using hr
      have ⟨i, hi⟩ := List.getElem?_of_mem hm
      have hi : Has pending s.client.sockets i := by simp [Has, hi, hw]
      have ⟨ht, hl⟩ := closeEvent_connect hi
      exact ⟨[.close i, .expire 0], by simp [Event.isBrowser], 
        fun ⟨_, _, hs, _⟩ => not_safe_expire (s := step (step s .connect) (.close i)) ht hl hs⟩
    case inr ht =>
      exact ⟨[.expire 0], by simp [Event.isBrowser], 
        fun ⟨_, hs, _⟩ => not_safe_expire (s := step s .connect) ht has_connect hs⟩
  case disconnect =>
    exact ⟨[.expire 0], by simp [Event.isBrowser], 
      fun ⟨_, hs, _⟩ => not_safe_expire_disconnected (s := step s .disconnect) h rfl hs⟩

theorem Robust.of_concat (h : Robust (es ++ [e])) : Robust es :=
  fun es₁ bs hp => h es₁ bs <| hp.trans <| List.prefix_append ..

theorem robust_iff_careful : Robust es ↔ Execution.Always step Careful start es := by
  refine ⟨fun h => ?_, robust_of_careful⟩
  induction es using List.reverseRecOn
  case nil => trivial
  case append_singleton es e hi =>
    refine Execution.Always.concat_iff.mpr ⟨hi h.of_concat, ?_⟩
    by_contra hc
    have ⟨bs, hb, hn⟩ := exists_not_safe hc
    have hs := h (es ++ [e]) bs List.prefix_rfl hb
    rw [List.append_assoc, Execution.Always.append_iff] at hs
    exact hn hs.right

-- The connection is lost, and the owner gives up before the client tries again.
def unmounted : List Event :=
  [.connect, .error 0, .close 0, .disconnect, .expire 0]

theorem not_safe_unmounted : ¬∀ es, Execution.Always step Safe start es := by
  intro h
  have ⟨_, _, _, _, hs, _⟩ := h unmounted
  exact absurd (hs.desired rfl) (by decide)

end WebSocketClient
end Frontend
