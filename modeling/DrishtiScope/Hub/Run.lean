import DrishtiScope.Hub.Hub
import DrishtiScope.Lib.BufferedChannel
import DrishtiScope.Lib.Execution
import Mathlib.Logic.Function.Basic

-- The goroutine that distributes the frames, and those that talk to it.
namespace Hub.Run

-- A client as the hub sees it.
structure Client (φ : Type) where
  send   : BufferedChannel φ
  closed : Bool

-- Where the goroutine stands: at the `select`, in the loop that sends a frame to the clients (with those
-- that are left), in the loop of `closeAll`, or after its end.
inductive Loop (φ : Type)
  | select
  | range (message : φ) (rest : List Nat)
  | closing
  | returned

-- The hub does not look into the frames. `registered` keeps how many frames it had taken from its queue
-- when the client was registered.
structure State (φ : Type) extends Hub where
  clients    : List Nat
  client     : Nat → Client φ
  broadcast  : BufferedChannel φ
  cancelled  : Bool
  loop       : Loop φ
  panicked   : Bool
  registered : Nat → Option Nat

variable {φ : Type}

-- The capacity of a client's channel is up to the one who registers it.
def start (maxClients : Int) (capacity : Nat → Nat) : State φ where
  toHub        := newHub maxClients
  clients      := []
  client id    := ⟨.make (capacity id), false⟩
  broadcast    := .make 256
  cancelled    := false
  loop         := .select
  panicked     := false
  registered _ := none

inductive Event (φ : Type)
  | broadcast (message : φ)
  | cancel
  | read (id : Nat)
  | register (id : Nat)
  | unregister (id : Nat)
  | receive
  | done
  | next (id : Nat)
  | endLoop

-- `close` panics if the channel has already been closed.
def closeSend (s : State φ) (id : Nat) : State φ :=
  if (s.client id).closed then
    { s with panicked := true }
  else
    { s with client := Function.update s.client id { s.client id with closed := true } }

def setCount (s : State φ) : State φ :=
  { s with count := s.clients.length }

def drop (s : State φ) (id : Nat) : State φ :=
  if id ∈ s.clients then
    setCount (closeSend { s with clients := s.clients.erase id } id)
  else
    s

-- A client is registered once.
def register (s : State φ) (id : Nat) : State φ :=
  if s.registered id ≠ none then
    s
  else
    let s := { s with 
      registered := Function.update s.registered id (some s.broadcast.received.length) }
    if s.max ≤ s.clients.length then
      closeSend s id
    else
      setCount { s with clients := s.clients ++ [id] }

-- A send on a closed channel panics. A client that is too slow is dropped.
def deliver (s : State φ) (id : Nat) (message : φ) : State φ :=
  let c := s.client id
  if c.closed then
    { s with panicked := true }
  else if c.send.HasRoom then
    { s with client := Function.update s.client id { c with send := c.send.trySend message } }
  else
    drop s id

def closeNext (s : State φ) (id : Nat) : State φ :=
  if id ∈ s.clients then
    { closeSend s id with clients := s.clients.erase id }
  else
    s

def receive (s : State φ) : State φ :=
  match s.broadcast.tryReceive with
  | some (message, broadcast) => { s with broadcast, loop := .range message s.clients }
  | none                      => s

-- The `select` takes one of the cases that are ready, and the loops over the map visit the clients in
-- any order.
def run (s : State φ) (e : Event φ) : State φ :=
  match s.loop, e with
  | .select, .register id          => register s id
  | .select, .unregister id        => drop s id
  | .select, .receive              => receive s
  | .select, .done                 => if s.cancelled then { s with loop := .closing } else s
  | .range message rest, .next id  => 
    if id ∈ rest then { deliver s id message with loop := .range message (rest.erase id) } else s
  | .range _ [], .endLoop          => { s with loop := .select }
  | .closing, .next id             => closeNext s id
  | .closing, .endLoop             => 
    if s.clients = [] then { s with count := 0, loop := .returned } else s
  | _, _                           => s

-- The writer of a client takes the oldest frame.
def read (s : State φ) (id : Nat) : State φ :=
  match (s.client id).send.tryReceive with
  | some (_, send) => { s with client := Function.update s.client id { s.client id with send } }
  | none           => s

def step (s : State φ) (e : Event φ) : State φ :=
  if s.panicked then s else
    match e with
    | .broadcast message => { s with broadcast := s.broadcast.trySend message }
    | .cancel            => { s with cancelled := true }
    | .read id           => read s id
    | e                  => run s e

section Invariant

variable {s : State φ} {e : Event φ} {c : Client φ} {id j k : Nat} {message : φ} {maxClients : Int} 
         {capacity : Nat → Nat} {es : List (Event φ)} {rest : List Nat} {count : Int} {loop : Loop φ}
         {registered : Option Nat} {taken left left' : List φ} {mem mem' : Prop}

-- The frames that have been put into the channel of a client.
abbrev State.frames (s : State φ) (id : Nat) : List φ :=
  (s.client id).send.sent

-- The frames that have been taken from the queue.
abbrev State.processed (s : State φ) : List φ :=
  s.broadcast.received

-- The frame that is still to be sent to a client.
def Loop.pending (id : Nat) : Loop φ → List φ
  | .range message rest => if id ∈ rest then [message] else []
  | _                   => []

-- The life of a client: a number that has not been used yet, a client in the map, and one that has been
-- rejected or dropped. The frames start with the first one after its registration.
inductive Client.Phase (mem : Prop) (registered : Option Nat) (taken left : List φ) 
    (c : Client φ) : Prop
  | fresh (hm : ¬mem) (hr : registered = none) (ho : c.closed = false) (hf : c.send.sent = [])
  | active (hm : mem) (k : Nat) (hr : registered = some k) (hk : k ≤ taken.length) 
    (ho : c.closed = false) (hf : c.send.sent ++ left = taken.drop k)
  | gone (hm : ¬mem) (k : Nat) (hr : registered = some k) (hk : k ≤ taken.length) 
    (hc : c.closed = true) (hf : c.send.sent <+: taken.drop k)

namespace Client.Phase

theorem congr (h : c.Phase mem registered taken left) (hm : mem' ↔ mem) : 
    c.Phase mem' registered taken left :=
  propext hm ▸ h

theorem opened (h : c.Phase mem registered taken left) (hm : mem) : c.closed = false := by
  cases h
  case fresh hm'    => contradiction
  case active ho _  => exact ho
  case gone hm' _ _ => contradiction

theorem not_mem (h : c.Phase mem none taken left) : 
    ¬mem ∧ c.closed = false ∧ c.send.sent = [] := by
  cases h
  case fresh hm _ ho hf => exact ⟨hm, ho, hf⟩
  all_goals contradiction

theorem leave (h : c.Phase mem registered taken left) (hm : mem) (hm' : ¬mem') : 
    { c with closed := true }.Phase mem' registered taken left' := by
  cases h
  case fresh            => contradiction
  case gone             => contradiction
  case active k hr hk _ hf => exact .gone hm' k hr hk rfl (hf ▸ List.prefix_append ..)

-- The next frame is taken from the queue.
theorem receive (h : c.Phase mem registered taken []) (hp : mem → left = [message]) : 
    c.Phase mem registered (taken ++ [message]) left := by
  cases h
  case fresh hm hr ho hf      => exact .fresh hm hr ho hf
  case active hm k hr hk ho hf => 
    refine .active hm k hr (by rw [List.length_append]; omega) ho ?_
    rw [hp hm, List.drop_append_of_le_length hk, ← hf, List.append_nil]
  case gone hm k hr hk hc hf  => 
    refine .gone hm k hr (by rw [List.length_append]; omega) hc ?_
    rw [List.drop_append_of_le_length hk]
    exact hf.trans (List.prefix_append ..)

-- The frame that was left has been sent.
theorem sent {c' : Client φ} (h : c.Phase mem registered taken left) (hm : mem) (ho : c'.closed = c.closed)
    (hf : c'.send.sent ++ left' = c.send.sent ++ left) : c'.Phase mem registered taken left' := by
  cases h
  case fresh                      => contradiction
  case gone                       => contradiction
  case active k hr hk hc hf' => exact .active hm k hr hk (ho.trans hc) (hf.trans hf')

theorem of_sent_eq {c' : Client φ} (h : c.Phase mem registered taken left) 
    (hf : c'.send.sent = c.send.sent) (ho : c'.closed = c.closed) : c'.Phase mem registered taken left := by
  cases h
  case fresh hm hr hc hf'       => exact .fresh hm hr (ho.trans hc) (hf.trans hf')
  case active hm k hr hk hc hf' => exact .active hm k hr hk (ho.trans hc) (by rw [hf, hf'])
  case gone hm k hr hk hc hf'   => exact .gone hm k hr hk (ho.trans hc) (by rw [hf]; exact hf')

theorem segment (h : c.Phase mem (some k) taken left) : c.send.sent <+: taken.drop k := by
  cases h
  case fresh                  => contradiction
  case active k hr hk hc hf   => cases hr; exact hf ▸ List.prefix_append ..
  case gone k hr hk hc hf     => cases hr; exact hf

theorem sent_append (h : c.Phase mem (some k) taken left) (hm : mem) : 
    c.send.sent ++ left = taken.drop k := by
  cases h
  case fresh                => contradiction
  case active k hr hk hc hf => cases hr; exact hf
  case gone                 => contradiction

theorem le_length (h : c.Phase mem (some k) taken left) : k ≤ taken.length := by
  cases h
  case fresh                => contradiction
  case active k hr hk hc hf => cases hr; exact hk
  case gone k hr hk hc hf   => cases hr; exact hk

end Client.Phase

def Loop.Wf (clients : List Nat) (count : Int) (processed : List φ) : Loop φ → Prop
  | .range message rest => 
    count = clients.length ∧ rest.Nodup ∧ rest ⊆ clients ∧ ∃ l, processed = l ++ [message]
  | .closing            => True
  | _                   => count = clients.length

structure Inv (s : State φ) : Prop where
  alive : s.panicked = false
  nodup : s.clients.Nodup
  bound : s.clients.length ≤ s.max
  loop  : s.loop.Wf s.clients s.count s.processed
  phase : ∀ id, 
    (s.client id).Phase (id ∈ s.clients) (s.registered id) s.processed (s.loop.pending id)

namespace Inv

theorem of_start : Inv (start maxClients capacity : State φ) where
  alive    := rfl
  nodup    := List.nodup_nil
  bound    := by simp only [start, newHub, List.length_nil]; split <;> omega
  loop     := rfl
  phase id := .fresh List.not_mem_nil rfl rfl rfl

-- A client leaves, and its channel is closed.
theorem leave (h : Inv s) (hm : id ∈ s.clients) (hl : loop.Wf (s.clients.erase id) count s.processed) 
    (hp : ∀ j, j ≠ id → loop.pending j = s.loop.pending j) : 
    Inv { s with 
      clients := s.clients.erase id
      client  := Function.update s.client id { s.client id with closed := true }
      count   := count
      loop    := loop
    } where
  alive   := h.alive
  nodup   := h.nodup.erase id
  bound   := Int.le_trans (Int.ofNat_le.mpr List.length_erase_le) h.bound
  loop    := hl
  phase j := by
    by_cases hn : j = id
    case pos =>
      subst hn
      simp only [Function.update_self]
      exact (h.phase j).leave hm h.nodup.not_mem_erase
    case neg =>
      simp only [Function.update_of_ne hn, hp j hn]
      exact (h.phase j).congr <| List.mem_erase_of_ne hn

theorem drop (h : Inv s) (hs : s.loop = .select) : Inv (drop s id) := by
  simp only [Run.drop]
  split
  case isFalse   => exact h
  case isTrue hm =>
    simp only [closeSend, (h.phase id).opened hm, setCount, Bool.false_eq_true, if_false]
    exact h.leave hm (by rw [hs]; rfl) fun _ _ => rfl

theorem register (h : Inv s) (hs : s.loop = .select) : Inv (register s id) := by
  unfold Run.register
  split
  case isTrue     => exact h
  case isFalse hr =>
    have hr : s.registered id = none := not_not.mp hr
    have ⟨hm, ho, hf⟩ := (hr ▸ h.phase id).not_mem
    simp only
    split
    case isTrue =>
      -- The client is rejected.
      simp only [closeSend, ho, Bool.false_eq_true, if_false]
      refine ⟨h.alive, h.nodup, h.bound, h.loop, fun j => ?_⟩
      by_cases hn : j = id
      case pos =>
        subst hn
        simp only [Function.update_self]
        exact .gone hm _ rfl (Nat.le_refl _) rfl (hf ▸ List.nil_prefix)
      case neg =>
        simp only [Function.update_of_ne hn]
        exact h.phase j
    case isFalse hb =>
      have hb' : (s.clients ++ [id]).length ≤ s.max := by
        rw [List.length_append, List.length_singleton]
        omega
      have hd : (s.clients ++ [id]).Nodup := by
        rw [List.nodup_append]
        simpa [h.nodup] using fun a ha (he : a = id) => hm (he ▸ ha)
      refine ⟨h.alive, hd, hb', by rw [setCount, hs]; rfl, fun j => ?_⟩
      by_cases hn : j = id
      case pos =>
        subst hn
        simp only [setCount, Function.update_self]
        refine .active (by simp) _ rfl (Nat.le_refl _) ho ?_
        rw [hf, hs, List.drop_length]
        rfl
      case neg =>
        simp only [setCount, Function.update_of_ne hn]
        exact (h.phase j).congr (by simp [hn])

theorem receive (h : Inv s) (hs : s.loop = .select) : Inv (receive s) := by
  simp only [Run.receive]
  split
  case h_2    => exact h
  case h_1 hr =>
    have ⟨_, _, hr⟩ := BufferedChannel.tryReceive_eq_some hr
    have hw := h.loop
    rw [hs] at hw
    refine ⟨h.alive, h.nodup, h.bound, ⟨hw, h.nodup, List.Subset.refl _, s.processed, hr⟩, fun id => ?_⟩
    have hp := h.phase id
    rw [hs] at hp
    simp only [State.processed, hr]
    exact Client.Phase.receive hp fun hm => if_pos hm

-- The frame goes to the next client, or the client is dropped.
theorem deliver (h : Inv s) (hs : s.loop = .range message rest) (hm : id ∈ rest) : 
    Inv { deliver s id message with loop := .range message (rest.erase id) } := by
  have hw := h.loop
  rw [hs] at hw
  have ⟨hc, hd, hsub, l, hl⟩ := hw
  have hp (j : Nat) (hn : j ≠ id) : 
      (Loop.range message (rest.erase id)).pending j = s.loop.pending j := by
    simp only [hs, Loop.pending, List.mem_erase_of_ne hn]
  have ho := (h.phase id).opened (hsub hm)
  simp only [Run.deliver, ho, Bool.false_eq_true, if_false]
  split
  case isTrue hr =>
    refine ⟨h.alive, h.nodup, h.bound, ?_, fun j => ?_⟩
    · exact ⟨hc, hd.erase id, fun _ hj => hsub <| List.mem_of_mem_erase hj, l, hl⟩
    by_cases hn : j = id
    case pos =>
      subst hn
      simp only [Function.update_self]
      refine (h.phase j).sent (hsub hm) ho.symm ?_
      simp [BufferedChannel.sent_trySend hr, hs, Loop.pending, hm, hd.not_mem_erase]
    case neg =>
      simp only [Function.update_of_ne hn, hp j hn]
      exact h.phase j
  case isFalse =>
    simp only [Run.drop, hsub hm, closeSend, ho, setCount, Bool.false_eq_true, if_true, if_false]
    refine h.leave (hsub hm) ⟨rfl, hd.erase id, ?_, l, hl⟩ hp
    intro j hj
    have ⟨hn, hj⟩ := hd.mem_erase_iff.mp hj
    exact (List.mem_erase_of_ne hn).mpr (hsub hj)

theorem closeNext (h : Inv s) (hs : s.loop = .closing) : Inv (closeNext s id) := by
  simp only [Run.closeNext]
  split
  case isFalse   => exact h
  case isTrue hm =>
    simp only [closeSend, (h.phase id).opened hm, Bool.false_eq_true, if_false]
    exact h.leave hm (by rw [hs]; trivial) fun _ _ => rfl

-- The loop changes while no frame is on its way.
theorem withLoop (h : Inv s) (hl : loop.Wf s.clients count s.processed) 
    (hp : ∀ id, loop.pending id = s.loop.pending id) : Inv { s with count, loop } where
  alive    := h.alive
  nodup    := h.nodup
  bound    := h.bound
  loop     := hl
  phase id := by simpa only [hp id] using h.phase id

theorem run (h : Inv s) : Inv (run s e) := by
  simp only [Run.run]
  split
  case h_1 hs => exact h.register hs
  case h_2 hs => exact h.drop hs
  case h_3 hs => exact h.receive hs
  case h_4 hs =>
    split
    case isTrue  => exact h.withLoop trivial fun _ => by rw [hs]; rfl
    case isFalse => exact h
  case h_5 hs =>
    split
    case isTrue hm => exact h.deliver hs hm
    case isFalse   => exact h
  case h_6 hs => 
    have hw := h.loop
    rw [hs] at hw
    exact h.withLoop hw.left fun _ => by rw [hs]; simp [Loop.pending]
  case h_7 hs => exact h.closeNext hs
  case h_8 hs =>
    split
    case isTrue hc => exact h.withLoop (by rw [hc]; rfl) fun _ => by rw [hs]; rfl
    case isFalse   => exact h
  case h_9 => exact h

theorem read (h : Inv s) : Inv (read s id) := by
  simp only [Run.read]
  split
  case h_2    => exact h
  case h_1 hr =>
    have ⟨_, hf, _⟩ := BufferedChannel.tryReceive_eq_some hr
    refine ⟨h.alive, h.nodup, h.bound, h.loop, fun j => ?_⟩
    by_cases hn : j = id
    case pos => 
      subst hn
      simp only [Function.update_self]
      exact (h.phase j).of_sent_eq hf rfl
    case neg =>
      simp only [Function.update_of_ne hn]
      exact h.phase j

theorem step (h : Inv s) : Inv (step s e) := by
  simp only [Run.step]
  split
  case isTrue  => exact h
  case isFalse =>
    split
    case h_1 message => 
      have hr : (s.broadcast.trySend message).received = s.broadcast.received := 
        BufferedChannel.received_trySend
      refine ⟨h.alive, h.nodup, h.bound, ?_, fun id => ?_⟩
      · simpa only [State.processed, hr] using h.loop
      · simpa only [State.processed, hr] using h.phase id
    case h_2 => exact ⟨h.alive, h.nodup, h.bound, h.loop, h.phase⟩
    case h_3 => exact h.read
    case h_4 => exact h.run

end Inv

theorem closeSend_preserves_max : (closeSend s id).max = s.max := by
  simp only [closeSend]
  split <;> rfl

theorem drop_preserves_max : (drop s id).max = s.max := by
  simp only [drop]
  split
  case isTrue  => exact closeSend_preserves_max
  case isFalse => rfl

theorem run_preserves_max : (run s e).max = s.max := by
  simp only [run]
  split
  case h_1       =>
    simp only [register]
    split
    case isTrue  => rfl
    case isFalse => 
      split
      case isTrue  => exact closeSend_preserves_max
      case isFalse => rfl
  case h_2       => exact drop_preserves_max
  case h_3       => simp only [receive]; split <;> rfl
  case h_4 | h_8 => split <;> rfl
  case h_5       =>
    split
    case isFalse => rfl
    case isTrue  =>
      simp only [deliver]
      split
      case isTrue  => rfl
      case isFalse =>
        split
        case isTrue  => rfl
        case isFalse => exact drop_preserves_max
  case h_6 | h_9 => rfl
  case h_7       =>
    simp only [closeNext]
    split
    case isTrue  => exact closeSend_preserves_max
    case isFalse => rfl

-- The handlers always see the limit that the hub has been made with.
theorem maxClients_step : (step s e).maxClients = s.maxClients := by
  simp only [step, maxClients]
  split
  case isTrue  => rfl
  case isFalse =>
    split
    case h_1 | h_2 => rfl
    case h_3       => simp only [read]; split <;> rfl
    case h_4       => exact run_preserves_max

-- What is promised of the hub, in any state of a run.
structure Safe (maxClients : Int) (s : State φ) : Prop where
  noPanic : s.panicked = false
  limit   : s.maxClients = (newHub maxClients).maxClients
  counted : s.loop = .select ∨ s.loop = .returned → s.count = s.clients.length ∧ s.count ≤ s.max
  segment : ∀ id k, s.registered id = some k → s.frames id <+: s.broadcast.sent.drop k
  unknown : ∀ id, s.registered id = none → s.frames id = []

theorem Inv.safe (h : Inv s) (hl : s.maxClients = (newHub maxClients).maxClients) : Safe maxClients s where
  noPanic := h.alive
  limit   := hl
  counted := by
    intro hs
    have hw := h.loop
    have hb := h.bound
    cases hs
    case inl hs => rw [hs] at hw; exact ⟨hw, hw ▸ hb⟩
    case inr hs => rw [hs] at hw; exact ⟨hw, hw ▸ hb⟩
  segment := by
    intro id k hr
    have hp := h.phase id
    rw [hr] at hp
    exact hp.segment.trans <| s.broadcast.received_prefix_sent.drop k
  unknown := by
    intro id hr
    exact (hr ▸ h.phase id).not_mem.right.right

-- The hub is safe in every run, for any limit, capacities and frames.
theorem hub_safe : Safe maxClients (Execution.exec step (start maxClients capacity : State φ) es) := by
  have hi : Inv (Execution.exec step (start maxClients capacity : State φ) es) := 
    Execution.invariant Inv.of_start fun _ _ => Inv.step
  let I (s : State φ) : Prop := s.maxClients = (newHub maxClients).maxClients
  exact hi.safe <| Execution.invariant (show I (start maxClients capacity) from rfl) fun _ _ => 
    maxClients_step.trans

end Invariant

-- What the others do leaves a client and the producer of the frames to themselves.
section Frame

variable {s : State φ} {e : Event φ} {id j : Nat} {message : φ} {loop : Loop φ}

-- The event is not one of the client `id`, nor a new frame.
def Event.Foreign (id : Nat) : Event φ → Bool
  | .broadcast _                            => false
  | .read j | .register j | .unregister j => j ≠ id
  | _                                       => true

structure Leaves (id : Nat) (s s' : State φ) : Prop where
  sent       : s'.broadcast.sent = s.broadcast.sent
  registered : s'.registered id = s.registered id
  received   : (s'.client id).send.received = (s.client id).send.received

namespace Leaves

theorem refl : Leaves id s s :=
  ⟨rfl, rfl, rfl⟩

theorem trans {s' s'' : State φ} (h : Leaves id s s') (h' : Leaves id s' s'') : Leaves id s s'' :=
  ⟨h'.sent.trans h.sent, h'.registered.trans h.registered, h'.received.trans h.received⟩

theorem withLoop {s' : State φ} (h : Leaves id s s') : Leaves id s { s' with loop := loop } :=
  ⟨h.sent, h.registered, h.received⟩

theorem update {c : Client φ} (h : c.send.received = (s.client j).send.received) : 
    Leaves id s { s with client := Function.update s.client j c } := by
  refine ⟨rfl, rfl, ?_⟩
  by_cases hn : id = j
  case pos =>
    subst hn
    simp only [Function.update_self, h]
  case neg => simp only [Function.update_of_ne hn]

theorem closeSend : Leaves id s (closeSend s j) := by
  simp only [Run.closeSend]
  split
  case isTrue  => exact ⟨rfl, rfl, rfl⟩
  case isFalse => exact update rfl

theorem drop : Leaves id s (drop s j) := by
  simp only [Run.drop]
  split
  case isTrue  => 
    have h : Leaves id s (Run.closeSend { s with clients := s.clients.erase j } j) := by
      refine trans ?_ closeSend
      exact ⟨rfl, rfl, rfl⟩
    exact ⟨h.sent, h.registered, h.received⟩
  case isFalse => exact refl

theorem register (hn : id ≠ j) : Leaves id s (register s j) := by
  unfold Run.register
  split
  case isTrue  => exact refl
  case isFalse =>
    have hr : Function.update s.registered j (some s.broadcast.received.length) id = s.registered id := 
      Function.update_of_ne hn ..
    dsimp only
    split
    case isTrue  => 
      refine trans ?_ closeSend
      exact ⟨rfl, hr, rfl⟩
    case isFalse => exact ⟨rfl, hr, rfl⟩

theorem deliver : Leaves id s (deliver s j message) := by
  simp only [Run.deliver]
  split
  case isTrue  => exact ⟨rfl, rfl, rfl⟩
  case isFalse =>
    split
    case isTrue  => exact update BufferedChannel.received_trySend
    case isFalse => exact drop

theorem closeNext : Leaves id s (closeNext s j) := by
  simp only [Run.closeNext]
  split
  case isTrue  => 
    have ⟨hs, hr, hf⟩ : Leaves id s (Run.closeSend s j) := closeSend
    exact ⟨hs, hr, hf⟩
  case isFalse => exact refl

theorem receive : Leaves id s (receive s) := by
  simp only [Run.receive]
  split
  case h_1 hr => exact ⟨(BufferedChannel.tryReceive_eq_some hr).right.left, rfl, rfl⟩
  case h_2    => exact refl

theorem read (hn : id ≠ j) : Leaves id s (read s j) := by
  simp only [Run.read]
  split
  case h_1 => exact ⟨rfl, rfl, by simp only [Function.update_of_ne hn]⟩
  case h_2 => exact refl

theorem step (h : e.Foreign id) : Leaves id s (step s e) := by
  simp only [Run.step]
  split
  case isTrue  => exact refl
  case isFalse =>
    split
    case h_1 => contradiction
    case h_2 => exact ⟨rfl, rfl, rfl⟩
    case h_3 j => exact read (Ne.symm <| of_decide_eq_true h)
    case h_4 =>
      simp only [Run.run]
      split
      case h_1 => exact register (Ne.symm <| of_decide_eq_true h)
      case h_2 => exact drop
      case h_3 => exact receive
      case h_4 => split <;> exact ⟨rfl, rfl, rfl⟩
      case h_5 =>
        split
        case isTrue  => exact withLoop deliver
        case isFalse => exact refl
      case h_6 => exact ⟨rfl, rfl, rfl⟩
      case h_7 => exact closeNext
      case h_8 => split <;> exact ⟨rfl, rfl, rfl⟩
      case h_9 => exact refl

theorem unregister : Leaves id s (Run.step s (.unregister j)) := by
  unfold Run.step Run.run
  split
  case isTrue  => exact refl
  case isFalse => 
    dsimp only
    split
    all_goals first | exact drop | exact refl | contradiction

end Leaves

theorem step_broadcast (h : Inv s) : 
    step s (.broadcast message) = { s with broadcast := s.broadcast.trySend message } := by
  simp [step, h.alive]

theorem step_read {c : BufferedChannel φ} (h : Inv s) 
    (hr : (s.client id).send.tryReceive = some (message, c)) : 
    step s (.read id) = 
      { s with client := Function.update s.client id { s.client id with send := c } } := by
  simp [step, h.alive, read, hr]

theorem step_receive {l : List φ} (h : Inv s) (hs : s.loop = .select) 
    (hb : s.broadcast.buffer = message :: l) : 
    ∃ broadcast, broadcast.buffer = l ∧ 
      step s .receive = { s with broadcast, loop := .range message s.clients } := by
  have ⟨c, hr, hc⟩ := BufferedChannel.tryReceive_of_cons hb
  exact ⟨c, hc, by simp [step, h.alive, run, hs, receive, hr]⟩

-- A client that has not been registered yet is added, or rejected.
theorem step_register (h : Inv s) (hs : s.loop = .select) (hr : s.registered id = none) : 
    (step s (.register id)).broadcast = s.broadcast ∧ 
    (step s (.register id)).registered id = some s.processed.length ∧ 
    ((step s (.register id)).client id).send = (s.client id).send := by
  have ho := (hr ▸ h.phase id).not_mem.right.left
  simp only [step, h.alive, Bool.false_eq_true, if_false, run, hs, register, hr, ne_eq, 
    not_true_eq_false]
  split
  case isTrue  => simp [closeSend, ho, State.processed]
  case isFalse => simp [setCount, State.processed]

-- The hub keeps the client: it does not end, and has room for the next frame of the client.
def Keeps (id : Nat) (s : State φ) : Event φ → Prop
  | .unregister j => j ≠ id
  | .next j       => j = id → (s.client id).send.HasRoom
  | .done         => s.cancelled = false
  | _             => True

structure Served (id : Nat) (s : State φ) : Prop where
  running : s.loop ≠ .closing
  mem     : s.registered id ≠ none → id ∈ s.clients

theorem mem_drop (hn : id ≠ j) : id ∈ (drop s j).clients ↔ id ∈ s.clients := by
  simp only [drop, closeSend, setCount]
  split
  case isFalse => rfl
  case isTrue  => 
    dsimp only
    split <;> exact List.mem_erase_of_ne hn

theorem mem_deliver (h : j = id → (s.client id).send.HasRoom) : 
    id ∈ (deliver s j message).clients ↔ id ∈ s.clients := by
  simp only [deliver]
  split
  case isTrue  => rfl
  case isFalse =>
    split
    case isTrue     => rfl
    case isFalse hr => exact mem_drop fun hj => hr (hj ▸ h hj.symm)

theorem clients_closeSend : (closeSend s j).clients = s.clients := by
  simp only [closeSend]
  split <;> rfl

theorem loop_closeSend : (closeSend s j).loop = s.loop := by
  simp only [closeSend]
  split <;> rfl

theorem loop_drop : (drop s j).loop = s.loop := by
  simp only [drop]
  split
  case isTrue  => exact loop_closeSend
  case isFalse => rfl

namespace Served

theorem of_eq {s' : State φ} (h : Served id s) (hl : s'.loop ≠ .closing) 
    (hr : s'.registered id = s.registered id) (hm : id ∈ s.clients → id ∈ s'.clients) : 
    Served id s' where
  running := hl
  mem hn  := hm <| h.mem (hr ▸ hn)

theorem drop (h : Served id s) (hn : id ≠ j) : Served id (drop s j) :=
  h.of_eq (by rw [loop_drop]; exact h.running) Leaves.drop.registered (mem_drop hn).mpr

theorem register (h : Served id s) (hm : j = id → s.clients.length < s.max) : 
    Served id (register s j) := by
  by_cases hn : id = j
  case neg =>
    refine h.of_eq ?loop (Leaves.register hn).registered ?mem
    all_goals
      unfold Run.register
      split
    case loop.isTrue | mem.isTrue => first | exact h.running | exact fun hm => hm
    case loop.isFalse => 
      dsimp only
      split
      · rw [loop_closeSend]; exact h.running
      · exact h.running
    case mem.isFalse => 
      dsimp only
      split
      · rw [clients_closeSend]; exact fun hm => hm
      · exact fun hm => List.mem_append_left _ hm
  case pos =>
    have hb : ¬s.max ≤ s.clients.length := Int.not_le.mpr <| hm hn.symm
    unfold Run.register
    split
    case isTrue  => exact h
    case isFalse =>
      simp only [hb, if_false]
      exact ⟨h.running, fun _ => List.mem_append_right _ <| List.mem_singleton.mpr hn⟩

theorem run (h : Served id s) (hk : Keeps id s e) (hm : e = .register id → s.clients.length < s.max) : 
    Served id (run s e) := by
  simp only [Run.run]
  split
  case h_1 => exact h.register fun hj => hm (hj ▸ rfl)
  case h_2 => exact h.drop hk.symm
  case h_3 =>
    simp only [Run.receive]
    split
    case h_1 => exact ⟨by simp, h.mem⟩
    case h_2 => exact h
  case h_4 => 
    have hc : s.cancelled = false := hk
    simpa [hc] using h
  case h_5 =>
    split
    case isTrue  => exact h.of_eq (by simp) Leaves.deliver.registered (mem_deliver hk).mpr
    case isFalse => exact h
  case h_6 => exact ⟨by simp, h.mem⟩
  case h_7 hs => exact absurd hs h.running
  case h_8 hs => exact absurd hs h.running
  case h_9    => exact h

theorem step (h : Served id s) (hk : Keeps id s e) (hm : e = .register id → s.clients.length < s.max) : 
    Served id (step s e) := by
  simp only [Run.step]
  split
  case isTrue  => exact h
  case isFalse =>
    split
    case h_1 => exact ⟨h.running, h.mem⟩
    case h_2 => exact ⟨h.running, h.mem⟩
    case h_3 => 
      simp only [Run.read]
      split <;> exact ⟨h.running, h.mem⟩
    case h_4 => exact h.run hk hm

end Served
-- Only a receive takes a frame from the queue.
section Taken

theorem broadcast_closeSend : (closeSend s j).broadcast = s.broadcast := by
  simp only [closeSend]
  split <;> rfl

theorem broadcast_drop : (drop s j).broadcast = s.broadcast := by
  simp only [drop]
  split
  case isTrue  => exact broadcast_closeSend
  case isFalse => rfl

theorem broadcast_register : (register s j).broadcast = s.broadcast := by
  unfold register
  split
  case isTrue  => rfl
  case isFalse =>
    dsimp only
    split
    case isTrue  => exact broadcast_closeSend
    case isFalse => rfl

theorem broadcast_deliver : (deliver s j message).broadcast = s.broadcast := by
  simp only [deliver]
  split
  case isTrue  => rfl
  case isFalse =>
    split
    case isTrue  => rfl
    case isFalse => exact broadcast_drop

theorem broadcast_closeNext : (closeNext s j).broadcast = s.broadcast := by
  simp only [closeNext]
  split
  case isTrue  => exact broadcast_closeSend
  case isFalse => rfl

-- A receive, with the frame that it takes.
structure Takes (s : State φ) (e : Event φ) (s' : State φ) (message : φ) : Prop where
  event     : e = .receive
  loop      : s.loop = .select
  head      : s.broadcast.buffer = message :: s'.broadcast.buffer
  processed : s'.processed = s.processed ++ [message]

theorem processed_step : 
    (step s e).processed = s.processed ∨ ∃ message, Takes s e (step s e) message := by
  simp only [step]
  split
  case isTrue  => exact .inl rfl
  case isFalse =>
    split
    case h_1 => exact .inl BufferedChannel.received_trySend
    case h_2 => exact .inl rfl
    case h_3 => 
      simp only [read]
      split <;> exact .inl rfl
    case h_4 =>
      simp only [run]
      split
      case h_1 => exact .inl <| congrArg BufferedChannel.received broadcast_register
      case h_2 => exact .inl <| congrArg BufferedChannel.received broadcast_drop
      case h_3 hl _ _ _ => 
        simp only [receive]
        split
        case h_1 hr => 
          have ⟨hb, _, hp⟩ := BufferedChannel.tryReceive_eq_some hr
          exact .inr ⟨_, rfl, hl, hb, hp⟩
        case h_2    => exact .inl rfl
      case h_4 => split <;> exact .inl rfl
      case h_5 =>
        split
        case isTrue  => exact .inl <| congrArg BufferedChannel.received broadcast_deliver
        case isFalse => exact .inl rfl
      case h_6 => exact .inl rfl
      case h_7 => exact .inl <| congrArg BufferedChannel.received broadcast_closeNext
      case h_8 => split <;> exact .inl rfl
      case h_9 => exact .inl rfl

theorem processed_of_ne (h : e ≠ .receive) : (step s e).processed = s.processed := by
  cases processed_step (s := s) (e := e)
  case inl he => exact he
  case inr ht => exact absurd ht.choose_spec.event h

end Taken
end Frame
end Hub.Run
