import DrishtiScope.Agentscope.Fanout
import DrishtiScope.EbpfAgent.Startup

open Go Resources

-- `runApp` from the configuration to the end of the process, with the goroutine that it waits for.
namespace Agentscope

def modeEBPF := str "ebpf"
def modeReal := str "real"
def modeMock := str "mock"

-- Where `runApp` stands. The deferred functions are called one after the other.
inductive Main
  | validate
  | openStore
  | startEngine
  | serve
  | cancel
  | wait
  | cleanup
  | closeStore
  | returned
  deriving DecidableEq

-- The goroutine that calls `fanout`. It makes the calls for an item one by one.
inductive Worker
  | none
  | select
  | calling (a : Action) (as : List Action)
  | returned

-- The calls on the builder, the store and the clients, and those of the deferred functions.
inductive Call
  | fanout (a : Action)
  | cleanup
  | closeStore

structure App where
  cfg    : Config
  main   : Main                         := .validate
  error  : Option Bytes                 := none
  ctx    : Bool                         := false
  store  : Bool                         := false
  agent  : Option EbpfAgent.Startup.Log := none
  worker : Worker                       := .none
  fanout : Fanout                       := .start []
  calls  : List Call                    := []
  log    : EbpfAgent.Startup.Log        := []

-- What the next step of `runApp` meets: whether the database opens, the host of the agent, and an error
-- of the server.
structure Outcome where
  opened : Bool
  host   : EbpfAgent.Startup.Host
  failed : Option Bytes

namespace App

-- The scheduler decides who moves, and which of the ready cases the `select` takes.
inductive Event
  | main (o : Outcome)
  | signal
  | receive (item : Item) (now : Time)
  | stop
  | call

def startFanout (a : App) (mode : Bytes) : App :=
  { a with main := .serve, worker := .select, fanout := .start mode }

def startEngine (a : App) (host : EbpfAgent.Startup.Host) : App :=
  if a.cfg.mode = str "mock" then
    a.startFanout modeMock
  else if a.cfg.mode = str "real" then
    a.startFanout modeReal
  else
    let (result, log) := EbpfAgent.Startup.tryLoad host
    let a := { a with log := a.log ++ log }
    match result with
    | .ok cleanup => { a with agent := some cleanup }.startFanout modeEBPF
    | .error e    =>
      if a.cfg.mode = str "ebpf" then
        { a with error := some e, main := .closeStore }
      else
        a.startFanout modeReal

-- The context is cancelled by a deferred function once more, after the store has been closed.
def mainStep (quote : Bytes → Bytes) (a : App) (o : Outcome) : App :=
  match a.main with
  | .validate    =>
    match a.cfg.validate quote with
    | .error e => { a with error := some e, main := .returned }
    | .ok _    => { a with main := .openStore }
  | .openStore   => { a with store := o.opened, main := .startEngine }
  | .startEngine => a.startEngine o.host
  | .serve       => 
    if a.ctx ∨ o.failed.isSome then { a with error := o.failed, main := .cancel } else a
  | .cancel      => { a with ctx := true, main := .wait }
  | .wait        =>
    match a.worker with
    | .returned => { a with main := .cleanup }
    | _         => a
  | .cleanup     => 
    match a.agent with
    | some ops => { a with calls := a.calls ++ [.cleanup], log := a.log ++ ops, main := .closeStore }
    | none     => { a with main := .closeStore }
  | .closeStore  => { a with 
      calls := if a.store then a.calls ++ [.closeStore] else a.calls
      ctx   := true
      main  := .returned 
    }
  | .returned    => a

def receive (a : App) (item : Item) (now : Time) : App :=
  match a.worker with
  | .select =>
    let fanout := a.fanout.step (.receive item now)
    match fanout.trace.drop a.fanout.trace.length with
    | []      => { a with fanout := fanout }
    | c :: cs => { a with fanout := fanout, worker := .calling c cs }
  | _       => a

def stop (a : App) : App :=
  match a.worker with
  | .select => if a.ctx then { a with fanout := a.fanout.step .stop, worker := .returned } else a
  | _       => a

def call (a : App) : App :=
  match a.worker with
  | .calling c cs => 
    { a with 
      calls  := a.calls ++ [.fanout c]
      worker := match cs with | [] => .select | c :: cs => .calling c cs
    }
  | _             => a

def step (quote : Bytes → Bytes) (a : App) : Event → App
  | .main o           => a.mainStep quote o
  | .signal           => { a with ctx := true }
  | .receive item now => a.receive item now
  | .stop             => a.stop
  | .call             => a.call

-- The calls of the deferred functions so far.
def ending (a : App) : List Call :=
  match a.main with
  | .closeStore => if a.agent.isSome then [.cleanup] else []
  | .returned   => (if a.agent.isSome then [.cleanup] else []) ++ if a.store then [.closeStore] else []
  | _           => []

end App

def Main.Started : Main → Prop
  | .validate | .openStore | .startEngine => False
  | _                                     => True

-- The goroutine runs until it has been waited for.
def Main.Serving : Main → Prop
  | .serve | .cancel | .wait => True
  | _                        => False

-- The goroutine is not waited for any longer.
def Main.Joined : Main → Prop
  | .cleanup | .closeStore | .returned => True
  | _                                  => False

-- The steps of `runApp` before it waits, when the context is cancelled.
def Main.left : Main → Nat
  | .validate    => 5
  | .openStore   => 4
  | .startEngine => 3
  | .serve       => 2
  | .cancel      => 1
  | _            => 0

namespace Worker

-- The calls that remain for the item in hand.
def pending : Worker → List Action
  | .calling a as => a :: as
  | _             => []

def Running : Worker → Prop
  | .select | .calling .. => True
  | _                     => False

theorem pending_eq_nil {w : Worker} (h : ¬w.Running) : w.pending = [] := by
  cases w
  case none | returned => rfl
  case select          => exact absurd trivial h
  case calling         => exact absurd trivial h

end Worker

namespace App

-- Before an engine has been started, there is nothing to end but the store.
structure Fresh (a : App) : Prop where
  agent  : a.agent = none
  worker : a.worker = .none
  trace  : a.fanout.trace = []
  calls  : a.calls = []
  log    : a.log = []
  store  : a.main = .validate → a.store = false

-- What the cleanup function has still to do.
def remaining (a : App) : EbpfAgent.Startup.Log :=
  match a.main with
  | .closeStore | .returned => []
  | _                       => a.agent.getD []

structure Inv (a : App) : Prop where
  fresh   : ¬a.main.Started → a.Fresh
  fanout  : Fanout.Inv a.fanout.mode a.fanout
  alive   : a.worker.Running → ¬a.fanout.returned
  calls   : ∃ made, a.calls = made.map .fanout ++ a.ending ∧ made ++ a.worker.pending = a.fanout.trace
  spawned : a.main.Serving → a.worker ≠ .none
  joined  : a.main.Joined → ¬a.worker.Running
  holds   : replay [] (a.log ++ a.remaining) = some []

variable {a : App} {quote : Bytes → Bytes} {o : Outcome} {e : Event} {mode : Bytes} {item : Item} {now : Time}

theorem inv_init (cfg : Config) : Inv { cfg := cfg } where
  fresh _  := ⟨rfl, rfl, rfl, rfl, rfl, fun _ => rfl⟩
  fanout   := Fanout.inv_start
  alive h  := by contradiction
  calls    := ⟨[], rfl, rfl⟩
  spawned  := fun h => absurd h id
  joined h := by contradiction
  holds    := rfl

theorem Inv.startFanout (h : a.calls = []) (hl : replay [] (a.log ++ a.agent.getD []) = some []) : 
    Inv (a.startFanout mode) where
  fresh hn := absurd trivial hn
  fanout   := Fanout.inv_start
  alive _  := by simp [App.startFanout, Fanout.start]
  calls    := ⟨[], h, rfl⟩
  spawned  := fun _ => by simp [App.startFanout]
  joined h := by contradiction
  holds    := hl

theorem Inv.startEngine {host : EbpfAgent.Startup.Host} (hi : Inv a) (h : a.Fresh) : Inv (a.startEngine host) := by
  have hl : replay [] (a.log ++ a.agent.getD []) = some [] := by rw [h.log, h.agent]; rfl
  simp only [App.startEngine]
  split
  case isTrue => exact .startFanout h.calls hl
  case isFalse =>
    split
    case isTrue  => exact .startFanout h.calls hl
    case isFalse =>
      have hs : EbpfAgent.Startup.Safe (EbpfAgent.Startup.tryLoad host) := EbpfAgent.Startup.tryLoad_safe host
      generalize EbpfAgent.Startup.tryLoad host = r at hs
      cases hs
      case started hr hc hk =>
        refine .startFanout h.calls ?_
        simp only [h.log, List.nil_append, Option.getD_some]
        rw [replay_append, hr, Option.bind_some, hk]
      case failed e log hr =>
        simp only
        split
        case isFalse => 
          refine .startFanout h.calls ?_
          simpa [h.log, h.agent] using hr
        case isTrue =>
          constructor
          case fresh  => exact fun hn => absurd trivial hn
          case fanout => exact hi.fanout
          case alive  => exact hi.alive
          case spawned => exact fun hs => absurd hs id
          case joined => simp [h.worker, Worker.Running]
          case holds  => simpa [App.remaining, h.log] using hr
          case calls  => exact ⟨[], by simp [h.calls, App.ending, h.agent], by rw [h.worker, h.trace]; rfl⟩

-- A step that only moves on.
theorem Inv.move {a' : App} (h : Inv a) (hw : a'.worker = a.worker) (hc : a'.calls = a.calls) 
    (hf : a'.fanout = a.fanout) (hl : a'.log = a.log) (he : a'.ending = a.ending) 
    (hr : a'.remaining = a.remaining) (hs : ¬a'.main.Started → a'.Fresh) (hn : a'.main.Serving → a.main.Serving)
    (hj : a'.main.Joined → ¬a.worker.Running) : Inv a' where
  fresh  := hs
  fanout := hf ▸ h.fanout
  alive  := hw ▸ hf ▸ h.alive
  calls  := hc ▸ he ▸ hw ▸ hf ▸ h.calls
  spawned := hw ▸ fun hs => h.spawned (hn hs)
  joined := hw ▸ hj
  holds  := hl ▸ hr ▸ h.holds

theorem Inv.mainStep (h : Inv a) : Inv (a.mainStep quote o) := by
  simp only [App.mainStep]
  split
  case h_1 hm => 
    have hf := h.fresh (by simp [hm, Main.Started])
    split
    case h_1 =>
      refine h.move rfl rfl rfl rfl ?_ ?_ ?_ ?_ ?_
      case refine_1 => simp [App.ending, hm, hf.agent, hf.store hm]
      case refine_2 => simp [App.remaining, hm, hf.agent]
      case refine_3 => exact fun hn => absurd trivial hn
      case refine_4 => simp [hm, Main.Serving]
      case refine_5 => simp [hf.worker, Worker.Running]
    case h_2 =>
      refine h.move rfl rfl rfl rfl ?_ ?_ ?_ ?_ ?_
      case refine_1 => simp [App.ending, hm]
      case refine_2 => simp [App.remaining, hm]
      case refine_3 => exact fun _ => ⟨hf.agent, hf.worker, hf.trace, hf.calls, hf.log, by simp⟩
      case refine_4 => simp [hm, Main.Serving]
      case refine_5 => exact fun hn => absurd hn id
  case h_2 hm =>
    have hf := h.fresh (by simp [hm, Main.Started])
    refine h.move rfl rfl rfl rfl ?_ ?_ ?_ ?_ ?_
    case refine_1 => simp [App.ending, hm]
    case refine_2 => simp [App.remaining, hm]
    case refine_3 => exact fun _ => ⟨hf.agent, hf.worker, hf.trace, hf.calls, hf.log, by simp⟩
    case refine_4 => simp [hm, Main.Serving]
    case refine_5 => exact fun hn => absurd hn id
  case h_3 hm => exact h.startEngine <| h.fresh (by simp [hm, Main.Started])
  case h_4 hm =>
    split
    case isFalse => exact h
    case isTrue  =>
      refine h.move rfl rfl rfl rfl ?_ ?_ ?_ ?_ ?_
      case refine_1 => simp [App.ending, hm]
      case refine_2 => simp [App.remaining, hm]
      case refine_3 => exact fun hn => absurd trivial hn
      case refine_4 => simp [hm, Main.Serving]
      case refine_5 => exact fun hn => absurd hn id
  case h_5 hm =>
    refine h.move rfl rfl rfl rfl ?_ ?_ ?_ ?_ ?_
    case refine_1 => simp [App.ending, hm]
    case refine_2 => simp [App.remaining, hm]
    case refine_3 => exact fun hn => absurd trivial hn
    case refine_4 => simp [hm, Main.Serving]
    case refine_5 => exact fun hn => absurd hn id
  case h_6 hm =>
    split
    case h_2    => exact h
    case h_1 hw =>
      refine h.move rfl rfl rfl rfl ?_ ?_ ?_ ?_ ?_
      case refine_1 => simp [App.ending, hm]
      case refine_2 => simp [App.remaining, hm]
      case refine_3 => exact fun hn => absurd trivial hn
      case refine_4 => simp [hm, Main.Serving]
      case refine_5 => simp [hw, Worker.Running]
  case h_7 hm =>
    have hj := h.joined (by simp [hm, Main.Joined])
    have ⟨made, hc, ht⟩ := h.calls
    have hd := h.holds
    split
    case h_2 ha =>
      refine h.move rfl rfl rfl rfl ?_ ?_ ?_ ?_ ?_
      case refine_1 => simp [App.ending, hm, ha]
      case refine_2 => simp [App.remaining, hm, ha]
      case refine_3 => exact fun hn => absurd trivial hn
      case refine_4 => simp [hm, Main.Serving]
      case refine_5 => exact fun _ => hj
    case h_1 ops ha =>
      constructor
      case fresh  => exact fun hn => absurd trivial hn
      case fanout => exact h.fanout
      case alive  => exact h.alive
      case spawned => exact fun hs => absurd hs id
      case joined => exact fun _ => hj
      case holds  => simpa [App.remaining, hm, ha] using hd
      case calls  => exact ⟨made, by simpa [App.ending, hm, ha] using hc, ht⟩
  case h_8 hm =>
    have hj := h.joined (by simp [hm, Main.Joined])
    have ⟨made, hc, ht⟩ := h.calls
    have hd := h.holds
    constructor
    case fresh  => exact fun hn => absurd trivial hn
    case fanout => exact h.fanout
    case alive  => exact h.alive
    case spawned => exact fun hs => absurd hs id
    case joined => exact fun _ => hj
    case holds  => simpa [App.remaining, hm] using hd
    case calls  => 
      refine ⟨made, ?_, ht⟩
      cases a.store <;> simp [App.ending, hm, hc]
  case h_9 hm => exact h

-- The goroutine only runs between its start and the end of the wait.
theorem Inv.started (h : Inv a) (hw : a.worker.Running) : a.main.Started := by
  by_contra hn
  rw [(h.fresh hn).worker] at hw
  exact hw

theorem ending_eq_nil (h : ¬a.main.Joined) : a.ending = [] := by
  simp only [App.ending]
  split
  case h_1 hm => exact absurd (by simp [hm, Main.Joined]) h
  case h_2 hm => exact absurd (by simp [hm, Main.Joined]) h
  case h_3    => rfl

theorem trace_prefix_receive {f : Fanout} : f.trace <+: (f.step <| .receive item now).trace := by
  simp only [Fanout.step]
  split
  case isTrue  => exact List.prefix_rfl
  case isFalse => cases item <;> exact List.prefix_append ..

theorem returned_receive {f : Fanout} : (f.step <| .receive item now).returned = f.returned := by
  simp only [Fanout.step]
  split
  case isTrue  => rfl
  case isFalse => cases item <;> rfl

theorem mode_step {f : Fanout} {ev : Fanout.Event} : (f.step ev).mode = f.mode := by
  simp only [Fanout.step]
  split
  case isTrue  => rfl
  case isFalse => 
    cases ev
    case receive item _ => cases item <;> rfl
    case stop           => rfl

-- A step of the goroutine.
theorem Inv.work {w : Worker} {f : Fanout} {cs : List Call} (h : Inv a) (hw : a.worker.Running) (hn : w ≠ .none) 
    (hf : Fanout.Inv f.mode f) (ha : w.Running → ¬f.returned) 
    (hc : ∀ made, a.calls = made.map .fanout → made ++ a.worker.pending = a.fanout.trace → 
      ∃ made, cs = made.map .fanout ∧ made ++ w.pending = f.trace) : 
    Inv { a with worker := w, fanout := f, calls := cs } := by
  have hj : ¬a.main.Joined := fun hj => h.joined hj hw
  have he := ending_eq_nil hj
  have ⟨made, hm, ht⟩ := h.calls
  rw [he, List.append_nil] at hm
  have ⟨made', hm', ht'⟩ := hc made hm ht
  constructor
  case fresh   => exact fun hs => absurd (h.started hw) hs
  case fanout  => exact hf
  case alive   => exact ha
  case spawned => exact fun _ => hn
  case joined  => exact fun hj' => absurd hj' hj
  case holds   => exact h.holds
  case calls   => 
    refine ⟨made', ?_, ht'⟩
    change cs = _ ++ a.ending
    rw [he, List.append_nil, hm']

theorem Inv.receive (h : Inv a) : Inv (a.receive item now) := by
  simp only [App.receive]
  split
  case h_2    => exact h
  case h_1 hw =>
    have hr : a.worker.Running := by simp [hw, Worker.Running]
    have hp : a.fanout.trace <+: (a.fanout.step <| .receive item now).trace := trace_prefix_receive
    have hi : Fanout.Inv a.fanout.mode (a.fanout.step <| .receive item now) := h.fanout.step
    have ha : ¬(a.fanout.step <| .receive item now).returned := by rw [returned_receive]; exact h.alive hr
    rw [← mode_step] at hi
    generalize a.fanout.step (.receive item now) = f at hp hi ha ⊢
    have ⟨new, hn⟩ := hp
    rw [← hn, List.drop_left]
    have he : a.worker.pending = [] := by rw [hw]; rfl
    have hc (made : List Action) (ht : made ++ a.worker.pending = a.fanout.trace) : made ++ new = f.trace := by
      rw [← hn, ← ht, he, List.append_nil]
    cases new
    case nil       => exact h.work hr (by simp [hw]) hi (fun _ => ha) fun made hm ht => ⟨made, hm, he ▸ hc made ht⟩
    case cons c cs => exact h.work hr (by simp) hi (fun _ => ha) fun made hm ht => ⟨made, hm, hc made ht⟩

theorem Inv.stop (h : Inv a) : Inv a.stop := by
  simp only [App.stop]
  split
  case h_2    => exact h
  case h_1 hw =>
    split
    case isFalse => exact h
    case isTrue  =>
      have hi : Fanout.Inv a.fanout.mode (a.fanout.step .stop) := h.fanout.step
      have hf : (a.fanout.step .stop).trace = a.fanout.trace := by
        simp only [Fanout.step]
        split <;> rfl
      rw [← mode_step] at hi
      refine h.work (by simp [hw, Worker.Running]) (by simp) hi (fun hr => absurd hr id) fun made hm ht => ?_
      exact ⟨made, hm, by simpa [hw, Worker.pending, hf] using ht⟩

theorem Inv.call (h : Inv a) : Inv a.call := by
  simp only [App.call]
  split
  case h_2         => exact h
  case h_1 c cs hw =>
    have hr : a.worker.Running := by simp [hw, Worker.Running]
    have hp : (match cs with | [] => Worker.select | c :: cs => .calling c cs).pending = cs := by
      cases cs <;> rfl
    refine h.work hr (by cases cs <;> simp) h.fanout (fun _ => h.alive hr) fun made hm ht => ?_
    refine ⟨made ++ [c], by simp [hm], ?_⟩
    rw [hp, ← ht, hw, List.append_assoc]
    rfl

theorem Inv.signal (h : Inv a) : Inv { a with ctx := true } where
  fresh hn := have ⟨ha, hw, ht, hc, hl, hs⟩ := h.fresh hn; ⟨ha, hw, ht, hc, hl, hs⟩
  fanout   := h.fanout
  alive    := h.alive
  calls    := h.calls
  spawned  := h.spawned
  joined   := h.joined
  holds    := h.holds

theorem Inv.step (h : Inv a) : Inv (a.step quote e) := by
  cases e
  case main    => exact h.mainStep
  case signal  => exact h.signal
  case receive => exact h.receive
  case stop    => exact h.stop
  case call    => exact h.call

-- The calls of the goroutine come before those of the deferred functions, in any run. When `runApp` has
-- returned, every item has been passed on completely, and everything that was acquired has been closed.
structure Orderly (a : App) : Prop where
  agrees : Fanout.Agrees a.fanout.mode a.fanout.received a.fanout.trace
  calls  : ∃ made, made <+: a.fanout.trace ∧ a.calls = made.map .fanout ++ a.ending
  joined : a.ending ≠ [] → ¬a.worker.Running
  ended  : a.main = .returned → ¬a.worker.Running ∧ a.calls = a.fanout.trace.map .fanout ++ a.ending ∧ 
    replay [] a.log = some []

theorem Inv.inOrder (h : Inv a) : Orderly a where
  agrees := h.fanout.agrees
  calls  := have ⟨made, hc, ht⟩ := h.calls; ⟨made, ⟨_, ht⟩, hc⟩
  joined hn := by
    by_contra hw
    exact hn <| ending_eq_nil fun hj => h.joined hj hw
  ended hm  := by
    have hw := h.joined (by simp [hm, Main.Joined])
    have ⟨made, hc, ht⟩ := h.calls
    rw [Worker.pending_eq_nil hw, List.append_nil] at ht
    refine ⟨hw, ht ▸ hc, ?_⟩
    simpa [App.remaining, hm] using h.holds

-- Once the context is cancelled, `runApp` returns, provided that the goroutine gets to make the calls that it
-- has begun with.
section Ends

variable {n : Nat}

theorem startEngine_main (a : App) (host : EbpfAgent.Startup.Host) : 
    (a.startEngine host).ctx = a.ctx ∧ 
      ((a.startEngine host).main = .serve ∨ (a.startEngine host).main = .closeStore) := by
  simp only [App.startEngine]
  split
  case isTrue  => exact ⟨rfl, .inl rfl⟩
  case isFalse =>
    split
    case isTrue  => exact ⟨rfl, .inl rfl⟩
    case isFalse =>
      split
      case h_1 => exact ⟨rfl, .inl rfl⟩
      case h_2 =>
        split
        case isTrue  => exact ⟨rfl, .inr rfl⟩
        case isFalse => exact ⟨rfl, .inl rfl⟩

theorem mainStep_left (quote : Bytes → Bytes) (o : Outcome) (h : a.ctx) : 
    (a.mainStep quote o).ctx ∧ (a.mainStep quote o).main.left ≤ a.main.left - 1 := by
  simp only [App.mainStep]
  split
  case h_1 hm => 
    split
    · exact ⟨h, by simp [Main.left]⟩
    · exact ⟨h, by simp [hm, Main.left]⟩
  case h_2 hm => exact ⟨h, by simp [hm, Main.left]⟩
  case h_3 hm => 
    have ⟨hc, hs⟩ := startEngine_main a o.host
    refine ⟨hc ▸ h, ?_⟩
    cases hs
    case inl he => simp [he, hm, Main.left]
    case inr he => simp [he, Main.left]
  case h_4 hm => simp [h, hm, Main.left]
  case h_5 hm => exact ⟨rfl, by simp [Main.left]⟩
  case h_6 hm => 
    split
    · exact ⟨h, by simp [Main.left]⟩
    · exact ⟨h, by simp [hm, Main.left]⟩
  case h_7 hm => 
    split
    · exact ⟨h, by simp [Main.left]⟩
    · exact ⟨h, by simp [Main.left]⟩
  case h_8 hm => exact ⟨rfl, by simp [Main.left]⟩
  case h_9 hm => exact ⟨h, by simp [hm, Main.left]⟩

theorem exec_main_left (quote : Bytes → Bytes) (o : Outcome) (n : Nat) (h : a.ctx) : 
    (Execution.exec (step quote) a <| .replicate n (.main o)).ctx ∧ 
      (Execution.exec (step quote) a <| .replicate n (.main o)).main.left ≤ a.main.left - n := by
  induction n generalizing a
  case zero      => exact ⟨h, Nat.le_refl _⟩
  case succ n hi =>
    have ⟨hc, hl⟩ := mainStep_left quote o h
    have ⟨hc', hl'⟩ := hi hc
    refine ⟨hc', hl'.trans ?_⟩
    omega

-- What the goroutine does while it makes its calls.
structure Drained (a a' : App) : Prop where
  main    : a'.main = a.main
  ctx     : a'.ctx = a.ctx
  pending : a'.worker.pending = []
  none    : a'.worker = .none ↔ a.worker = .none

theorem exec_call_drained : 
    Drained a (Execution.exec (step quote) a <| .replicate a.worker.pending.length .call) := by
  generalize hn : a.worker.pending.length = n
  induction n generalizing a
  case zero      => exact ⟨rfl, rfl, List.length_eq_zero_iff.mp hn, .rfl⟩
  case succ n hi =>
    cases hw : a.worker
    case calling c cs => 
      have hl : a.call.worker.pending.length = n := by
        simp only [hw, Worker.pending, List.length_cons, Nat.add_right_cancel_iff] at hn
        simp only [App.call, hw]
        cases cs <;> simpa [Worker.pending] using hn
      have ⟨hm, hc, hp, hk⟩ := hi hl
      have he : a.call.main = a.main ∧ a.call.ctx = a.ctx ∧ a.call.worker ≠ .none := by
        simp only [App.call, hw]
        cases cs <;> simp
      refine ⟨hm.trans he.left, hc.trans he.right.left, hp, iff_of_false ?_ (by simp [hw])⟩
      exact fun hn => he.right.right <| hk.mp hn
    all_goals simp [hw, Worker.pending] at hn

theorem stop_eq (h : a.ctx) (hp : a.worker.pending = []) (hn : a.worker ≠ .none) : 
    a.stop.main = a.main ∧ a.stop.worker = .returned := by
  cases hw : a.worker
  case none     => contradiction
  case select   => simp [App.stop, hw, h]
  case calling  => simp [hw, Worker.pending] at hp
  case returned => simp [App.stop, hw]

theorem stop_main : a.stop.main = a.main := by
  simp only [App.stop]
  split
  · split <;> rfl
  · rfl

-- The last steps, when there is no need to wait.
theorem exec_main_returned (h : a.main.left = 0) (hw : a.main = .wait → a.worker = .returned) : 
    (Execution.exec (step quote) a <| .replicate 3 (.main o)).main = .returned := by
  have hc : ∀ a : App, a.main = .closeStore → (a.mainStep quote o).main = .returned := 
    fun a hm => by simp [App.mainStep, hm]
  have hr : ∀ a : App, a.main = .returned → (a.mainStep quote o).main = .returned := 
    fun a hm => by simp [App.mainStep, hm]
  have hk : ∀ a : App, a.main = .cleanup → (a.mainStep quote o).main = .closeStore := by
    intro a hm
    simp only [App.mainStep, hm]
    split <;> rfl
  change (((a.mainStep quote o).mainStep quote o).mainStep quote o).main = _
  cases hm : a.main
  case wait       => exact hc _ <| hk _ <| by simp [App.mainStep, hm, hw hm]
  case cleanup    => exact hr _ <| hc _ <| hk _ hm
  case closeStore => exact hr _ <| hr _ <| hc _ hm
  case returned   => exact hr _ <| hr _ <| hr _ hm
  all_goals simp [hm, Main.left] at h

-- Whatever `runApp` meets, it returns after a few steps of its own, once the goroutine has made `n` calls.
theorem Inv.ends (h : Inv a) (hc : a.ctx) : 
    ∃ n, (Execution.exec (App.step quote) a <| 
      .replicate 5 (.main o) ++ (.replicate n .call ++ .stop :: .replicate 3 (.main o))).main = .returned := by
  have hk : ∀ es, Inv (Execution.exec (App.step quote) a es) := fun es => Execution.invariant h fun _ _ => Inv.step
  have ⟨hc', hl⟩ := exec_main_left quote o 5 hc
  have hi := hk (.replicate 5 <| .main o)
  generalize hb : Execution.exec (App.step quote) a (.replicate 5 <| .main o) = b at hc' hl hi
  have hd : Drained b (Execution.exec (App.step quote) b <| .replicate b.worker.pending.length .call) := exec_call_drained
  refine ⟨b.worker.pending.length, ?_⟩
  rw [Execution.exec_append, hb, Execution.exec_append, Execution.exec_cons]
  generalize Execution.exec (App.step quote) b (.replicate b.worker.pending.length .call) = c at hd
  apply exec_main_returned
  case h  =>
    change c.stop.main.left = 0
    have h5 : a.main.left ≤ 5 := by cases a.main <;> simp [Main.left]
    rw [stop_main, hd.main]
    omega
  case hw =>
    intro hm
    change c.stop.main = _ at hm
    rw [stop_main, hd.main] at hm
    have hn : c.worker ≠ .none := mt hd.none.mp <| hi.spawned (by simp [hm, Main.Serving])
    exact (stop_eq (hd.ctx ▸ hc') hd.pending hn).right

end Ends

-- In any run, the calls are in order, and the run can end once the context has been cancelled.
theorem orderly_exec (cfg : Config) (es : List Event) : 
    let a := Execution.exec (step quote) { cfg := cfg } es
    Orderly a ∧ ∀ o, a.ctx → ∃ n, (Execution.exec (step quote) a <| 
      .replicate 5 (.main o) ++ (.replicate n .call ++ .stop :: .replicate 3 (.main o))).main = .returned :=
  have h : Inv (Execution.exec (step quote) { cfg := cfg } es) := 
    Execution.invariant (inv_init cfg) fun _ _ => Inv.step
  ⟨h.inOrder, fun _ => h.ends⟩

end App
end Agentscope
