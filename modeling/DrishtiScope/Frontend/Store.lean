import DrishtiScope.Api.Server
import DrishtiScope.Frontend.Client
import Mathlib.Data.List.Chain

open Go Agg Protocol

-- What the UI keeps, and what becomes of the messages of the daemon there.
namespace Frontend

inductive TabType
  | story
  | basic
  | medium
  | advanced
  | complete
  deriving DecidableEq

inductive ThemeMode
  | light
  | dark
  | ubuntu
  | unix
  | purple
  deriving DecidableEq

namespace ThemeMode

def all : List ThemeMode :=
  [light, dark, ubuntu, unix, purple]

def name : ThemeMode → String
  | light  => "light"
  | dark   => "dark"
  | ubuntu => "ubuntu"
  | unix   => "unix"
  | purple => "purple"

end ThemeMode

inductive RefreshRate
  | ms500
  | ms1000
  | ms2000
  | ms5000
  | manual
  deriving DecidableEq

def RefreshRate.name : RefreshRate → String
  | ms500  => "500"
  | ms1000 => "1000"
  | ms2000 => "2000"
  | ms5000 => "5000"
  | manual => "manual"

structure GraphSeries where
  key   : String
  name  : String
  color : String
  type  : String

structure ScratchGraph where
  id           : String
  title        : String
  type         : String
  description  : String
  helpMetricId : String
  yAxisLabel   : String
  series       : List GraphSeries
  dataPreset   : String

def defaultScratchGraphs : List ScratchGraph := [
  {
    id           := "sg-quantile"
    title        := "Syscall Latency Quantile Distribution (P50 – P99.9)"
    type         := "line"
    description  := "Kernel latency step function across statistical percentiles to detect severe tail-latency drag."
    helpMetricId := "latency_quantile_curve"
    yAxisLabel   := "Latency (µs)"
    series       := [⟨"latency", "Latency (µs)", "#a855f7", "line"⟩]
    dataPreset   := "quantile_curve"
  },
  {
    id           := "sg-runqueue"
    title        := "CFS Scheduler Runqueue & Thread Contention"
    type         := "composed"
    description  := "Correlating CPU scheduler wait line (runqueue) against active concurrency switches."
    helpMetricId := "scheduler_runqueue"
    yAxisLabel   := "Latency (µs) / Count"
    series       := [
      ⟨"runqueue", "Runqueue Wait (µs)", "#4285F4", "area"⟩,
      ⟨"threads", "Active Threads", "#FBBC04", "line"⟩
    ]
    dataPreset   := "runqueue_switches"
  },
  {
    id           := "sg-net-bidi"
    title        := "Bi-Directional Network Ingress vs Egress Streaming"
    type         := "area"
    description  := "Dual stream comparing outbound prompt payload (TX) against incoming LLM token stream (RX)."
    helpMetricId := "net_stream_bidi"
    yAxisLabel   := "Throughput (KB/s)"
    series       := [
      ⟨"rxKb", "Ingress RX (KB/s)", "#34A853", "area"⟩,
      ⟨"txKb", "Egress TX (KB/s)", "#EA4335", "area"⟩
    ]
    dataPreset   := "net_bidi"
  }
]

-- What the browser keeps between two visits of the page.
structure LocalStorage where
  theme       : Option String
  refresh     : Option String
  antiflicker : Option String

structure ScopeStore where
  snapshot           : Option Snapshot
  events             : List EventRow
  connection         : ConnectionStatus
  mode               : Option Bytes
  hello              : Option Hello
  selectedPid        : Option Int
  lastSnapshotAt     : Option Int
  theme              : ThemeMode
  activeTab          : TabType
  isPaused           : Bool
  timeRange          : String
  activeMetricHelpId : Option String
  isChatOpen         : Bool
  refreshRate        : String
  antiFlicker        : Bool
  scratchGraphs      : List ScratchGraph

namespace ScopeStore

variable (s : ScopeStore)

def setSnapshot (now : Int) (snap : Snapshot) : ScopeStore :=
  if s.isPaused then s else { s with snapshot := some snap, lastSnapshotAt := some now }

def addEvent (e : EventRow) : ScopeStore :=
  if s.isPaused then 
    s 
  else 
    let newEvents := s.events ++ [e]
    { s with events := if 300 < newEvents.length then newEvents.tail else newEvents }

def setConnection (c : ConnectionStatus) : ScopeStore :=
  { s with connection := c }

def setSelectedPid (pid : Option Int) : ScopeStore :=
  { s with selectedPid := pid }

def togglePause : ScopeStore :=
  { s with isPaused := !s.isPaused }

def setTimeRange (tr : String) : ScopeStore :=
  { s with timeRange := tr }

def openMetricHelp (id : String) : ScopeStore :=
  { s with activeMetricHelpId := some id }

def closeMetricHelp : ScopeStore :=
  { s with activeMetricHelpId := none }

def setChatOpen (isOpen : Bool) : ScopeStore :=
  { s with isChatOpen := isOpen }

def toggleChat : ScopeStore :=
  { s with isChatOpen := !s.isChatOpen }

def setActiveTab (t : TabType) : ScopeStore :=
  { s with activeTab := t }

def addScratchGraph (graph : ScratchGraph) : ScopeStore :=
  { s with scratchGraphs := s.scratchGraphs.filter (·.id ≠ graph.id) ++ [graph] }

def removeScratchGraph (id : String) : ScopeStore :=
  { s with scratchGraphs := s.scratchGraphs.filter (·.id ≠ id) }

def resetScratchGraphs : ScopeStore :=
  { s with scratchGraphs := defaultScratchGraphs }

end ScopeStore

def getInitialTheme (storage : LocalStorage) : ThemeMode :=
  (storage.theme.bind fun saved => ThemeMode.all.find? (·.name = saved)).getD .light

-- A missing entry, and an empty one.
def getInitialRefresh (storage : LocalStorage) : String :=
  if storage.refresh.getD "" = "" then "2000" else storage.refresh.getD ""

def getInitialAntiFlicker (storage : LocalStorage) : Bool :=
  storage.antiflicker ≠ some "false"

-- The classes of the page.
def applyThemeClasses (classList : List String) (t : ThemeMode) : List String :=
  classList.filter (· ∉ ThemeMode.all.map (·.name)) ++ [t.name]

-- White space in the sense of `parseInt`.
def isStrWhiteSpace (c : Char) : Bool :=
  c.toNat ∈ [9, 10, 11, 12, 13, 32, 0xa0, 0x1680, 0x2028, 0x2029, 0x202f, 0x205f, 0x3000, 0xfeff] || 
    (0x2000 ≤ c.toNat && c.toNat ≤ 0x200a)

-- In base 10. `none` is `NaN`.
def parseInt (s : String) : Option Int :=
  let value (cs : List Char) : Option Int :=
    match cs.takeWhile Char.isDigit with
    | []     => none
    | digits => some <| digits.foldl (fun n c => n * 10 + (c.toNat - '0'.toNat : Nat)) 0
  match s.toList.dropWhile isStrWhiteSpace with
  | '-' :: cs => (value cs).map (-·)
  | '+' :: cs => value cs
  | cs        => value cs

-- `parseInt(rate, 10) || 2000`.
def minInterval (rate : String) : Int :=
  match parseInt rate with
  | none | some 0 => 2000
  | some n        => n

inductive WsMessage
  | frame (f : Frame)
  | other (mode : Bytes)

def WsMessage.mode : WsMessage → Bytes
  | frame (.hello e)    => e.mode
  | frame (.snapshot e) => e.mode
  | frame (.event e)    => e.mode
  | other mode          => mode

-- The page: the store, the references of `App`, and what the browser keeps.
structure App where
  store          : ScopeStore
  lastUpdateRef  : Int
  refreshRateRef : String
  storage        : LocalStorage
  classList      : List String

namespace App

-- The page is loaded.
def load (storage : LocalStorage) (classList : List String) : App where
  lastUpdateRef  := 0
  refreshRateRef := getInitialRefresh storage
  storage        := storage
  classList      := applyThemeClasses classList <| getInitialTheme storage
  store          := {
    snapshot           := none
    events             := []
    connection         := .connecting
    mode               := none
    hello              := none
    selectedPid        := none
    lastSnapshotAt     := none
    theme              := getInitialTheme storage
    activeTab          := .basic
    isPaused           := false
    timeRange          := "live"
    activeMetricHelpId := none
    isChatOpen         := false
    refreshRate        := getInitialRefresh storage
    antiFlicker        := getInitialAntiFlicker storage
    scratchGraphs      := defaultScratchGraphs
  }

variable (a : App)

def setMode (mode : Bytes) : App :=
  if mode = [] then a else { a with store.mode := some mode }

-- A live snapshot gets through.
def Passes (now : Int) : Prop :=
  a.refreshRateRef ≠ "manual" ∧ minInterval a.refreshRateRef ≤ now - a.lastUpdateRef

instance : Decidable (a.Passes now) :=
  inferInstanceAs <| Decidable (_ ∧ _)

-- The clock is read for the distance of live snapshots, and again when the store takes the snapshot.
def onMessage (msg : WsMessage) (now setAt : Int) : App :=
  let a := a.setMode msg.mode
  match msg with
  | .frame (.hello e)    => { a with store.hello := some e.payload }
  | .frame (.snapshot e) => 
    if a.Passes now then { a with lastUpdateRef := now, store := a.store.setSnapshot setAt e.payload } else a
  | .frame (.event e)    => { a with store := a.store.addEvent e.payload }
  | .other _             => a

-- The answer to the request that is made when the page is loaded.
def onFetched (data : Envelope Snapshot) (now : Int) : App :=
  if data.kind = kindSnapshot then
    { a with store := a.store.setSnapshot now data.payload }.setMode data.mode
  else
    a

-- The answer to a request of the user.
def loadSnapshot (data : Envelope Snapshot) (now : Int) : App :=
  { a with store := a.store.setSnapshot now data.payload }

def setRefreshRate (rate : RefreshRate) : App :=
  { a with storage.refresh := some rate.name, store.refreshRate := rate.name }

-- The effect that runs once the page shows the new rate.
def runEffect : App :=
  { a with refreshRateRef := a.store.refreshRate }

def toggleAntiFlicker : App :=
  let next := !a.store.antiFlicker
  { a with storage.antiflicker := some (if next then "true" else "false"), store.antiFlicker := next }

def setTheme (t : ThemeMode) : App :=
  { a with 
    classList     := applyThemeClasses a.classList t
    storage.theme := some t.name
    store.theme   := t
  }

-- A theme that is not in the list has index -1.
def toggleTheme : App :=
  let themes : List ThemeMode := [.light, .dark, .ubuntu, .unix]
  let nextIdx := ((themes.idxOf? a.store.theme).elim 0 (· + 1)) % themes.length
  a.setTheme <| themes[nextIdx]?.getD .light

-- What the browser and the user do.
inductive Action
  | message (msg : WsMessage) (now setAt : Int)
  | setConnection (c : ConnectionStatus)
  | fetched (data : Envelope Snapshot) (now : Int)
  | loadSnapshot (data : Envelope Snapshot) (now : Int)
  | runEffect
  | setSelectedPid (pid : Option Int)
  | togglePause
  | setTimeRange (tr : String)
  | openMetricHelp (id : String)
  | closeMetricHelp
  | setChatOpen (isOpen : Bool)
  | toggleChat
  | setRefreshRate (rate : RefreshRate)
  | toggleAntiFlicker
  | setTheme (t : ThemeMode)
  | toggleTheme
  | setActiveTab (t : TabType)
  | addScratchGraph (graph : ScratchGraph)
  | removeScratchGraph (id : String)
  | resetScratchGraphs
  | reload (classList : List String)

def step : Action → App
  | .message msg now setAt => a.onMessage msg now setAt
  | .setConnection c       => { a with store := a.store.setConnection c }
  | .fetched data now      => a.onFetched data now
  | .loadSnapshot data now => a.loadSnapshot data now
  | .runEffect             => a.runEffect
  | .setSelectedPid pid    => { a with store := a.store.setSelectedPid pid }
  | .togglePause           => { a with store := a.store.togglePause }
  | .setTimeRange tr       => { a with store := a.store.setTimeRange tr }
  | .openMetricHelp id     => { a with store := a.store.openMetricHelp id }
  | .closeMetricHelp       => { a with store := a.store.closeMetricHelp }
  | .setChatOpen isOpen    => { a with store := a.store.setChatOpen isOpen }
  | .toggleChat            => { a with store := a.store.toggleChat }
  | .setRefreshRate rate   => a.setRefreshRate rate
  | .toggleAntiFlicker     => a.toggleAntiFlicker
  | .setTheme t            => a.setTheme t
  | .toggleTheme           => a.toggleTheme
  | .setActiveTab t        => { a with store := a.store.setActiveTab t }
  | .addScratchGraph graph => { a with store := a.store.addScratchGraph graph }
  | .removeScratchGraph id => { a with store := a.store.removeScratchGraph id }
  | .resetScratchGraphs    => { a with store := a.store.resetScratchGraphs }
  | .reload classList      => load a.storage classList

-- What the user gets to see since the page has been loaded, and the live snapshots that get through.
inductive Effect
  | loaded
  | heard (e : EventRow)
  | shown (snap : Snapshot) (now : Int)
  | passed (rate : String) (now : Int)

def shows (snap : Snapshot) (now : Int) : List Effect :=
  if a.store.isPaused then [] else [.shown snap now]

def effect : Action → List Effect
  | .message (.frame <| .event e) _ _          => if a.store.isPaused then [] else [.heard e.payload]
  | .message (.frame <| .snapshot e) now setAt => 
    if a.Passes now then .passed a.refreshRateRef now :: a.shows e.payload setAt else []
  | .fetched data now                          => if data.kind = kindSnapshot then a.shows data.payload now else []
  | .loadSnapshot data now                     => a.shows data.payload now
  | .reload _                                  => [.loaded]
  | _                                          => []

namespace Effect

-- Everything before the page was loaded is forgotten.
def since {α : Type} (f : Effect → Option α) (es : List Effect) : List α :=
  es.foldl (fun l e => match e with | .loaded => [] | e => l ++ (f e).toList) []

def heard? : Effect → Option EventRow
  | heard e => some e
  | _       => none

def shown? : Effect → Option (Snapshot × Int)
  | shown snap now => some (snap, now)
  | _              => none

def passed? : Effect → Option (String × Int)
  | passed rate now => some (rate, now)
  | _               => none

end Effect

def recent (rows : List EventRow) : List EventRow :=
  rows.drop (rows.length - 300)

-- A live snapshot that gets through after another one.
def Spaced (p q : String × Int) : Prop :=
  q.fst ≠ "manual" ∧ minInterval q.fst ≤ q.snd - p.snd

-- The page shows what it has been sent.
structure Faithful (a : App) (es : List Effect) : Prop where
  events         : a.store.events = recent (Effect.since Effect.heard? es)
  snapshot       : a.store.snapshot = (Effect.since Effect.shown? es).getLast?.map Prod.fst
  lastSnapshotAt : a.store.lastSnapshotAt = (Effect.since Effect.shown? es).getLast?.map Prod.snd
  lastUpdateRef  : a.lastUpdateRef = ((Effect.since Effect.passed? es).getLast?.map Prod.snd).getD 0
  spaced         : (("", 0) :: Effect.since Effect.passed? es).IsChain Spaced

-- The page would look the same if it was loaded again.
structure Settled (a : App) : Prop where
  theme       : getInitialTheme a.storage = a.store.theme
  refreshRate : getInitialRefresh a.storage = a.store.refreshRate
  antiFlicker : getInitialAntiFlicker a.storage = a.store.antiFlicker
  classList   : a.classList.filter (· ∈ ThemeMode.all.map (·.name)) = [a.store.theme.name]
  graphs      : (a.store.scratchGraphs.map (·.id)).Nodup

variable {a a' : App} {x : Action} {es : List Effect} {e : EventRow} {snap : Snapshot} {now setAt : Int} 
  {storage : LocalStorage} {classList : List String} {α : Type} {f : Effect → Option α}

theorem Effect.since_loaded : Effect.since f (es ++ [.loaded]) = [] := by
  simp [Effect.since]

theorem Effect.since_concat {e : Effect} (h : e ≠ .loaded) : 
    Effect.since f (es ++ [e]) = Effect.since f es ++ (f e).toList := by
  cases e
  case loaded => contradiction
  all_goals simp [Effect.since]

theorem Effect.since_append {fx : List Effect} (h : .loaded ∉ fx) : 
    Effect.since f (es ++ fx) = Effect.since f es ++ fx.filterMap f := by
  induction fx using List.reverseRecOn
  case nil => simp
  case append_singleton fx e hi =>
    simp only [List.mem_append, List.mem_singleton, not_or] at h
    rw [← List.append_assoc, since_concat (Ne.symm h.right), hi h.left, List.filterMap_append, 
      List.append_assoc]
    cases hf : f e <;> simp [hf]

-- The parts of the page that the messages have to do with.
structure Screen where
  events         : List EventRow
  snapshot       : Option Snapshot
  lastSnapshotAt : Option Int
  lastUpdateRef  : Int

def screen (a : App) : Screen :=
  ⟨a.store.events, a.store.snapshot, a.store.lastSnapshotAt, a.lastUpdateRef⟩

-- What a step does to the screen.
inductive Does (a a' : App) : List Effect → Prop
  | nothing (hs : a'.screen = a.screen) : Does a a' []
  | hears (e : EventRow) (hs : a'.screen = { a.screen with events := (a.store.addEvent e).events }) 
    (hp : a.store.isPaused = false) : Does a a' [.heard e]
  | shows (snap : Snapshot) (now : Int) 
    (hs : a'.screen = { a.screen with snapshot := some snap, lastSnapshotAt := some now }) : 
    Does a a' [.shown snap now]
  | passes (rate : String) (now : Int) (hs : a'.screen = { a.screen with lastUpdateRef := now }) 
    (hr : rate ≠ "manual") (hi : minInterval rate ≤ now - a.lastUpdateRef) : 
    Does a a' [.passed rate now]
  | loads (hs : a'.screen = ⟨[], none, none, 0⟩) : Does a a' [.loaded]

theorem setSnapshot_does : 
    Does a { a with store := a.store.setSnapshot now snap } (a.shows snap now) := by
  simp only [App.shows, ScopeStore.setSnapshot]
  split
  case isTrue  => exact .nothing rfl
  case isFalse => exact .shows snap now rfl

-- The oldest row makes room for the new one.
theorem tail_eq_appendCapped {l : List α} {cap : Nat} {p : α} (h : l.length ≤ cap) : 
    (if cap < (l ++ [p]).length then (l ++ [p]).tail else l ++ [p]) = appendCapped l cap p := by
  simp only [appendCapped]
  split
  case isFalse     => rfl
  case isTrue hlen =>
    have he : (l ++ [p]).length - cap = 1 := by
      rw [List.length_append, List.length_singleton] at hlen ⊢
      omega
    rw [he, List.drop_one]

theorem addEvent_events {rows : List EventRow} (h : a.store.events = recent rows) 
    (hp : a.store.isPaused = false) : (a.store.addEvent e).events = recent (rows ++ [e]) := by
  have hl : (recent rows).length ≤ 300 := by
    rw [recent, List.length_drop]
    omega
  have he : (a.store.addEvent e).events = appendCapped (recent rows) 300 e := by
    simp only [ScopeStore.addEvent, hp, h, Bool.false_eq_true, if_false]
    exact tail_eq_appendCapped hl
  rw [he, recent, appendCapped_eq, recent]

namespace Faithful

theorem of_screen (h : Faithful a es) (hs : a'.screen = a.screen) : Faithful a' es := by
  injection hs with he hn hl hu
  exact ⟨he ▸ h.events, hn ▸ h.snapshot, hl ▸ h.lastSnapshotAt, hu ▸ h.lastUpdateRef, h.spaced⟩

theorem loaded (hs : a'.screen = ⟨[], none, none, 0⟩) : Faithful a' (es ++ [.loaded]) := by
  injection hs with he hn hl hu
  constructor <;> simp only [Effect.since_loaded, he, hn, hl, hu]
  case events => rfl
  case spaced => exact .singleton _
  all_goals rfl

theorem does {fx : List Effect} (h : Faithful a es) (hd : Does a a' fx) : Faithful a' (es ++ fx) := by
  cases hd
  case nothing hs => 
    rw [List.append_nil]
    exact h.of_screen hs
  case loads hs   => exact loaded hs
  case hears e hs hp =>
    injection hs with he hn hl hu
    constructor <;> simp only [Effect.since_concat (e := .heard e) nofun, he, hn, hl, hu]
    case events => exact addEvent_events h.events hp
    all_goals simp only [Effect.shown?, Effect.passed?, Option.toList_none, List.append_nil]
    case snapshot       => exact h.snapshot
    case lastSnapshotAt => exact h.lastSnapshotAt
    case lastUpdateRef  => exact h.lastUpdateRef
    case spaced         => exact h.spaced
  case shows snap now hs =>
    injection hs with he hn hl hu
    constructor <;> simp only [Effect.since_concat (e := .shown snap now) nofun, he, hn, hl, hu]
    all_goals simp only [Effect.heard?, Effect.shown?, Effect.passed?, Option.toList_none, List.append_nil]
    case events         => exact h.events
    case lastUpdateRef  => exact h.lastUpdateRef
    case spaced         => exact h.spaced
    all_goals simp
  case passes rate now hs hr hi =>
    injection hs with he hn hl hu
    constructor <;> simp only [Effect.since_concat (e := .passed rate now) nofun, he, hn, hl, hu]
    all_goals simp only [Effect.heard?, Effect.shown?, Effect.passed?, Option.toList_none, List.append_nil]
    case events         => exact h.events
    case snapshot       => exact h.snapshot
    case lastSnapshotAt => exact h.lastSnapshotAt
    case lastUpdateRef  => simp
    case spaced         =>
      rw [Option.toList_some, ← List.cons_append, List.isChain_append]
      refine ⟨h.spaced, .singleton _, fun p hp q hq => ?_⟩
      rw [List.getLast?_cons] at hp
      cases hp
      cases hq
      rw [h.lastUpdateRef] at hi
      refine ⟨hr, ?_⟩
      cases hl : (Effect.since Effect.passed? es).getLast? <;> simpa [hl] using hi

theorem of_load : Faithful (load storage classList) [] := by
  have h : Faithful (load storage classList) ([] ++ [.loaded]) := loaded rfl
  exact ⟨h.events, h.snapshot, h.lastSnapshotAt, h.lastUpdateRef, h.spaced⟩

theorem setMode (h : Faithful a es) (mode : Bytes) : Faithful (a.setMode mode) es := by
  simp only [App.setMode]
  split
  case isTrue  => exact h
  case isFalse => exact h.of_screen rfl

theorem onMessage (h : Faithful a es) (msg : WsMessage) : 
    Faithful (a.onMessage msg now setAt) (es ++ a.effect (.message msg now setAt)) := by
  have hm := h.setMode msg.mode
  have hp : (a.setMode msg.mode).store.isPaused = a.store.isPaused := by
    simp only [App.setMode]
    split <;> rfl
  have hr : (a.setMode msg.mode).refreshRateRef = a.refreshRateRef := by
    simp only [App.setMode]
    split <;> rfl
  have hu : (a.setMode msg.mode).lastUpdateRef = a.lastUpdateRef := by
    simp only [App.setMode]
    split <;> rfl
  have hs : ∀ snap, (a.setMode msg.mode).shows snap setAt = a.shows snap setAt := 
    fun snap => by rw [App.shows, hp, App.shows]
  have hk : (a.setMode msg.mode).Passes now ↔ a.Passes now := by rw [Passes, hr, hu, Passes]
  simp only [App.onMessage]
  generalize a.setMode msg.mode = b at hm hp hr hu hs hk
  split
  case h_1 e => exact hm.does <| .nothing rfl
  case h_4   => exact hm.does <| .nothing rfl
  case h_2 e =>
    simp only [App.effect, ← hk, ← hs, ← hr]
    split
    case isFalse    => exact hm.does <| .nothing rfl
    case isTrue hps =>
      have hd : Does b { b with lastUpdateRef := now } [.passed b.refreshRateRef now] := 
        .passes b.refreshRateRef now rfl hps.left hps.right
      have hn := hm.does hd
      rw [← List.singleton_append, ← List.append_assoc]
      exact hn.does setSnapshot_does
  case h_3 e => 
    simp only [App.effect, ← hp]
    split
    case isTrue hps  => exact hm.does <| .nothing <| by simp [screen, ScopeStore.addEvent, hps]
    case isFalse hps => exact hm.does <| .hears _ (by simp [screen, ScopeStore.addEvent, hps]) <| by simpa using hps

-- Each step of the page is told by its effects.
theorem step (h : Faithful a es) : Faithful (a.step x) (es ++ a.effect x) := by
  cases x
  case message msg now setAt => exact h.onMessage msg
  case loadSnapshot data now => exact h.does setSnapshot_does
  case reload                => exact h.does <| .loads rfl
  case fetched data now      => 
    simp only [App.step, App.onFetched, App.effect]
    split
    case isTrue  => exact (h.does setSnapshot_does).setMode _
    case isFalse => exact h.does <| .nothing rfl
  all_goals exact h.does <| .nothing rfl

end Faithful

-- Only the user pauses the page.
theorem isPaused_step (hp : x ≠ .togglePause) (hl : .loaded ∉ a.effect x) : 
    (a.step x).store.isPaused = a.store.isPaused := by
  have hm : ∀ (a : App) mode, (a.setMode mode).store.isPaused = a.store.isPaused := by
    intro a mode
    simp only [App.setMode]
    split <;> rfl
  have hs : ∀ (s : ScopeStore) snap now, (s.setSnapshot now snap).isPaused = s.isPaused := by
    intro s snap now
    simp only [ScopeStore.setSnapshot]
    split <;> rfl
  cases x
  case togglePause        => contradiction
  case reload             => simp [App.effect] at hl
  case loadSnapshot       => exact hs ..
  case fetched            =>
    simp only [App.step, App.onFetched]
    split
    case isTrue  => rw [hm, hs]
    case isFalse => rfl
  case message msg _ _    =>
    rw [← hm a msg.mode]
    simp only [App.step, App.onMessage]
    generalize a.setMode msg.mode = b
    split
    case h_2 => 
      split
      case isTrue  => rw [hs]
      case isFalse => rfl
    case h_3 => 
      simp only [ScopeStore.addEvent]
      split <;> rfl
    all_goals rfl
  all_goals rfl

namespace Settled

theorem find?_name (t : ThemeMode) : ThemeMode.all.find? (·.name = t.name) = some t := by
  cases t <;> decide

theorem filter_applyThemeClasses {t : ThemeMode} : 
    (applyThemeClasses classList t).filter (· ∈ ThemeMode.all.map (·.name)) = [t.name] := by
  have ht : t.name ∈ ThemeMode.all.map (·.name) := by cases t <;> decide
  rw [applyThemeClasses, List.filter_append, List.filter_cons_of_pos (by simpa using ht), List.filter_nil, 
    List.filter_eq_nil_iff.mpr (by simp), List.nil_append]

theorem nodup_defaultScratchGraphs : (defaultScratchGraphs.map (·.id)).Nodup := by
  decide

theorem of_load : Settled (load storage classList) where
  theme       := rfl
  refreshRate := rfl
  antiFlicker := rfl
  classList   := filter_applyThemeClasses
  graphs      := nodup_defaultScratchGraphs

theorem setTheme (h : Settled a) (t : ThemeMode) : Settled (a.setTheme t) where
  theme       := by simp [App.setTheme, getInitialTheme, find?_name]
  refreshRate := h.refreshRate
  antiFlicker := h.antiFlicker
  classList   := filter_applyThemeClasses
  graphs      := h.graphs

theorem of_eq (h : Settled a) (ht : a'.store.theme = a.store.theme) 
    (hr : a'.store.refreshRate = a.store.refreshRate) (hf : a'.store.antiFlicker = a.store.antiFlicker) 
    (hg : a'.store.scratchGraphs = a.store.scratchGraphs) (hs : a'.storage = a.storage) 
    (hc : a'.classList = a.classList) : Settled a' :=
  ⟨ht ▸ hs ▸ h.theme, hr ▸ hs ▸ h.refreshRate, hf ▸ hs ▸ h.antiFlicker, hc ▸ ht ▸ h.classList, hg ▸ h.graphs⟩

-- Where the settings and the graphs stay the same.
theorem messages (h : Settled a) {store : ScopeStore} {lastUpdateRef : Int} {refreshRateRef : String} 
    (ht : store.theme = a.store.theme) (hr : store.refreshRate = a.store.refreshRate) 
    (hf : store.antiFlicker = a.store.antiFlicker) (hg : store.scratchGraphs = a.store.scratchGraphs) : 
    Settled { a with store, lastUpdateRef, refreshRateRef } :=
  h.of_eq ht hr hf hg rfl rfl

theorem setMode (h : Settled a) (mode : Bytes) : Settled (a.setMode mode) := by
  simp only [App.setMode]
  split
  case isTrue  => exact h
  case isFalse => exact h.messages rfl rfl rfl rfl

theorem setSnapshot (h : Settled a) : Settled { a with store := a.store.setSnapshot now snap } := by
  simp only [ScopeStore.setSnapshot]
  split <;> exact h.messages rfl rfl rfl rfl

theorem onMessage (h : Settled a) (msg : WsMessage) : Settled (a.onMessage msg now setAt) := by
  have hm := h.setMode msg.mode
  simp only [App.onMessage]
  generalize a.setMode msg.mode = b at hm
  split
  case h_1 => exact hm.messages rfl rfl rfl rfl
  case h_2 =>
    split
    case isTrue  => exact Settled.setSnapshot (a := { b with lastUpdateRef := now }) <| hm.messages rfl rfl rfl rfl
    case isFalse => exact hm
  case h_3 => 
    simp only [ScopeStore.addEvent]
    split <;> exact hm.messages rfl rfl rfl rfl
  case h_4 => exact hm

theorem withGraphs (h : Settled a) {gs : List ScratchGraph} (hg : (gs.map (·.id)).Nodup) : 
    Settled { a with store.scratchGraphs := gs } :=
  ⟨h.theme, h.refreshRate, h.antiFlicker, h.classList, hg⟩

theorem nodup_filter (h : Settled a) (id : String) : 
    ((a.store.scratchGraphs.filter (·.id ≠ id)).map (·.id)).Nodup :=
  h.graphs.sublist <| List.filter_sublist.map _

theorem step (h : Settled a) : Settled (a.step x) := by
  cases x
  case message msg _ _    => exact h.onMessage msg
  case loadSnapshot       => exact h.setSnapshot
  case setTheme t         => exact h.setTheme t
  case toggleTheme        => exact h.setTheme _
  case removeScratchGraph => exact h.withGraphs <| h.nodup_filter _
  case resetScratchGraphs => exact h.withGraphs nodup_defaultScratchGraphs
  case reload             => exact of_load
  case fetched            =>
    simp only [App.step, App.onFetched]
    split
    case isTrue  => exact h.setSnapshot.setMode _
    case isFalse => exact h
  case setRefreshRate rate   =>
    refine ⟨h.theme, ?_, h.antiFlicker, h.classList, h.graphs⟩
    have hr : rate.name ≠ "" := by cases rate <;> decide
    exact if_neg hr
  case toggleAntiFlicker     => 
    refine ⟨h.theme, h.refreshRate, ?_, h.classList, h.graphs⟩
    have ht : ∀ next : Bool, decide (some (if next then "true" else "false") ≠ some "false") = next := by decide
    exact ht _
  case addScratchGraph graph => 
    refine h.withGraphs ?_
    rw [List.map_append, List.map_cons, List.map_nil, List.nodup_append]
    refine ⟨h.nodup_filter _, by simp, fun id hi id' hi' he => ?_⟩
    have ⟨g, hg, hn⟩ := List.mem_map.mp hi
    have hne := (List.mem_filter.mp hg).right
    simp_all
  all_goals exact h.messages rfl rfl rfl rfl

end Settled

-- In any run, the page shows the last rows and the last snapshot that it has let through since it was loaded,
-- live snapshots keep their distance, and a reload changes no setting.
theorem faithful_exec (storage : LocalStorage) (classList : List String) (as : List Action) : 
    let a := Execution.exec App.step (load storage classList) as
    Faithful a (Execution.outputs App.step effect (load storage classList) as) ∧ Settled a := by
  induction as using List.reverseRecOn
  case nil => exact ⟨.of_load, .of_load⟩
  case append_singleton as x hi =>
    rw [Execution.exec_concat, Execution.outputs_concat]
    exact ⟨hi.left.step, hi.right.step⟩

end App
end Frontend
