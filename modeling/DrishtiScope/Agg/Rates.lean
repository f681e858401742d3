import DrishtiScope.Go.Time
import DrishtiScope.Lib.SharedTable
import Mathlib.Data.Nat.ModEq
import Mathlib.Algebra.Order.Field.Rat
import Mathlib.Algebra.BigOperators.Group.List.Basic
import Mathlib.Tactic.Ring

open Go

-- Counters whose rates are updated once a second has passed, and a map of such counters that goroutines
-- share.
namespace Agg

structure Counter where
  lastUpdate : Time
  currentSec : UInt64
  rate1s     : ℚ
  rate5s     : ℚ

namespace Counter

def new (now : Time) : Counter where
  lastUpdate := now
  currentSec := 0
  rate1s     := 0
  rate5s     := 0

def elapsed (c : Counter) (now : Time) : ℚ :=
  (now.sub c.lastUpdate).seconds

-- The moving average over five seconds.
def average (rate5s rate : ℚ) : ℚ :=
  let alpha : ℚ := 1 / 3
  if rate5s = 0 then rate else alpha * rate + (1 - alpha) * rate5s

def update (c : Counter) (now : Time) : Counter :=
  if 1 ≤ c.elapsed now then
    let rate := c.currentSec.toNat / c.elapsed now
    {
      lastUpdate := now
      currentSec := 0
      rate1s     := rate
      rate5s     := average c.rate5s rate
    }
  else
    c

-- What is done to a counter while its lock is held.
inductive Call
  | add (delta : UInt64)
  | rate1s
  | rate5s
  deriving DecidableEq

def count (c : Counter) : Call → Counter
  | .add delta => { c with currentSec := c.currentSec + delta }
  | _          => c

def apply (c : Counter) (call : Call) (now : Time) : Counter :=
  (c.count call).update now

def Call.delta : Call → Nat
  | .add delta => delta.toNat
  | _          => 0

def added (cs : List (Call × Time)) : Nat :=
  (cs.map (·.fst.delta)).sum

-- The counter that was made at `born` and has been through the calls, in this order.
def after (born : Time) (cs : List (Call × Time)) : Counter :=
  cs.foldl (fun c call => c.apply call.fst call.snd) (new born)

-- A part of the time, and the calls that were made in it.
structure Window where
  start : Time
  stop  : Time
  calls : List (Call × Time)

namespace Window

def seconds (w : Window) : ℚ :=
  (w.stop.sub w.start).seconds

-- The number has 64 bits.
def rate (w : Window) : ℚ :=
  (added w.calls % 2 ^ 64 : Nat) / w.seconds

-- The calls of a second that are too early to end the window.
def Running (start : Time) (cs : List (Call × Time)) : Prop :=
  ∀ call ∈ cs, (call.snd.sub start).seconds < 1

-- It ends with the first call after a second.
inductive Closed (w : Window) : Prop
  | intro (cs : List (Call × Time)) (call : Call) (hc : w.calls = cs ++ [(call, w.stop)]) 
    (hr : Running w.start cs) (hl : 1 ≤ w.seconds)

-- The windows follow each other from one time to another.
inductive Follow : Time → List Window → Time → Prop
  | nil (t : Time) : Follow t [] t
  | concat {t : Time} {ws : List Window} {w : Window} : Follow t ws w.start → Follow t (ws ++ [w]) w.stop

end Window

open Window

-- The calls on a counter are those of closed windows and of one that is still running.
structure History (c : Counter) (born : Time) (cs : List (Call × Time)) (ws : List Window) 
    (rest : List (Call × Time)) : Prop where
  follow     : Follow born ws c.lastUpdate
  closed     : ∀ w ∈ ws, w.Closed
  calls      : cs = ws.flatMap (·.calls) ++ rest
  running    : Running c.lastUpdate rest
  currentSec : c.currentSec.toNat = added rest % 2 ^ 64
  rate1s     : c.rate1s = (ws.getLast?.map Window.rate).getD 0
  rate5s     : c.rate5s = (ws.map Window.rate).foldl average 0

namespace History

variable {c : Counter} {born now : Time} {cs rest : List (Call × Time)} {ws : List Window} {call : Call}

theorem start : History (new born) born [] [] [] where
  follow      := .nil born
  closed _ h  := by contradiction
  calls       := rfl
  running _ h := by contradiction
  currentSec  := rfl
  rate1s      := rfl
  rate5s      := rfl

theorem added_concat : added (rest ++ [(call, now)]) = added rest + call.delta := by 
  simp [added]

variable (now call) in
theorem currentSec_count (h : c.currentSec.toNat = added rest % 2 ^ 64) : 
    (c.count call).currentSec.toNat = added (rest ++ [(call, now)]) % 2 ^ 64 := by
  rw [added_concat]
  cases call
  case rate1s | rate5s => exact h
  case add delta       =>
    have hc : (c.currentSec + delta).toNat = (c.currentSec.toNat + delta.toNat) % 2 ^ 64 := UInt64.toNat_add ..
    rw [Counter.count, Call.delta, hc, h, Nat.mod_add_mod]

variable (c call) in
theorem count_fields : 
    (c.count call).lastUpdate = c.lastUpdate ∧ (c.count call).rate1s = c.rate1s ∧ 
      (c.count call).rate5s = c.rate5s := by
  cases call <;> exact ⟨rfl, rfl, rfl⟩

-- A call that comes late enough closes the window.
theorem apply (h : History c born cs ws rest) (call : Call) (now : Time) : 
    ∃ ws' rest', History (c.apply call now) born (cs ++ [(call, now)]) (ws ++ ws') rest' := by
  have ⟨hl, h1, h5⟩ := count_fields c call
  have hn := currentSec_count now call h.currentSec
  have he : (c.count call).elapsed now = (now.sub c.lastUpdate).seconds := by rw [elapsed, hl]
  simp only [Counter.apply, Counter.update]
  split
  case isFalse hlt =>
    refine ⟨[], rest ++ [(call, now)], ?_⟩
    rw [List.append_nil]
    constructor
    case follow     => exact hl ▸ h.follow
    case closed     => exact h.closed
    case calls      => rw [h.calls, List.append_assoc]
    case currentSec => exact hn
    case rate1s     => exact h1.trans h.rate1s
    case rate5s     => exact h5.trans h.rate5s
    case running    =>
      intro p hp
      rw [hl]
      cases List.mem_append.mp hp
      case inl hm => exact h.running p hm
      case inr hm => 
        rw [List.mem_singleton.mp hm, ← he]
        exact not_le.mp hlt
  case isTrue hle =>
    let w : Window := ⟨c.lastUpdate, now, rest ++ [(call, now)]⟩
    have hr : (c.count call).currentSec.toNat / (c.count call).elapsed now = w.rate := by
      rw [he, hn]
      rfl
    refine ⟨[w], [], ?_⟩
    constructor
    case follow     => exact .concat h.follow
    case calls      => simp [h.calls, w]
    case currentSec => rfl
    case rate1s     => simp [hr]
    case rate5s     => simp [hr, h5, h.rate5s]
    case running    =>
      intro p hp
      contradiction
    case closed     =>
      intro p hp
      cases List.mem_append.mp hp
      case inl hm => exact h.closed p hm
      case inr hm => 
        rw [List.mem_singleton.mp hm]
        exact ⟨rest, call, rfl, h.running, hle.trans he.le⟩

theorem after (born : Time) (cs : List (Call × Time)) : 
    ∃ ws rest, History (after born cs) born cs ws rest := by
  induction cs using List.reverseRecOn
  case nil => exact ⟨[], [], start⟩
  case append_singleton cs call hi =>
    have ⟨ws, rest, h⟩ := hi
    have ⟨ws', rest', h'⟩ := h.apply call.fst call.snd
    exact ⟨_, rest', by simpa [Counter.after] using h'⟩

end History

section Average

variable {lo hi r rate : ℚ} {rates : List ℚ}

end Average
end Counter

namespace RateMap

open SharedTable Counter

-- Only `Add` makes a counter for a key that has none.
def system : System Call Time Counter where
  make    := .new
  creates := fun | .add _ => true | _ => false
  apply   := .apply

variable {ι : Type*} [DecidableEq ι]

abbrev State (ι : Type*) := SharedTable.State ι Bytes Call Counter
abbrev Action (ι : Type*) := SharedTable.Action ι Bytes Call Time

-- What `Rate1s` and `Rate5s` return.
def result (c : Counter) : Call → Option ℚ
  | .add _  => none
  | .rate1s => some c.rate1s
  | .rate5s => some c.rate5s

-- The rates that the calls of the goroutines return, for the key that is asked for.
def reply (s : State ι) : Action ι → Option (Bytes × Call × ℚ)
  | .lookup i key call =>
    match s.phase i, s.table key with
    | .idle, none => if system.creates call then none else some (key, call, 0)
    | _, _        => none
  | .create ..         => none
  | .operate i now     =>
    match s.phase i with
    | .holding key call ref => 
      s.objects[ref]?.bind fun c => (result (c.apply call now) call).map (key, call, ·)
    | _                     => none

variable {s : State ι} {as : List (Action ι)} {a : Action ι} {key : Bytes} {call : Call} {r : ℚ}

def run (as : List (Action ι)) : State ι :=
  Execution.exec system.step .empty as

-- What the goroutines have done to the counters, in the order in which they had them to themselves.
def effects (as : List (Action ι)) : List (Effect Bytes Call Time) :=
  Execution.outputs system.step State.effect .empty as

-- Either nothing has been added for the key, or there is one counter, and it is what all calls on the key have 
-- made of the one that was put into the map.
inductive Recorded (s : State ι) (key : Bytes) (es : List (Effect Bytes Call Time)) : Prop
  | absent (hf : s.find key = none) (hc : System.calls key es = [])
  | present (born : Time) (ws : List Window) (rest : List (Call × Time)) (hm : .made key born ∈ es) 
    (hf : s.find key = some (.after born <| System.calls key es)) 
    (hh : History (.after born <| System.calls key es) born (System.calls key es) ws rest)

-- What a goroutine is told about a key, after it has made its call.
inductive Reports (s : State ι) (key : Bytes) (es : List (Effect Bytes Call Time)) : Call → ℚ → Prop
  | absent (call : Call) (hf : s.find key = none) (hc : System.calls key es = []) : Reports s key es call 0
  | rate1s (c : Counter) (born : Time) (ws : List Window) (rest : List (Call × Time)) (hf : s.find key = some c) 
    (hh : History c born (System.calls key es) ws rest) : 
    Reports s key es .rate1s <| (ws.getLast?.map Window.rate).getD 0
  | rate5s (c : Counter) (born : Time) (ws : List Window) (rest : List (Call × Time)) (hf : s.find key = some c) 
    (hh : History c born (System.calls key es) ws rest) 
    (hb : ∀ lo hi, ws ≠ [] → (∀ w ∈ ws, lo ≤ w.rate ∧ w.rate ≤ hi) → lo ≤ c.rate5s ∧ c.rate5s ≤ hi) : 
    Reports s key es .rate5s <| (ws.map Window.rate).foldl average 0

-- Two goroutines find no counter and count one call each, and a third one asks for the rate.
example : 
    let as : List (Action (Fin 3)) := [
      .lookup 0 (str "openat") (.add 1), .lookup 1 (str "openat") (.add 1), .create 1 0, .create 0 0, 
      .operate 0 0, .lookup 2 (str "openat") .rate1s, .operate 1 0
    ]
    reply (run as) (.operate 2 <| 10 ^ 9) = some (str "openat", .rate1s, 2) := by
  decide +kernel

end RateMap
end Agg
