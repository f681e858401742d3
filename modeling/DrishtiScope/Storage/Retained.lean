import DrishtiScope.Lib.Execution
import DrishtiScope.Storage.SQLite

open Go Retention

-- What the database keeps over all of its openings.
namespace Storage.Retained

-- Beside the file and its handle the state keeps the books: what has been recorded, the newest first,
-- and how much of it there was when the tables were last pruned.
structure State where
  file             : Database
  handle           : Option DB
  recorded         : List EventRecord
  inserted         : List SnapshotRecord
  eventsAtPrune    : Nat
  snapshotsAtPrune : Nat
  clock            : Int

def start : State where
  file             := .empty
  handle           := none
  recorded         := []
  inserted         := []
  eventsAtPrune    := 0
  snapshotsAtPrune := 0
  clock            := 0

-- Every statement succeeds.
inductive Call
  | openDB
  | recordSnapshot (nowMs : Int) (snap : Option Agg.Snapshot)
  | recordEvent (nowMs : Int) (e : Agg.EventRow)
  | close

-- The entries of the books after a write.
def enter (s : State) (h : DB) (recorded : List EventRecord) (inserted : List SnapshotRecord) : 
    State :=
  { s with
    recorded         := recorded
    inserted         := inserted
    eventsAtPrune    := if h.prunes then recorded.length else s.eventsAtPrune
    snapshotsAtPrune := if h.prunes then inserted.length else s.snapshotsAtPrune
  }

-- The snapshot that a call inserts.
def insertedBy (h : DB) (nowMs : Int) (snap : Option Agg.Snapshot) : Option SnapshotRecord :=
  if h.throttles nowMs then 
    none 
  else 
    snap.map <| DB.snapshotRecord (h.file.sequence + 1) nowMs

def step (s : State) : Call → State
  | .openDB => { s with handle := some (Storage.openDB s.file) }
  | .close  => { s with handle := none }
  | .recordEvent nowMs e =>
    match s.handle with
    | none   => s
    | some h =>
      let h' := (h.recordEvent nowMs {} e).fst
      let s' := enter s h (⟨e, nowMs⟩ :: s.recorded) s.inserted
      { s' with file := h'.file, handle := some h', clock := nowMs }
  | .recordSnapshot nowMs snap =>
    match s.handle with
    | none   => s
    | some h =>
      let h' := (h.recordSnapshot nowMs {} snap).fst
      let s' := 
        match insertedBy h nowMs snap with
        | some r => enter s h s.recorded (r :: s.inserted)
        | none   => s
      { s' with file := h'.file, handle := some h', clock := nowMs }

-- The clock does not go back, and ids are not used twice.
def Regular (s : State) : Call → Prop
  | .recordEvent nowMs e      => s.clock ≤ nowMs ∧ ∀ r ∈ s.recorded, r.row.id ≠ e.id
  | .recordSnapshot nowMs _   => s.clock ≤ nowMs
  | _                         => True

-- The call writes a row after which the tables are pruned.
def Prunes (s : State) : Call → Prop
  | .recordEvent _ _           => ∃ h, s.handle = some h ∧ h.prunes
  | .recordSnapshot nowMs snap => 
    ∃ h, s.handle = some h ∧ h.prunes ∧ (insertedBy h nowMs snap).isSome
  | _                          => False

-- The tables contain the newest rows, and not too many others.
structure Bounded (s : State) : Prop where
  events         : s.recorded.take maxStoredEvents ⊆ s.file.events
  snapshots      : s.inserted.take maxStoredSnapshots ⊆ s.file.snapshots
  eventsBound    : s.file.events.length ≤ 2031
  snapshotsBound : s.file.snapshots.length ≤ 1031

def Kept (s : State) (c : Call) : Prop :=
  Bounded (step s c)

-- The rows of a table that has been pruned when `n₀` rows had been recorded, after `n` rows.
def rows (max n₀ n : Nat) : Nat :=
  min max n₀ + (n - n₀)

-- When the tables are pruned, the oldest event that stays is newer than the newest one that goes, and
-- they are pruned before too many rows have been recorded.
structure Spaced (s : State) (c : Call) : Prop where
  ties : Prunes s c → 
    maxStoredEvents < rows maxStoredEvents s.eventsAtPrune (step s c).recorded.length → 
      ¬Tie (·.tsUnix) maxStoredEvents (step s c).recorded
  events : ¬Prunes s c → 
    rows maxStoredEvents s.eventsAtPrune (step s c).recorded.length ≤ 2031
  snapshots : ¬Prunes s c → 
    rows maxStoredSnapshots s.snapshotsAtPrune (step s c).inserted.length ≤ 1031

section Tables

variable {α : Type*} {key : α → Int} {l : List α} {x : α} {max n₀ n : Nat}

theorem rows_succ (h : n₀ ≤ n) : rows max n₀ (n + 1) = rows max n₀ n + 1 := by
  simp only [rows]
  omega

theorem rows_self : rows max n n = min max n := by
  simp [rows]

theorem le_rows : min max n ≤ rows max n₀ n := by
  simp only [rows]
  omega

theorem take_rows_length (h : n₀ ≤ l.length) : 
    (l.take (rows max n₀ l.length)).length = rows max n₀ l.length := by
  simp only [rows, List.length_take]
  omega

theorem take_rows_cons (h : n₀ ≤ l.length) : 
    x :: l.take (rows max n₀ l.length) = (x :: l).take (rows max n₀ (x :: l).length) := by
  rw [List.length_cons, rows_succ h, List.take_succ_cons]

-- The newest rows are among those that are left.
theorem take_subset_take_rows : l.take max ⊆ l.take (rows max n₀ l.length) := by
  have he : l.take max = l.take (min max l.length) := by
    rw [List.take_eq_take_iff]
    omega
  rw [he]
  exact (List.take_prefix_take_left le_rows).subset

theorem tie_take_iff (hm : 0 < max) (h : max < rows max n₀ n) : 
    Tie key max (l.take (rows max n₀ n)) ↔ Tie key max l := by
  have h₁ : max - 1 < rows max n₀ n := by omega
  simp only [Tie, List.getElem?_take_of_lt h₁, List.getElem?_take_of_lt h]

theorem keepGreatest_take_rows (hd : Descending key l) (hm : 0 < max) (hn : n₀ ≤ l.length) 
    (ht : max < rows max n₀ l.length → ¬Tie key max l) : 
    keepGreatest key max (l.take (rows max n₀ l.length)) = l.take (rows max l.length l.length) := by
  have hd' := hd.take (rows max n₀ l.length)
  rw [rows_self]
  by_cases hl : max < rows max n₀ l.length
  case pos =>
    rw [keepGreatest_eq_take hd' (mt (tie_take_iff hm hl).mp (ht hl)), List.take_take, 
      Nat.min_eq_left hl.le, List.take_eq_take_iff]
    omega
  case neg =>
    rw [keepGreatest_eq_self hd' (by rw [take_rows_length hn]; omega), List.take_eq_take_iff]
    simp only [rows] at hl ⊢
    omega

end Tables

-- The tables hold the newest rows of the books.
structure Invariant (s : State) : Prop where
  handle    : ∀ h, s.handle = some h → h.file = s.file
  events    : s.file.events = s.recorded.take (rows maxStoredEvents s.eventsAtPrune s.recorded.length)
  snapshots : s.file.snapshots = 
    s.inserted.take (rows maxStoredSnapshots s.snapshotsAtPrune s.inserted.length)
  eventsAtPrune    : s.eventsAtPrune ≤ s.recorded.length
  snapshotsAtPrune : s.snapshotsAtPrune ≤ s.inserted.length
  sorted    : Descending (·.tsUnix) s.recorded
  clock     : ∀ r ∈ s.recorded, r.tsUnix ≤ s.clock
  ids       : s.inserted.Pairwise fun a b => b.id < a.id
  sequence  : ∀ r ∈ s.inserted, r.id ≤ s.file.sequence

-- The state between a write and the pruning that may follow it.
def insertEvent (s : State) (h : DB) (nowMs : Int) (e : Agg.EventRow) : State :=
  let h' := { h.insertEvent nowMs e with writes := h.writes + 1 }
  { s with 
    file     := h'.file
    handle   := some h'
    recorded := ⟨e, nowMs⟩ :: s.recorded
    clock    := nowMs
  }

def insertSnapshot (s : State) (h : DB) (nowMs : Int) (snap : Agg.Snapshot) : State :=
  let h' := { h.insertSnapshot nowMs snap with writes := h.writes + 1, lastSnapTime := nowMs }
  { s with 
    file     := h'.file
    handle   := some h'
    inserted := DB.snapshotRecord (h.file.sequence + 1) nowMs snap :: s.inserted
    clock    := nowMs
  }

def prune (s : State) : State :=
  { s with
    file             := { s.file with
      snapshots := keepGreatest (·.id) maxStoredSnapshots s.file.snapshots
      events    := keepGreatest (·.tsUnix) maxStoredEvents s.file.events
    }
    handle           := s.handle.map DB.prune
    eventsAtPrune    := s.recorded.length
    snapshotsAtPrune := s.inserted.length
  }

-- What a call can do.
inductive Effect (s : State) : Call → State → Prop
  | idle {c} (handle clock) : (∀ h, handle = some h → h.file = s.file) → 
      (Regular s c → s.clock ≤ clock) → Effect s c { s with handle, clock }
  | event {h nowMs e} : s.handle = some h → 
      Effect s (.recordEvent nowMs e) (insertEvent s h nowMs e)
  | snapshot {h nowMs snap} : s.handle = some h → 
      Effect s (.recordSnapshot nowMs (some snap)) (insertSnapshot s h nowMs snap)

variable {s s' : State} {c : Call} {h : DB} {nowMs : Int} {e : Agg.EventRow} {snap : Agg.Snapshot}

theorem step_recordEvent (hh : s.handle = some h) : 
    step s (.recordEvent nowMs e) = 
      if h.prunes then prune (insertEvent s h nowMs e) else insertEvent s h nowMs e := by
  by_cases hp : h.prunes
  case pos => 
    have hm := DB.maybePrune_of_prunes (s := h.insertEvent nowMs e) hp
    simp only [step, hh, DB.recordEvent_succeeds, hm, hp, if_true, enter]
    rfl
  case neg =>
    have hm := DB.maybePrune_of_not_prunes (s := h.insertEvent nowMs e) hp
    simp only [step, hh, DB.recordEvent_succeeds, hm, hp, enter]
    rfl

theorem step_recordSnapshot (hh : s.handle = some h) (ht : ¬h.throttles nowMs) : 
    step s (.recordSnapshot nowMs (some snap)) = 
      if h.prunes then prune (insertSnapshot s h nowMs snap) else insertSnapshot s h nowMs snap := by
  have hp' : ({ h with lastSnapTime := nowMs }.insertSnapshot nowMs snap).prunes = h.prunes := rfl
  by_cases hp : h.prunes
  case pos => 
    have hm := DB.maybePrune_of_prunes (hp'.trans hp)
    simp only [step, hh, DB.recordSnapshot_succeeds ht, hm, insertedBy, ht, Option.map_some, 
      hp, if_true, enter]
    rfl
  case neg =>
    have hm := DB.maybePrune_of_not_prunes (hp'.symm ▸ hp)
    simp only [step, hh, DB.recordSnapshot_succeeds ht, hm, insertedBy, ht, Option.map_some, 
      hp, enter]
    rfl

theorem step_idle (hs : ∀ h, s.handle = some h → h.file = s.file) 
    (hh : s.handle = some h) (ht : insertedBy h nowMs snap? = none) : 
    step s (.recordSnapshot nowMs snap?) = { s with clock := nowMs } := by
  have hr : h.recordSnapshot nowMs {} snap? = (h, .ok ()) := by
    cases snap?
    case none   => exact DB.recordSnapshot_none
    case some _ => exact DB.recordSnapshot_throttled (by simpa [insertedBy] using ht)
  simp only [step, hh, hr, ht, hs h hh]

-- Either the call does not prune, or it does after what it has done otherwise.
theorem step_effect (hs : ∀ h, s.handle = some h → h.file = s.file) : 
    ∃ s', Effect s c s' ∧ (Prunes s c ∧ step s c = prune s' ∨ ¬Prunes s c ∧ step s c = s') := by
  cases hh : s.handle <;> cases c
  case some.recordEvent h nowMs e =>
    refine ⟨_, .event hh, ?_⟩
    rw [step_recordEvent hh]
    by_cases hp : h.prunes <;> simp [Prunes, hh, hp]
  case some.recordSnapshot h nowMs snap? =>
    cases ht : insertedBy h nowMs snap?
    case none =>
      refine ⟨_, .idle s.handle nowMs hs id, .inr ⟨?_, ?_⟩⟩
      · simp [Prunes, hh, ht]
      · exact step_idle hs hh ht
    case some r =>
      have ⟨snap, hsnap⟩ : ∃ snap, snap? = some snap := by
        cases snap? <;> simp_all [insertedBy]
      subst hsnap
      have ht' : ¬h.throttles nowMs := by
        intro ht'
        simp [insertedBy, ht'] at ht
      refine ⟨_, .snapshot hh, ?_⟩
      rw [step_recordSnapshot hh ht']
      by_cases hp : h.prunes <;> simp [Prunes, hh, hp, ht]
  case some.openDB | none.openDB =>
    refine ⟨_, .idle (some <| Storage.openDB s.file) s.clock ?_ fun _ => le_refl _, 
      .inr ⟨not_false, rfl⟩⟩
    rintro _ ⟨_⟩
    rfl
  case some.close | none.close =>
    refine ⟨_, .idle none s.clock (by simp) fun _ => le_refl _, 
      .inr ⟨not_false, rfl⟩⟩
  case none.recordEvent | none.recordSnapshot =>
    refine ⟨_, .idle s.handle s.clock hs fun _ => le_refl _, .inr ⟨?_, ?_⟩⟩
    · simp [Prunes, hh]
    · simp only [step, hh]
      rw [← hh]

namespace Effect

theorem eventsAtPrune (he : Effect s c s') : s'.eventsAtPrune = s.eventsAtPrune := by
  cases he <;> rfl

theorem snapshotsAtPrune (he : Effect s c s') : s'.snapshotsAtPrune = s.snapshotsAtPrune := by
  cases he <;> rfl

end Effect

namespace Invariant

theorem start : Invariant start where
  handle           := by simp [Retained.start]
  events           := by simp [Retained.start, Database.empty]
  snapshots        := by simp [Retained.start, Database.empty]
  eventsAtPrune    := Nat.le_refl _
  snapshotsAtPrune := Nat.le_refl _
  sorted           := .nil
  clock            := by simp [Retained.start]
  ids              := .nil
  sequence         := by simp [Retained.start]

theorem insertEvent (hs : Invariant s) (hh : s.handle = some h) (hc : s.clock ≤ nowMs)
    (hi : ∀ r ∈ s.recorded, r.row.id ≠ e.id) : Invariant (insertEvent s h nowMs e) where
  handle := by 
    rintro _ ⟨_⟩
    rfl
  events := by
    -- No row is replaced, as the id has not been used yet.
    have hf : s.file.events.filter (·.row.id ≠ e.id) = s.file.events := by
      rw [List.filter_eq_self]
      intro r hr
      rw [hs.events] at hr
      exact decide_eq_true <| hi r (List.mem_of_mem_take hr)
    simp only [Retained.insertEvent, DB.insertEvent, hs.handle h hh, hf, ← take_rows_cons hs.eventsAtPrune]
    rw [← hs.events]
  snapshots := by
    simp only [Retained.insertEvent, DB.insertEvent, hs.handle h hh]
    exact hs.snapshots
  eventsAtPrune    := Nat.le_succ_of_le hs.eventsAtPrune
  snapshotsAtPrune := hs.snapshotsAtPrune
  sorted           := .cons (fun r hr => hs.clock r hr |>.trans hc) hs.sorted
  clock := by
    intro r hr
    cases hr
    case head      => exact le_refl _
    case tail hr   => exact hs.clock r hr |>.trans hc
  ids      := hs.ids
  sequence := by
    simp only [Retained.insertEvent, DB.insertEvent, hs.handle h hh]
    exact hs.sequence

theorem insertSnapshot (hs : Invariant s) (hh : s.handle = some h) (hc : s.clock ≤ nowMs) : 
    Invariant (insertSnapshot s h nowMs snap) where
  handle := by 
    rintro _ ⟨_⟩
    rfl
  events := by
    simp only [Retained.insertSnapshot, DB.insertSnapshot, hs.handle h hh]
    exact hs.events
  snapshots := by
    simp only [Retained.insertSnapshot, DB.insertSnapshot, hs.handle h hh, 
      ← take_rows_cons hs.snapshotsAtPrune]
    rw [← hs.snapshots]
  eventsAtPrune    := hs.eventsAtPrune
  snapshotsAtPrune := Nat.le_succ_of_le hs.snapshotsAtPrune
  sorted           := hs.sorted
  clock            := fun r hr => hs.clock r hr |>.trans hc
  ids := by
    refine .cons (fun r hr => ?_) hs.ids
    simp only [DB.snapshotRecord, hs.handle h hh]
    exact Int.lt_add_one_of_le (hs.sequence r hr)
  sequence := by
    simp only [Retained.insertSnapshot, DB.insertSnapshot, hs.handle h hh]
    intro r hr
    cases hr
    case head    => exact le_refl _
    case tail hr => exact Int.le_add_one (hs.sequence r hr)

theorem effect (hs : Invariant s) (hr : Regular s c) (he : Effect s c s') : Invariant s' := by
  cases he
  case idle hh hc => exact { hs with handle := hh, clock := fun r h => hs.clock r h |>.trans (hc hr) }
  case event hh   => exact hs.insertEvent hh hr.left hr.right
  case snapshot hh => exact hs.insertSnapshot hh hr

-- Only the ids of snapshots cannot repeat themselves.
theorem prune (hs : Invariant s) 
    (ht : maxStoredEvents < rows maxStoredEvents s.eventsAtPrune s.recorded.length → 
      ¬Tie (·.tsUnix) maxStoredEvents s.recorded) : Invariant (prune s) where
  handle := by
    intro h hh
    have ⟨h', hh', he⟩ := Option.map_eq_some_iff.mp hh
    rw [← he]
    simp only [DB.prune, Retained.prune, hs.handle h' hh']
  events := by
    simp only [Retained.prune]
    rw [hs.events, keepGreatest_take_rows hs.sorted (by decide) hs.eventsAtPrune ht]
  snapshots := by
    have hd : Descending (·.id) s.inserted := hs.ids.imp le_of_lt
    simp only [Retained.prune]
    rw [hs.snapshots, keepGreatest_take_rows hd (by decide) hs.snapshotsAtPrune]
    exact fun _ => not_tie_of_strict hs.ids (by decide)
  eventsAtPrune    := Nat.le_refl _
  snapshotsAtPrune := Nat.le_refl _
  sorted           := hs.sorted
  clock            := hs.clock
  ids              := hs.ids
  sequence         := hs.sequence

-- The newest rows are always there, so that only the number of rows is in question.
theorem bounded_iff (hs : Invariant s) : 
    Bounded s ↔ rows maxStoredEvents s.eventsAtPrune s.recorded.length ≤ 2031 ∧ 
      rows maxStoredSnapshots s.snapshotsAtPrune s.inserted.length ≤ 1031 := by
  have he : s.file.events.length = rows maxStoredEvents s.eventsAtPrune s.recorded.length := by
    rw [hs.events, take_rows_length hs.eventsAtPrune]
  have hn : s.file.snapshots.length = 
      rows maxStoredSnapshots s.snapshotsAtPrune s.inserted.length := by
    rw [hs.snapshots, take_rows_length hs.snapshotsAtPrune]
  constructor
  case mp  => exact fun h => ⟨he ▸ h.eventsBound, hn ▸ h.snapshotsBound⟩
  case mpr =>
    intro ⟨h₁, h₂⟩
    exact {
      events         := by rw [hs.events]; exact take_subset_take_rows
      snapshots      := by rw [hs.snapshots]; exact take_subset_take_rows
      eventsBound    := he ▸ h₁
      snapshotsBound := hn ▸ h₂
    }

-- At a tie pruning deletes one of the newest events.
theorem bounded_prune_iff (hs : Invariant s) : 
    Bounded (Retained.prune s) ↔ 
      (maxStoredEvents < rows maxStoredEvents s.eventsAtPrune s.recorded.length → 
        ¬Tie (·.tsUnix) maxStoredEvents s.recorded) := by
  constructor
  case mp =>
    intro hb hl ht
    have ht' := tie_take_iff (by decide) hl |>.mpr ht
    have ⟨r, hr, hk⟩ := exists_not_mem_of_tie (hs.sorted.take _) ht' (by decide)
    apply hk
    rw [List.take_take, Nat.min_eq_left hl.le] at hr
    simpa only [Retained.prune, hs.events] using hb.events hr
  case mpr =>
    intro ht
    apply hs.prune ht |>.bounded_iff |>.mpr
    simp only [Retained.prune, rows_self, maxStoredEvents, maxStoredSnapshots]
    omega

theorem kept_iff (hs : Invariant s) (hr : Regular s c) : Kept s c ↔ Spaced s c := by
  have ⟨s', he, h⟩ := step_effect (c := c) hs.handle
  have hs' := hs.effect hr he
  cases h
  case inl h =>
    have ⟨hp, hst⟩ := h
    rw [Kept, hst, hs'.bounded_prune_iff, he.eventsAtPrune]
    constructor
    case mp  => exact fun ht => ⟨fun _ => by rwa [hst], absurd hp, absurd hp⟩
    case mpr => 
      intro h
      have ht := h.ties hp
      rwa [hst] at ht
  case inr h =>
    have ⟨hp, hst⟩ := h
    rw [Kept, hst, hs'.bounded_iff, he.eventsAtPrune, he.snapshotsAtPrune]
    constructor
    case mp  => exact fun ⟨h₁, h₂⟩ => ⟨(absurd · hp), fun _ => by rwa [hst], fun _ => by rwa [hst]⟩
    case mpr => 
      intro h
      have h₁ := h.events hp
      have h₂ := h.snapshots hp
      rw [hst] at h₁ h₂
      exact ⟨h₁, h₂⟩

theorem step (hs : Invariant s) (hr : Regular s c) (hsp : Spaced s c) : 
    Invariant (step s c) := by
  have ⟨s', he, h⟩ := step_effect (c := c) hs.handle
  have hs' := hs.effect hr he
  cases h
  case inl h =>
    have ⟨hp, hst⟩ := h
    rw [hst]
    have ht := hsp.ties hp
    rw [hst, ← he.eventsAtPrune] at ht
    exact hs'.prune ht
  case inr h => rwa [h.right]

variable {cs : List Call}

theorem kept_run_iff (hs : Invariant s) (h : Execution.Always Retained.step Regular s cs) : 
    Execution.Always Retained.step Kept s cs ↔ Execution.Always Retained.step Spaced s cs := by
  apply h.congr_of hs
  case hk  => exact fun s c hs hr hk => hs.step hr <| hs.kept_iff hr |>.mp hk
  case hpq => exact fun s c => kept_iff

end Invariant

variable {cs : List Call}

-- The events and snapshots are retained over a run if and only if no two events have the same
-- timestamp where the table is cut, and the file is not reopened too often before it is.
theorem always_kept_iff (h : Execution.Always step Regular start cs) : 
    Execution.Always step Kept start cs ↔ Execution.Always step Spaced start cs :=
  Invariant.start.kept_run_iff h

section Burst

-- The events of a burst have no content but their ids.
def event (n : Nat) : Agg.EventRow where
  id       := List.replicate n 97
  ts       := []
  severity := []
  category := []
  pid      := 1
  comm     := []
  title    := []
  detail   := []
  attrs    := []

def record (times : Nat → Int) (n : Nat) : EventRecord :=
  ⟨event n, times n⟩

-- Events that are recorded at given times.
def burst (times : Nat → Int) : Nat → List Call
  | 0     => [.openDB]
  | n + 1 => burst times n ++ [.recordEvent (times n) (event n)]

-- The state after a burst of `n` events.
structure InBurst (times : Nat → Int) (n : Nat) (s : State) : Prop where
  handle           : ∃ h, s.handle = some h ∧ h.writes.toNat = n
  recorded         : s.recorded = (List.range n).reverse.map (record times)
  inserted         : s.inserted = []
  eventsAtPrune    : s.eventsAtPrune = n - n % 32
  snapshotsAtPrune : s.snapshotsAtPrune = 0
  clock            : s.clock ≤ times n

variable {times : Nat → Int} {n : Nat}

namespace InBurst

theorem length (hb : InBurst times n s) : s.recorded.length = n := by
  simp [hb.recorded]

theorem mem (hb : InBurst times n s) {r : EventRecord} (hr : r ∈ s.recorded) : 
    ∃ m < n, record times m = r := by
  simpa [hb.recorded] using hr

theorem regular (hb : InBurst times n s) : Regular s (.recordEvent (times n) (event n)) := by
  refine ⟨hb.clock, fun r hr he => ?_⟩
  obtain ⟨m, hm, rfl⟩ := hb.mem hr
  have hl := congrArg List.length he
  simp only [record, event, List.length_replicate] at hl
  omega

theorem writes_succ (hw : h.writes.toNat = n) (hn : n < 2 ^ 64 - 1) : 
    (h.writes + 1).toNat = n + 1 := by
  rw [UInt64.toNat_add, hw]
  exact Nat.mod_eq_of_lt (by simp; omega)

-- Each write with a number that is a multiple of 32 prunes.
theorem prunes_iff (hw : h.writes.toNat = n) (hn : n < 2 ^ 64 - 1) : h.prunes ↔ (n + 1) % 32 = 0 := by
  have hm : ((h.writes + 1) % pruneEvery).toNat = (n + 1) % 32 := by
    rw [UInt64.toNat_mod, writes_succ hw hn]
    rfl
  rw [DB.prunes, decide_eq_true_eq, ← UInt64.toNat_inj, hm]
  rfl

theorem succ (hb : InBurst times n s) (ht : ∀ n, times n ≤ times (n + 1)) (hn : n < 2 ^ 64 - 1) : 
    InBurst times (n + 1) (step s (.recordEvent (times n) (event n))) := by
  have ⟨h, hh, hw⟩ := hb.handle
  have hp := prunes_iff hw hn
  have he := hb.eventsAtPrune
  have hr : (insertEvent s h (times n) (event n)).recorded = 
      (List.range (n + 1)).reverse.map (record times) := by
    simp [insertEvent, hb.recorded, List.range_succ, record]
  rw [step_recordEvent hh]
  split
  case isTrue ht' =>
    exact {
      handle           := ⟨_, rfl, writes_succ hw hn⟩
      recorded         := hr
      inserted         := hb.inserted
      eventsAtPrune    := by simp [prune, hr, hp.mp ht']
      snapshotsAtPrune := by simp [prune, insertEvent, hb.inserted]
      clock            := ht n
    }
  case isFalse ht' =>
    have hm := mt hp.mpr ht'
    exact {
      handle           := ⟨_, rfl, writes_succ hw hn⟩
      recorded         := hr
      inserted         := hb.inserted
      eventsAtPrune    := by simp only [insertEvent]; omega
      snapshotsAtPrune := hb.snapshotsAtPrune
      clock            := ht n
    }

-- Times that differ do not tie, and each 32nd write prunes.
theorem spaced (hb : InBurst times n s) (ht : ∀ m n, m < n → times m < times n) (hn : n < 2 ^ 64 - 1) : 
    Spaced s (.recordEvent (times n) (event n)) := by
  have ⟨h, hh, hw⟩ := hb.handle
  have hb' := hb.succ (fun n => (ht n (n + 1) <| Nat.lt_succ_self n).le) hn
  have hp : Prunes s (.recordEvent (times n) (event n)) ↔ (n + 1) % 32 = 0 := by
    simp [Prunes, hh, prunes_iff hw hn]
  constructor
  case ties =>
    refine fun _ _ => not_tie_of_strict ?_ (by decide)
    rw [hb'.recorded, List.pairwise_map, List.pairwise_reverse]
    exact List.pairwise_lt_range.imp fun hl => ht _ _ hl
  case events =>
    intro hnp
    have hm := mt hp.mpr hnp
    simp only [hb'.length, hb.eventsAtPrune, rows, maxStoredEvents]
    omega
  case snapshots =>
    intro _
    simp [hb'.inserted, hb.snapshotsAtPrune, rows]

-- The write number 2016 is the first one to prune a table of more than 2000 events.
theorem prunes_full (hb : InBurst times 2015 s) : Prunes s (.recordEvent (times 2015) (event 2015)) := by
  have ⟨h, hh, hw⟩ := hb.handle
  exact ⟨h, hh, prunes_iff hw (by decide) |>.mpr (by decide)⟩

theorem not_spaced (hb : InBurst (fun _ => 0) 2015 s) : ¬Spaced s (.recordEvent 0 (event 2015)) := by
  intro hs
  have hb' := hb.succ (fun _ => le_refl _) (by decide)
  have h₀ {r} (hr : r ∈ (step s (.recordEvent 0 (event 2015))).recorded) : r.tsUnix = 0 := by
    obtain ⟨m, _, rfl⟩ := hb'.mem hr
    rfl
  have hl {i : Nat} (hi : i < 2016) : i < (step s (.recordEvent 0 (event 2015))).recorded.length := by
    rwa [hb'.length]
  apply hs.ties hb.prunes_full
  case _ => 
    rw [hb'.length, hb.eventsAtPrune]
    decide
  case _ =>
    have h₁ := hl (i := maxStoredEvents - 1) (by decide)
    have h₂ := hl (i := maxStoredEvents) (by decide)
    refine ⟨_, _, List.getElem?_eq_getElem h₁, List.getElem?_eq_getElem h₂, ?_⟩
    exact (h₀ <| List.getElem_mem h₁).trans (h₀ <| List.getElem_mem h₂).symm

end InBurst

theorem always_burst_succ {P : State → Call → Prop} : 
    Execution.Always step P start (burst times (n + 1)) ↔ 
      Execution.Always step P start (burst times n) ∧ 
      P (Execution.exec step start (burst times n)) (.recordEvent (times n) (event n)) := 
  Execution.Always.concat_iff

theorem inBurst (ht : ∀ n, times n ≤ times (n + 1)) (h₀ : 0 ≤ times 0) (hn : n < 2 ^ 64) : 
    InBurst times n (Execution.exec step start (burst times n)) := by
  induction n
  case zero => 
    exact {
      handle           := ⟨_, rfl, rfl⟩
      recorded         := rfl
      inserted         := rfl
      eventsAtPrune    := rfl
      snapshotsAtPrune := rfl
      clock            := h₀
    }
  case succ n hi => 
    rw [burst, Execution.exec_concat]
    exact hi (by omega) |>.succ ht (by omega)

theorem always_regular_burst (ht : ∀ n, times n ≤ times (n + 1)) (h₀ : 0 ≤ times 0) (hn : n < 2 ^ 64) : 
    Execution.Always step Regular start (burst times n) := by
  induction n
  case zero      => exact ⟨trivial, trivial⟩
  case succ n hi => 
    exact always_burst_succ.mpr ⟨hi (by omega), inBurst ht h₀ (by omega) |>.regular⟩

theorem always_spaced_burst (ht : ∀ m n, m < n → times m < times n) (h₀ : 0 ≤ times 0) (hn : n < 2 ^ 64) : 
    Execution.Always step Spaced start (burst times n) := by
  induction n
  case zero      => exact ⟨⟨False.elim, fun _ => by decide, fun _ => by decide⟩, trivial⟩
  case succ n hi => 
    have hb := inBurst (fun n => (ht n (n + 1) <| Nat.lt_succ_self n).le) h₀ (by omega : n < 2 ^ 64)
    exact always_burst_succ.mpr ⟨hi (by omega), hb.spaced ht (by omega)⟩

theorem not_kept_burst (hn : n = 2016) : 
    ¬(Execution.Always step Regular start (burst (fun _ => 0) n) → 
      Execution.Always step Kept start (burst (fun _ => 0) n)) := by
  intro h
  obtain ⟨m, rfl⟩ := Nat.exists_eq_add_one.mpr (by omega : 0 < n)
  have hr := @always_regular_burst (fun _ => 0) (m + 1) (fun _ => le_refl _) (le_refl 0) (by omega)
  have ⟨_, hs⟩ := always_burst_succ.mp <| Invariant.start.kept_run_iff hr |>.mp (h hr)
  have hb := @inBurst (fun _ => 0) m (fun _ => le_refl _) (le_refl 0) (by omega)
  obtain rfl : m = 2015 := by omega
  exact hb.not_spaced hs

-- The events are all recorded in the same millisecond.
theorem not_always_kept_burst : 
    ¬(Execution.Always step Regular start (burst (fun _ => 0) 2016) → 
      Execution.Always step Kept start (burst (fun _ => 0) 2016)) := 
  not_kept_burst rfl

-- The events are recorded a millisecond apart, and the last of them is the first to find a table that is 
-- full.
theorem always_kept_iff_burst : 
    Execution.Always step Kept start (burst (↑·) 2016) ∧ 
      Prunes (Execution.exec step start (burst (↑·) 2015)) (.recordEvent (2015 : Nat) (event 2015)) := by
  have ht : ∀ m n : Nat, m < n → (m : Int) < n := fun _ _ => Int.ofNat_lt.mpr
  have ht' : ∀ n : Nat, (n : Int) ≤ (n + 1 : Nat) := fun n => Int.ofNat_le.mpr <| Nat.le_succ n
  have h {n : Nat} (hn : n = 2015) : 
      Execution.Always step Kept start (burst (↑·) (n + 1)) ∧ 
        Prunes (Execution.exec step start (burst (↑·) n)) (.recordEvent n (event n)) := by
    have hr := @always_regular_burst (↑·) (n + 1) ht' (le_refl 0) (by omega)
    have hs := @always_spaced_burst (↑·) (n + 1) ht (le_refl 0) (by omega)
    refine ⟨always_kept_iff hr |>.mpr hs, ?_⟩
    subst hn
    exact @inBurst (↑·) 2015 ht' (le_refl 0) (by decide) |>.prunes_full
  exact h rfl

end Burst

end Storage.Retained
