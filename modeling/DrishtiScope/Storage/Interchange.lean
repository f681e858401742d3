import DrishtiScope.Lib.Execution
import DrishtiScope.Storage.Memory

open Go Retention

-- The store of the tests beside the one of the daemon.
namespace Storage.Interchange

-- Both stores, and the books: what has been recorded, the newest first, and the last readings of the
-- clock.
structure State where
  mem       : Memory
  db        : DB
  events    : List Agg.EventRow
  snapshots : List Agg.Snapshot
  clock     : Option Int
  lastSnap  : Option Int

def start : State where
  mem       := newMemory
  db        := openDB .empty
  events    := []
  snapshots := []
  clock     := none
  lastSnap  := none

inductive Call
  | recordEvent (nowMs : Int) (e : Agg.EventRow)
  | recordSnapshot (nowMs : Int) (snap : Option Agg.Snapshot)
  | queryHistory (limit : Int) (comm : Bytes)

-- Every statement succeeds.
def step (s : State) : Call → State
  | .recordEvent nowMs e =>
    { s with
      mem    := s.mem.recordEvent e
      db     := (s.db.recordEvent nowMs {} e).fst
      events := e :: s.events
      clock  := some nowMs
    }
  | .recordSnapshot nowMs snap =>
    { s with
      mem       := s.mem.recordSnapshot nowMs snap
      db        := (s.db.recordSnapshot nowMs {} snap).fst
      snapshots := snap.toList ++ s.snapshots
      clock     := some nowMs
      lastSnap  := if snap.isSome then some nowMs else s.lastSnap
    }
  | .queryHistory _ _ => s

-- The clock does not go back, and snapshots are at least 1500 ms apart.
def Regular (s : State) : Call → Prop
  | .recordEvent nowMs _       => ∀ t ∈ s.clock, t ≤ nowMs
  | .recordSnapshot nowMs snap => 
    (∀ t ∈ s.clock, t ≤ nowMs) ∧ (snap.isSome → ∀ t ∈ s.lastSnap, t + 1500 ≤ nowMs)
  | .queryHistory _ _          => True

-- A point without its id and its time.
def unstamped (p : SnapshotHistoryPoint) : SnapshotHistoryPoint :=
  { p with id := 0, t := 0 }

section Views

-- What is compared of the value of an attribute.
variable {β : Type} (view : Agg.Attr → β)

def viewed (e : Agg.EventRow) : Agg.EventRow × List (Bytes × β) :=
  ({ e with attrs := [] }, e.attrs.map fun p => (p.fst, view p.snd))

def SameEvents (s : State) : Prop :=
  ∀ limit, (s.db.queryEvents limit).map (viewed view) = (s.mem.queryEvents limit).map (viewed view)

-- The stores list the same events after each write, and answer a query for points alike.
def Alike [Unicode] (s : State) : Call → Prop
  | .queryHistory limit comm => 
    (s.db.queryHistory limit comm).map unstamped = (s.mem.queryHistory limit comm).map unstamped
  | c                        => SameEvents view (step s c)

-- The attributes look the same after they have been encoded.
def Encodes (e : Agg.EventRow) : Prop :=
  ∀ p ∈ e.attrs, jsonString p.fst = p.fst ∧ view (jsonAttr p.snd) = view p.snd

-- The write prunes the table of events up to one of the rows that a query can list.
def Cuts (db : DB) (rows : List EventRecord) : Prop :=
  db.prunes ∧ Reaches (·.tsUnix) 500 maxStoredEvents rows

-- Either the comm is empty, or it is what it is compared with and there are enough points in the database
-- or none in `Memory` only, or it is not and there are none in either.
def Listed [Unicode] (s : State) (limit : Int) (comm : Bytes) : Prop :=
  let kept := s.snapshots.take s.db.file.snapshots.length
  let older := (s.snapshots.take 5000).drop s.db.file.snapshots.length
  let named (comm : Bytes) (snap : Agg.Snapshot) : Bool := snap.info.target.comm = comm
  comm = [] ∨
    Config.sanitizeComm comm = comm ∧ 
      ((Config.clampLimit limit 100 1000).toNat ≤ kept.countP (named comm) ∨ !older.any (named comm)) ∨
    Config.sanitizeComm comm ≠ comm ∧ 
      !kept.any (named <| Config.sanitizeComm comm) ∧ !(kept ++ older).any (named comm)

-- Among the last 500 events no id occurs twice, the attributes look the same when they are encoded, and
-- pruning does not cut what a query can list.
def Matched [Unicode] (s : State) : Call → Prop
  | .recordEvent nowMs e        => 
    (∀ r ∈ s.events.take 499, r.id ≠ e.id) ∧ Encodes view e ∧ 
      ¬Cuts s.db (s.db.insertEvent nowMs e).file.events
  | .recordSnapshot _ none      => True
  | .recordSnapshot _ (some _)  => ¬Cuts s.db s.db.file.events
  | .queryHistory limit comm    => Listed s limit comm

-- Integers and floats are compared as the numbers that they are.
def asNumber : Agg.Attr → Agg.Attr
  | .int n => .float n
  | a      => a

theorem encodes_id_iff {e : Agg.EventRow} : 
    Encodes id e ↔ 
      ∀ p ∈ e.attrs, jsonString p.fst = p.fst ∧ (∀ s, p.snd = .str s → jsonString s = s) ∧ ∀ n, p.snd ≠ .int n := by
  refine forall₂_congr fun p _ => and_congr_right fun _ => ?_
  cases p.snd <;> simp [jsonAttr]

theorem encodes_asNumber_iff {e : Agg.EventRow} : 
    Encodes asNumber e ↔ 
      ∀ p ∈ e.attrs, jsonString p.fst = p.fst ∧ (∀ s, p.snd = .str s → jsonString s = s) ∧ 
        ∀ n, p.snd = .int n → float64 n = n := by
  refine forall₂_congr fun p _ => and_congr_right fun _ => ?_
  cases p.snd <;> simp [jsonAttr, asNumber]

end Views

section Lists

variable {α : Type} {l : List α} {a : α} {cap : Nat}

-- A list that is cut at the front when the oldest entry comes first.
theorem appendCapped_reverse : 
    Agg.appendCapped (l.take cap).reverse cap a = ((a :: l).take cap).reverse := by
  have hx : (l.take cap).reverse ++ [a] = (a :: l.take cap).reverse := by simp
  have ht : (a :: l.take cap).take cap = (a :: l).take cap := by
    cases cap
    case zero     => simp
    case succ cap => simp [List.take_take]
  simp only [Agg.appendCapped, hx, List.length_reverse, List.drop_reverse]
  split
  case isTrue h  => rw [Nat.sub_sub_self h.le, ht]
  case isFalse h => rw [← ht, List.take_of_length_le (not_lt.mp h)]

theorem appendCapped_map {β : Type} {f : α → β} : 
    (Agg.appendCapped l cap a).map f = Agg.appendCapped (l.map f) cap (f a) := by
  simp only [Agg.appendCapped]
  split <;> simp_all [List.map_drop]

end Lists

section Events

variable {β : Type} {view : Agg.Attr → β} {rows rows' : List EventRecord} {events : List Agg.EventRow} 
         {e : Agg.EventRow} {r r' : EventRecord} {nowMs limit : Int} {s : State}

-- The rows of the table, and what a query can list of them.
structure Table (rows : List EventRecord) : Prop where
  sorted : Descending (·.tsUnix) rows
  ids    : (rows.map (·.row.id)).Nodup

def Shows (view : Agg.Attr → β) (rows : List EventRecord) (events : List Agg.EventRow) : Prop :=
  (rows.map (viewed view ·.event)).take 500 = (events.map <| viewed view).take 500

def replace (rows : List EventRecord) (nowMs : Int) (e : Agg.EventRow) : List EventRecord :=
  ⟨e, nowMs⟩ :: rows.filter (·.row.id ≠ e.id)

namespace Table

theorem sublist (h : Table rows) (hs : rows'.Sublist rows) : Table rows' where
  sorted := List.Pairwise.sublist hs h.sorted
  ids    := h.ids.sublist <| hs.map _

theorem replace (h : Table rows) (hc : ∀ r ∈ rows, r.tsUnix ≤ nowMs) : Table (replace rows nowMs e) where
  sorted := .cons (fun r hr => hc r (List.mem_of_mem_filter hr)) (h.sublist List.filter_sublist).sorted
  ids    := by
    refine List.nodup_cons.mpr ⟨fun hm => ?_, (h.sublist List.filter_sublist).ids⟩
    have ⟨r, hr, he⟩ := List.mem_map.mp hm
    simpa [he] using (List.mem_filter.mp hr).right

theorem eq_of_id_eq (h : Table rows) (hr : r ∈ rows) (hr' : r' ∈ rows) 
    (he : r.row.id = r'.row.id) : r = r' :=
  List.inj_on_of_nodup_map h.ids hr hr' he

end Table

theorem take_ids {n : Nat} (h : (rows.map (viewed view ·.event)).take n = (events.map <| viewed view).take n) : 
    (rows.take n).map (·.row.id) = (events.take n).map (·.id) := by
  have hi := congrArg (List.map (·.fst.id)) h
  rw [← List.map_take, ← List.map_take, List.map_map, List.map_map] at hi
  exact hi

theorem viewed_event_iff : viewed view (EventRecord.event ⟨e, nowMs⟩) = viewed view e ↔ Encodes view e := by
  simp only [viewed, EventRecord.event, List.map_map, Prod.mk.injEq, true_and, List.map_inj_left, 
    Function.comp_apply, Encodes]

-- A new event is shown before the others if its id does not occur among them.
theorem Shows.replace (h : Shows view rows events) (hf : ∀ r ∈ events.take 499, r.id ≠ e.id) 
    (ha : Encodes view e) : Shows view (replace rows nowMs e) (e :: events) := by
  have h' : (rows.map (viewed view ·.event)).take 499 = (events.map <| viewed view).take 499 := by
    have ht := congrArg (List.take 499) h
    rwa [List.take_take, List.take_take] at ht
  have hn : ∀ r ∈ rows.take 499, decide (r.row.id ≠ e.id) := by
    intro r hr
    have hm : r.row.id ∈ (events.take 499).map (·.id) := take_ids h' ▸ List.mem_map_of_mem hr
    have ⟨x, hx, he⟩ := List.mem_map.mp hm
    exact decide_eq_true <| he ▸ hf x hx
  rw [Shows, Interchange.replace, List.map_cons, viewed_event_iff.mpr ha, List.map_cons, List.take_succ_cons, 
    List.take_succ_cons, ← List.map_take, take_filter hn, List.map_take, h']

-- What a table shows has distinct ids, and has been encoded.
theorem Shows.fresh (ht : Table rows') (hs : rows' ⊆ Interchange.replace rows nowMs e) 
    (h : Shows view rows' (e :: events)) : (∀ r ∈ events.take 499, r.id ≠ e.id) ∧ Encodes view e := by
  constructor
  case left =>
    have hn : ((rows'.take 500).map (·.row.id)).Nodup := 
      ht.ids.sublist <| (List.take_sublist ..).map _
    rw [take_ids h, List.take_succ_cons, List.map_cons, List.nodup_cons] at hn
    exact fun r hr he => hn.left <| he ▸ List.mem_map_of_mem hr
  case right =>
    cases rows'
    case nil       => simp [Shows] at h
    case cons r' _ =>
      have he : viewed view r'.event = viewed view e := by
        simp only [Shows, List.map_cons, List.take_succ_cons, List.cons.injEq] at h
        exact h.left
      have hr : r' = ⟨e, nowMs⟩ := by
        cases List.mem_cons.mp <| hs List.mem_cons_self
        case inl hr => exact hr
        case inr hr =>
          have hi := (List.mem_filter.mp hr).right
          have hd : r'.row.id = e.id := congrArg (·.fst.id) he
          simp [hd] at hi
      rw [hr] at he
      exact viewed_event_iff.mp he

-- Pruning is seen if and only if it reaches one of the first rows.
theorem Shows.prune_iff (ht : Table rows) (h : Shows view rows events) : 
    Shows view (keepGreatest (·.tsUnix) maxStoredEvents rows) events ↔ 
      ¬Reaches (·.tsUnix) 500 maxStoredEvents rows := by
  constructor
  case mpr =>
    intro hr
    rw [Shows, ← List.map_take, take_keepGreatest ht.sorted (by decide) hr, List.map_take]
    exact h
  case mp =>
    intro hk hr
    have ⟨r, hm, hn⟩ := exists_not_mem_of_reaches ht.sorted hr (by decide)
    have hi : r.row.id ∈ ((keepGreatest (·.tsUnix) maxStoredEvents rows).take 500).map (·.row.id) := by
      rw [take_ids hk, ← take_ids h]
      exact List.mem_map_of_mem hm
    have ⟨r', hr', he⟩ := List.mem_map.mp hi
    have hm' := List.mem_of_mem_take hr'
    have := ht.eq_of_id_eq (mem_keepGreatest.mp hm').left (List.mem_of_mem_take hm) he
    exact hn (this ▸ hm')

theorem clampLimit_le {fallback max : Int} (hf : 0 < fallback) (hm : fallback ≤ max) : 
    0 < Config.clampLimit limit fallback max ∧ Config.clampLimit limit fallback max ≤ max := by
  simp only [Config.clampLimit]
  split
  · exact ⟨hf, hm⟩
  · split <;> omega

theorem queryEvents_db (ht : Table s.db.file.events) : 
    s.db.queryEvents limit = 
      (s.db.file.events.map (·.event)).take (Config.clampLimit limit 50 500).toNat := by
  have hs : s.db.file.events.Pairwise fun a b => decide (b.tsUnix ≤ a.tsUnix) := 
    ht.sorted.imp fun h => decide_eq_true h
  rw [DB.queryEvents, List.mergeSort_of_pairwise hs, List.map_take]

theorem queryEvents_mem (hm : s.mem.events = (s.events.take 5000).reverse) : 
    s.mem.queryEvents limit = s.events.take (Config.clampLimit limit 50 500).toNat := by
  have hl := @clampLimit_le limit 50 500 (by decide) (by decide)
  simp only [Memory.queryEvents, hm, List.length_reverse, List.drop_reverse, List.reverse_reverse, 
    Nat.sub_sub_self (Nat.min_le_left ..), List.take_take, List.take_eq_take_iff, List.length_take]
  omega

-- A query for 500 events decides.
theorem sameEvents_iff (ht : Table s.db.file.events) 
    (hm : s.mem.events = (s.events.take 5000).reverse) : 
    SameEvents view s ↔ Shows view s.db.file.events s.events := by
  simp only [SameEvents, queryEvents_db ht, queryEvents_mem hm, List.map_take, List.map_map]
  constructor
  case mp  => exact fun h => h 500
  case mpr =>
    intro h limit
    have hl := @clampLimit_le limit 50 500 (by decide) (by decide)
    have hk := congrArg (List.take (Config.clampLimit limit 50 500).toNat) h
    rwa [List.take_take, List.take_take, Nat.min_eq_left (by omega)] at hk

-- What the stores contain of the events.
structure EventsInv (s : State) : Prop where
  table  : Table s.db.file.events
  clock  : ∀ r ∈ s.db.file.events, ∃ t ∈ s.clock, r.tsUnix ≤ t
  memory : s.mem.events = (s.events.take s.mem.maxEvt).reverse
  cap    : s.mem.maxEvt = 5000

theorem EventsInv.clock_le (hs : EventsInv s) (h : ∀ t ∈ s.clock, t ≤ nowMs) : 
    ∀ r ∈ s.db.file.events, r.tsUnix ≤ nowMs := by
  intro r hr
  have ⟨t, ht, hl⟩ := hs.clock r hr
  exact hl.trans <| h t ht

theorem EventsInv.sameEvents_iff (hs : EventsInv s) : SameEvents view s ↔ Shows view s.db.file.events s.events :=
  Interchange.sameEvents_iff hs.table <| hs.cap ▸ hs.memory

theorem events_maybePrune {db : DB} : 
    db.maybePrune.file.events = 
      if db.prunes then keepGreatest (·.tsUnix) maxStoredEvents db.file.events else db.file.events := by
  by_cases h : db.prunes
  case pos => rw [DB.maybePrune_of_prunes h, if_pos h]; rfl
  case neg => rw [DB.maybePrune_of_not_prunes h, if_neg h]

theorem Table.maybePrune {db : DB} (h : Table db.file.events) : Table db.maybePrune.file.events := by
  rw [events_maybePrune]
  split
  case isTrue  => exact h.sublist List.filter_sublist
  case isFalse => exact h

theorem maybePrune_subset {db : DB} : db.maybePrune.file.events ⊆ db.file.events := by
  rw [events_maybePrune]
  split
  case isTrue  => exact List.filter_subset_self _
  case isFalse => exact List.Subset.refl _

theorem Shows.maybePrune_iff {db : DB} (ht : Table db.file.events) (h : Shows view db.file.events events) : 
    Shows view db.maybePrune.file.events events ↔ ¬Cuts db db.file.events := by
  rw [events_maybePrune, Cuts]
  by_cases hp : db.prunes
  case pos => simpa [hp] using h.prune_iff ht
  case neg => simpa [hp] using h

theorem Shows.recordEvent_iff {db : DB} (ht : Table db.file.events) (h : Shows view db.file.events events) 
    (hc : ∀ r ∈ db.file.events, r.tsUnix ≤ nowMs) : 
    Shows view (db.insertEvent nowMs e).maybePrune.file.events (e :: events) ↔ 
      (∀ r ∈ events.take 499, r.id ≠ e.id) ∧ Encodes view e ∧ 
        ¬Cuts db (db.insertEvent nowMs e).file.events := by
  have ht' : Table (db.insertEvent nowMs e).file.events := ht.replace hc
  constructor
  case mp =>
    intro hs
    have ⟨hf, ha⟩ := hs.fresh ht'.maybePrune maybePrune_subset
    exact ⟨hf, ha, Shows.maybePrune_iff ht' (h.replace hf ha) |>.mp hs⟩
  case mpr =>
    intro ⟨hf, ha, hn⟩
    exact Shows.maybePrune_iff ht' (h.replace hf ha) |>.mpr hn

end Events

section Points

variable {db : DB} {snaps : List Agg.Snapshot} {snap : Agg.Snapshot} {nowMs limit : Int} {comm : Bytes}

-- What both stores take over of a snapshot.
def bare (snap : Agg.Snapshot) : SnapshotHistoryPoint :=
  unstamped (Memory.snapshotPoint 0 0 snap)

-- The table contains the newest snapshots.
structure Points (db : DB) (snaps : List Agg.Snapshot) : Prop where
  rows     : db.file.snapshots.map (unstamped ·.point) = 
    (snaps.take db.file.snapshots.length).map bare
  enough   : min maxStoredSnapshots snaps.length ≤ db.file.snapshots.length
  ids      : db.file.snapshots.Pairwise fun a b => b.id < a.id
  sequence : ∀ r ∈ db.file.snapshots, r.id ≤ db.file.sequence

-- There are not many more than those that pruning leaves.
def Few (db : DB) (extra : Nat) : Prop :=
  db.file.snapshots.length ≤ maxStoredSnapshots + (db.writes % pruneEvery).toNat + extra

theorem snapshots_maybePrune (h : Points db snaps) : 
    db.maybePrune.file.snapshots = 
      if db.prunes then db.file.snapshots.take maxStoredSnapshots else db.file.snapshots := by
  by_cases hp : db.prunes
  case neg => rw [DB.maybePrune_of_not_prunes hp, if_neg hp]
  case pos =>
    have hd : Descending (·.id) db.file.snapshots := h.ids.imp le_of_lt
    rw [DB.maybePrune_of_prunes hp, if_pos hp]
    exact keepGreatest_eq_take hd <| not_tie_of_strict h.ids (by decide)

namespace Points

theorem insert (h : Points db snaps) (nowMs : Int) (snap : Agg.Snapshot) : 
    Points (db.insertSnapshot nowMs snap) (snap :: snaps) where
  rows := by
    simp only [DB.insertSnapshot, List.map_cons, List.length_cons, List.take_succ_cons, h.rows]
    rfl
  enough := by
    have := h.enough
    simp only [DB.insertSnapshot, List.length_cons]
    omega
  ids := .cons (fun r hr => Int.lt_add_one_of_le <| h.sequence r hr) h.ids
  sequence := by
    intro r hr
    cases hr
    case head    => exact le_refl _
    case tail hr => exact Int.le_add_one <| h.sequence r hr

theorem maybePrune (h : Points db snaps) : Points db.maybePrune snaps := by
  have hs := snapshots_maybePrune h
  split at hs
  case isFalse => 
    constructor
    case rows     => simpa only [hs] using h.rows
    case enough   => simpa only [hs] using h.enough
    case ids      => simpa only [hs] using h.ids
    case sequence => simpa only [hs, DB.sequence_maybePrune] using h.sequence
  case isTrue =>
    constructor
    case rows     => 
      rw [hs, List.map_take, h.rows, List.length_take, ← List.map_take, List.take_take]
    case enough   => 
      have := h.enough
      rw [hs, List.length_take]
      omega
    case ids      => simpa only [hs] using h.ids.sublist <| List.take_sublist ..
    case sequence => 
      rw [hs, DB.sequence_maybePrune]
      exact fun r hr => h.sequence r <| List.mem_of_mem_take hr

end Points

theorem Few.maybePrune (h : Points db snaps) (hf : Few db 1) : Few db.maybePrune 0 := by
  have hw : db.maybePrune.writes = db.writes + 1 := by
    simp only [DB.maybePrune]
    split <;> rfl
  have hs := snapshots_maybePrune h
  have hm : ((db.writes + 1) % pruneEvery).toNat = ((db.writes % pruneEvery).toNat + 1) % 32 := by
    simp only [pruneEvery, UInt64.toNat_mod, UInt64.toNat_add]
    simp
  rw [Few] at hf ⊢
  rw [hs, hw, hm]
  split
  case isTrue  => 
    rw [List.length_take]
    omega
  case isFalse hp =>
    have hz : ((db.writes + 1) % pruneEvery).toNat ≠ 0 := by
      intro hz
      exact hp <| decide_eq_true <| UInt64.toNat_inj.mp hz
    have hl : (db.writes % pruneEvery).toNat < 32 := Nat.mod_lt _ (by decide)
    rw [hm] at hz
    omega

-- The answers in terms of the snapshots, for a predicate on their comms.
theorem queryHistory_db [Unicode] (h : Points db snaps) : 
    (db.queryHistory limit comm).map unstamped = 
      (((snaps.take db.file.snapshots.length).filter fun s => 
        comm = [] || s.info.target.comm = Config.sanitizeComm comm).take 
        (Config.clampLimit limit 100 1000).toNat).reverse.map bare := by
  have hf : ∀ p : Bytes → Bool, 
      (db.file.snapshots.filter (p ·.targetComm)).map (unstamped ·.point) = 
        ((snaps.take db.file.snapshots.length).filter (p ·.info.target.comm)).map bare := by
    intro p
    have he := congrArg (List.filter (p ·.comm)) h.rows
    rw [List.filter_map, List.filter_map] at he
    exact he
  let p : Bytes → Bool := fun c => comm = [] || c = Config.sanitizeComm comm
  have hr : (if comm = [] then db.file.snapshots else 
      db.file.snapshots.filter (·.targetComm = Config.sanitizeComm comm)) = 
        db.file.snapshots.filter (p ·.targetComm) := by
    by_cases hc : comm = [] <;> simp [p, hc]
  have hs : (db.file.snapshots.filter (p ·.targetComm)).Pairwise fun a b => decide (b.id ≤ a.id) :=
    (h.ids.sublist List.filter_sublist).imp fun h => decide_eq_true (le_of_lt h)
  simp only [DB.queryHistory, hr, List.mergeSort_of_pairwise hs, List.map_map, List.map_reverse]
  rw [List.map_take, List.map_take]
  exact congrArg (fun l => (l.take (Config.clampLimit limit 100 1000).toNat).reverse) (hf p)

theorem queryHistory_mem {m : Memory} 
    (h : m.snapshots.map unstamped = ((snaps.take 5000).map bare).reverse) : 
    (m.queryHistory limit comm).map unstamped = 
      (((snaps.take 5000).filter fun s => comm = [] || s.info.target.comm = comm).take 
        (Config.clampLimit limit 100 1000).toNat).reverse.map bare := by
  let p : Bytes → Bool := fun c => comm = [] || c = comm
  let q : SnapshotHistoryPoint → Bool := (p ·.comm)
  have hf : (m.snapshots.filter q).map unstamped = 
      (((snaps.take 5000).filter (p ·.info.target.comm)).map bare).reverse := by
    have he := congrArg (List.filter q) h
    rw [List.filter_map, List.filter_reverse, List.filter_map] at he
    exact he
  have hl : (m.snapshots.filter q).length = 
      ((snaps.take 5000).filter (p ·.info.target.comm)).length := by
    simpa using congrArg List.length hf
  simp only [Memory.queryHistory]
  rw [List.map_drop]
  change ((m.snapshots.filter q).map unstamped).drop ((m.snapshots.filter q).length - _) = _
  rw [hf, hl, List.drop_reverse, List.map_reverse, List.map_take, List.length_map]
  refine congrArg List.reverse ?_
  rw [List.take_eq_take_iff, List.length_map]
  change _ = min _ ((snaps.take 5000).filter (p ·.info.target.comm)).length
  omega

-- More points are there to be listed only if there are not enough before them.
theorem take_filter_append_iff {kept older : List Agg.Snapshot} {p : Agg.Snapshot → Bool} {n : Nat} : 
    ((kept.filter p).take n).map bare = (((kept ++ older).filter p).take n).map bare ↔ 
      n ≤ kept.countP p ∨ !older.any p := by
  rw [List.filter_append, List.countP_eq_length_filter]
  constructor
  case mp =>
    intro h
    have hl := congrArg List.length h
    simp only [List.length_map, List.length_take, List.length_append] at hl
    by_cases hn : n ≤ (kept.filter p).length
    case pos => exact .inl hn
    case neg =>
      have ho : older.filter p = [] := List.length_eq_zero_iff.mp (by omega)
      have ha := List.filter_eq_nil_iff.mp ho
      exact .inr <| by simpa using ha
  case mpr =>
    intro h
    cases h
    case inl h => rw [List.take_append_of_le_length h]
    case inr h =>
      have ho : older.filter p = [] := List.filter_eq_nil_iff.mpr (by simpa using h)
      rw [ho, List.append_nil]

theorem take_filter_eq_nil_iff {l : List Agg.Snapshot} {c : Bytes} {n : Nat} (hn : 0 < n) : 
    ((l.filter (·.info.target.comm = c)).take n).map bare = [] ↔ !l.any (·.info.target.comm = c) := by
  simp [List.take_eq_nil_iff, hn.ne', List.filter_eq_nil_iff]

theorem comm_of_mem_take_filter {l : List Agg.Snapshot} {c : Bytes} {n : Nat} {p : SnapshotHistoryPoint} 
    (h : p ∈ ((l.filter (·.info.target.comm = c)).take n).map bare) : p.comm = c := by
  have ⟨x, hx, hp⟩ := List.mem_map.mp h
  have hc := List.mem_filter.mp (List.mem_of_mem_take hx) |>.right
  exact hp ▸ of_decide_eq_true hc

-- Points with different comms are different.
theorem take_filter_eq_iff {l l' : List Agg.Snapshot} {c c' : Bytes} {n : Nat} (hn : 0 < n) 
    (hc : c ≠ c') : 
    ((l.filter (·.info.target.comm = c)).take n).map bare = 
      ((l'.filter (·.info.target.comm = c')).take n).map bare ↔ 
      !l.any (·.info.target.comm = c) ∧ !l'.any (·.info.target.comm = c') := by
  rw [← take_filter_eq_nil_iff hn, ← take_filter_eq_nil_iff hn]
  constructor
  case mpr =>
    intro h
    rw [h.left, h.right]
  case mp =>
    intro h
    cases he : ((l.filter (·.info.target.comm = c)).take n).map bare
    case nil      => exact ⟨rfl, h ▸ he⟩
    case cons p _ =>
      have hp : p.comm = c := comm_of_mem_take_filter (l := l) (n := n) <| by simp [he]
      have hp' : p.comm = c' := comm_of_mem_take_filter (l := l') (n := n) <| by simp [← h, he]
      exact absurd (hp ▸ hp') hc

theorem listed_iff [Unicode] {β : Type} {view : Agg.Attr → β} {s : State} (h : Points s.db s.snapshots) 
    (hk : s.db.file.snapshots.length ≤ 5000) 
    (hm : s.mem.snapshots.map unstamped = ((s.snapshots.take 5000).map bare).reverse) : 
    Alike view s (.queryHistory limit comm) ↔ Listed s limit comm := by
  have hl := @clampLimit_le limit 100 1000 (by decide) (by decide)
  have ha : s.snapshots.take 5000 = s.snapshots.take s.db.file.snapshots.length ++ 
      (s.snapshots.take 5000).drop s.db.file.snapshots.length := by
    conv_lhs => rw [← List.take_append_drop s.db.file.snapshots.length (s.snapshots.take 5000)]
    rw [List.take_take, Nat.min_eq_left hk]
  simp only [Alike, queryHistory_db h, queryHistory_mem hm, List.map_reverse, List.reverse_inj, Listed]
  by_cases hc : comm = []
  case pos =>
    have he := h.enough
    simp only [hc, decide_true, Bool.true_or, List.filter_true, List.take_take, true_or, iff_true]
    refine congrArg (List.map bare) ?_
    rw [List.take_eq_take_iff]
    simp only [maxStoredSnapshots] at he
    omega
  case neg =>
    by_cases hs : Config.sanitizeComm comm = comm
    case pos =>
      simp only [hc, hs, decide_false, Bool.false_or, false_or, ne_eq, not_true_eq_false, false_and, 
        or_false, true_and]
      conv_lhs => rw [ha]
      exact take_filter_append_iff
    case neg =>
      simp only [hc, hs, decide_false, Bool.false_or, false_or, ne_eq, not_false_eq_true, false_and, 
        true_and]
      rw [← ha]
      exact take_filter_eq_iff (by omega) hs

-- What the stores contain of the snapshots.
structure PointsInv (s : State) : Prop where
  points   : Points s.db s.snapshots
  few      : Few s.db 0
  memory   : s.mem.snapshots.map unstamped = ((s.snapshots.take s.mem.maxSnap).map bare).reverse
  cap      : s.mem.maxSnap = 5000
  lastSnap : s.db.lastSnapTime = s.lastSnap.getD 0

end Points

section Run

variable {β : Type} {view : Agg.Attr → β} {s : State} {c : Call} {cs : List Call} {nowMs : Int} {snap : Agg.Snapshot}

structure Inv (view : Agg.Attr → β) (s : State) : Prop where
  events : EventsInv s
  shows  : Shows view s.db.file.events s.events
  points : PointsInv s

theorem Inv.start : Inv view start where
  events := {
    table  := ⟨.nil, .nil⟩
    clock  := by simp [Interchange.start, openDB, Database.empty]
    memory := rfl
    cap    := rfl
  }
  shows  := rfl
  points := {
    points   := {
      rows     := rfl
      enough   := by simp [Interchange.start]
      ids      := .nil
      sequence := by simp [Interchange.start, openDB, Database.empty]
    }
    few      := by simp [Few, Interchange.start, openDB, Database.empty]
    memory   := rfl
    cap      := rfl
    lastSnap := rfl
  }

theorem not_throttles (h : PointsInv s) (ht : ∀ t ∈ s.lastSnap, t + 1500 ≤ nowMs) : 
    ¬s.db.throttles nowMs := by
  simp only [DB.throttles, h.lastSnap, decide_eq_true_eq]
  cases hl : s.lastSnap
  case none   => simp
  case some t =>
    have := ht t hl
    simp only [Option.getD_some]
    omega

-- The database after a snapshot that is not throttled.
theorem step_recordSnapshot (snap : Agg.Snapshot) (h : PointsInv s) 
    (ht : ∀ t ∈ s.lastSnap, t + 1500 ≤ nowMs) : 
    (step s (.recordSnapshot nowMs (some snap))).db = 
      ({ s.db with lastSnapTime := nowMs }.insertSnapshot nowMs snap).maybePrune := by
  simp only [step, DB.recordSnapshot_succeeds (not_throttles h ht)]

theorem EventsInv.step (hs : EventsInv s) (hp : PointsInv s) (hr : Regular s c) : 
    EventsInv (step s c) := by
  cases c
  case queryHistory => exact hs
  case recordEvent nowMs e =>
    have hc := hs.clock_le hr
    have ht : Table (s.db.insertEvent nowMs e).file.events := hs.table.replace hc
    constructor
    case table  => exact ht.maybePrune
    case clock  => 
      intro r hm
      refine ⟨nowMs, rfl, ?_⟩
      cases maybePrune_subset hm
      case head    => exact le_refl _
      case tail hm => exact hc r <| List.mem_of_mem_filter hm
    case memory =>
      simp only [Interchange.step, Memory.recordEvent, hs.memory]
      exact appendCapped_reverse
    case cap => exact hs.cap
  case recordSnapshot nowMs snap => 
    cases snap
    case none      => exact { hs with clock := fun r hm => ⟨nowMs, rfl, hs.clock_le hr.left r hm⟩ }
    case some snap =>
      have hd := step_recordSnapshot snap hp (hr.right rfl)
      constructor
      case table  => 
        rw [hd]
        exact Table.maybePrune hs.table
      case clock  => 
        rw [hd]
        intro r hm
        have hm := maybePrune_subset hm
        exact ⟨nowMs, rfl, hs.clock_le hr.left r hm⟩
      case memory => exact hs.memory
      case cap    => exact hs.cap

theorem PointsInv.step (hs : PointsInv s) (hr : Regular s c) : PointsInv (step s c) := by
  cases c
  case queryHistory => exact hs
  case recordEvent nowMs e =>
    have hp : Points (s.db.insertEvent nowMs e) s.snapshots := 
      ⟨hs.points.rows, hs.points.enough, hs.points.ids, hs.points.sequence⟩
    have hf : Few (s.db.insertEvent nowMs e) 1 := Nat.le_succ_of_le hs.few
    exact {
      points   := hp.maybePrune
      few      := hf.maybePrune hp
      memory   := hs.memory
      cap      := hs.cap
      lastSnap := DB.lastSnapTime_maybePrune.trans hs.lastSnap
    }
  case recordSnapshot nowMs snap => 
    cases snap
    case none      => exact ⟨hs.points, hs.few, hs.memory, hs.cap, hs.lastSnap⟩
    case some snap =>
      have hd := step_recordSnapshot snap hs (hr.right rfl)
      have hp : Points { s.db with lastSnapTime := nowMs } s.snapshots := 
        ⟨hs.points.rows, hs.points.enough, hs.points.ids, hs.points.sequence⟩
      have hi := hp.insert nowMs snap
      have hf : Few ({ s.db with lastSnapTime := nowMs }.insertSnapshot nowMs snap) 1 := 
        Nat.succ_le_succ hs.few
      constructor
      case points   => rw [hd]; exact hi.maybePrune
      case few      => rw [hd]; exact hf.maybePrune hi
      case memory   => 
        simp only [Interchange.step, Memory.recordSnapshot, appendCapped_map, hs.memory, List.map_take]
        exact appendCapped_reverse
      case cap      => exact hs.cap
      case lastSnap => rw [hd, DB.lastSnapTime_maybePrune]; rfl

end Run

section Run

variable [Unicode] {β : Type} {view : Agg.Attr → β} {s : State} {c : Call} {cs : List Call} {nowMs : Int} 
         {snap : Agg.Snapshot}

theorem alike_iff (hs : Inv view s) (hr : Regular s c) : Alike view s c ↔ Matched view s c := by
  have he : SameEvents view (Interchange.step s c) ↔ _ := hs.events.step hs.points hr |>.sameEvents_iff
  cases c
  case recordEvent nowMs e =>
    exact he.trans <| hs.shows.recordEvent_iff hs.events.table <| hs.events.clock_le hr
  case recordSnapshot nowMs snap => 
    cases snap
    case none      => exact he.trans <| iff_true_intro hs.shows
    case some snap =>
      apply he.trans
      rw [step_recordSnapshot snap hs.points (hr.right rfl)]
      exact Shows.maybePrune_iff hs.events.table hs.shows
  case queryHistory limit comm => 
    have hf := hs.points.few
    have hl : (s.db.writes % pruneEvery).toNat < 32 := Nat.mod_lt _ (by decide)
    apply listed_iff hs.points.points
    case hk => 
      simp only [Few, maxStoredSnapshots] at hf
      omega
    case hm => exact hs.points.cap ▸ hs.points.memory

theorem Inv.step (hs : Inv view s) (hr : Regular s c) (ha : Alike view s c) : Inv view (step s c) where
  events := hs.events.step hs.points hr
  points := hs.points.step hr
  shows  := by
    have he : SameEvents view (Interchange.step s c) ↔ _ := hs.events.step hs.points hr |>.sameEvents_iff
    cases c
    case queryHistory   => exact hs.shows
    case recordEvent    => exact he.mp ha
    case recordSnapshot => exact he.mp ha

-- Whatever is compared of the attributes, the stores are interchangeable if and only if no event that can
-- be listed has the id of another, loses something of its attributes or is pruned, and the comms of
-- queries are found alike.
theorem alike_iff_matched (view : Agg.Attr → β) (h : Execution.Always step Regular start cs) : 
    Execution.Always step (Alike view) start cs ↔ Execution.Always step (Matched view) start cs := by
  apply h.congr_of Inv.start
  case hk  => exact fun s c hs hr ha => hs.step hr ha
  case hpq => exact fun s c hs hr => alike_iff hs hr

end Run

section Repeated

attribute [local instance] Unicode.ascii

def opened (detail : Bytes) : Agg.EventRow where
  id       := str "evt-1"
  ts       := str "2024-01-01T00:00:00Z"
  severity := str "info"
  category := str "file"
  pid      := 71
  comm     := str "vim"
  title    := str "Open File"
  detail   := detail
  attrs    := []

-- The second event has the id of the first one.
def repeated : List Call :=
  [.recordEvent 1 (opened <| str "/etc/hosts"), .recordEvent 2 (opened <| str "/etc/passwd")]

theorem regular_repeated : Execution.Always step Regular start repeated := by
  simp [repeated, Regular, start, step]

-- `Memory` lists both events, the database only the second one.
theorem not_alike_repeated : 
    ¬(Execution.Always step Regular start repeated → Execution.Always step (Alike asNumber) start repeated) := by
  intro h
  have ⟨hr, hr', _⟩ := regular_repeated
  have ⟨ha, ha', _⟩ := h regular_repeated
  have hm := alike_iff (Inv.start.step hr ha) hr' |>.mp ha'
  exact hm.left _ List.mem_cons_self rfl

theorem alike_iff_matched_repeated : 
    Execution.Always step (Alike asNumber) start repeated ↔ Execution.Always step (Matched asNumber) start repeated :=
  alike_iff_matched asNumber regular_repeated

end Repeated
end Storage.Interchange
