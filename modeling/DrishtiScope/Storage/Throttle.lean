import DrishtiScope.Lib.Execution
import DrishtiScope.Storage.SQLite

-- Which snapshots the database skips, whatever the clock says and whichever writes fail.
namespace Storage.Throttle

-- A call of `RecordSnapshot`.
structure Call where
  nowMs : Int
  out   : Outcome
  snap  : Option Agg.Snapshot

def record (db : DB) (c : Call) : DB × Except WriteError Unit :=
  db.recordSnapshot c.nowMs c.out c.snap

def fails (db : DB) (c : Call) : Bool :=
  !(record db c).snd.isOk

-- Each row that is inserted gets the next number.
def inserts (db : DB) (c : Call) : Bool :=
  (record db c).fst.file.sequence ≠ db.file.sequence

def skips (db : DB) (c : Call) : Bool :=
  c.snap.isSome && !fails db c && !inserts db c

def skipped : DB → List Call → List Bool
  | _, []       => []
  | db, c :: cs => skips db c :: skipped (record db c).fst cs

-- The database, and the readings of the clock at which snapshots have been inserted, the latest first.
structure State where
  db       : DB
  inserted : List Int

def start (file : Database) : State where
  db       := openDB file
  inserted := []

def step (s : State) (c : Call) : State where
  db       := (record s.db c).fst
  inserted := if inserts s.db c then c.nowMs :: s.inserted else s.inserted

-- One of the readings is less than 1500 ms before this one.
def Recent (inserted : List Int) (nowMs : Int) : Prop :=
  ∃ t ∈ inserted, t ≤ nowMs ∧ nowMs < t + 1500

structure Lawful (s : State) (c : Call) : Prop where
  recent : skips s.db c → Recent s.inserted c.nowMs
  failed : fails s.db c → ∀ cs, skipped (record s.db c).fst cs = skipped s.db cs

-- The clock has not gone back behind the last insertion, unless there is another one just before it. No
-- write fails, unless it would have been skipped or the clock reads 1970 or less.
structure Careful (s : State) (c : Call) : Prop where
  clock    : c.snap.isSome → ∀ t ∈ s.inserted.head?, 0 < t → c.nowMs < t → Recent s.inserted c.nowMs
  succeeds : c.snap.isSome → 0 < c.nowMs → 
    (∀ t ∈ s.inserted.head?, 0 < t → t + 1500 ≤ c.nowMs) → c.out.encodes ∧ c.out.executes

variable {db db' : DB} {c : Call} {cs : List Call} {s : State} {file : Database} {nowMs : Int} 
         {out : Outcome} {snap : Agg.Snapshot}

-- What a call does: nothing if there is no snapshot or it is throttled, and otherwise it notes the time and 
-- inserts the snapshot or fails.
inductive Does (db : DB) (c : Call) : Prop
  | nothing (hs : c.snap.isSome → db.throttles c.nowMs) (hr : record db c = (db, .ok ()))
  | insert (snap : Agg.Snapshot) (hs : c.snap = some snap) (ht : ¬db.throttles c.nowMs) 
    (ho : c.out.encodes ∧ c.out.executes) 
    (hr : record db c = 
      (({ db with lastSnapTime := c.nowMs }.insertSnapshot c.nowMs snap).maybePrune, .ok ()))
  | fail (e : WriteError) (hs : c.snap.isSome) (ht : ¬db.throttles c.nowMs) 
    (ho : ¬(c.out.encodes ∧ c.out.executes)) 
    (hr : record db c = ({ db with lastSnapTime := c.nowMs }, .error e))

variable (db c) in
theorem does : Does db c := by
  obtain ⟨nowMs, out, snap⟩ := c
  cases snap
  case none      => exact .nothing (fun h => by contradiction) rfl
  case some snap =>
    by_cases ht : db.throttles nowMs
    case pos => exact .nothing (fun _ => ht) <| DB.recordSnapshot_throttled ht
    case neg =>
      by_cases ho : out.encodes ∧ out.executes
      case pos => exact .insert snap rfl ht ho <| by simp [record, DB.recordSnapshot, ht, ho]
      case neg =>
        cases he : out.encodes
        case false => exact .fail .encode rfl ht ho <| by simp [record, DB.recordSnapshot, ht, he]
        case true  =>
          have hx : out.executes = false := by simpa [he] using ho
          exact .fail .statement rfl ht ho <| by simp [record, DB.recordSnapshot, ht, he, hx]

theorem skips_iff : skips db c ↔ c.snap.isSome ∧ db.throttles c.nowMs := by
  cases does db c
  case nothing hs hr        => 
    simpa [skips, fails, inserts, hr, Except.isOk, Except.toBool] using hs
  case insert snap hs ht ho hr => simp [skips, inserts, hr, ht, DB.insertSnapshot]
  case fail e hs ht ho hr   => simp [skips, fails, hr, ht, Except.isOk, Except.toBool]

theorem fails_iff : 
    fails db c ↔ c.snap.isSome ∧ ¬db.throttles c.nowMs ∧ ¬(c.out.encodes ∧ c.out.executes) := by
  cases does db c
  case nothing hs hr           => 
    refine iff_of_false (by simp [fails, hr, Except.isOk, Except.toBool]) ?_
    exact fun h => h.right.left <| hs h.left
  case insert snap hs ht ho hr => 
    exact iff_of_false (by simp [fails, hr, Except.isOk, Except.toBool]) fun h => h.right.right ho
  case fail e hs ht ho hr      => 
    exact iff_of_true (by simp [fails, hr, Except.isOk, Except.toBool]) ⟨hs, ht, ho⟩

-- What later calls see of a database is when it throttles.
theorem throttles_record {t : Int} : 
    (record db c).fst.throttles t = 
      if c.snap.isSome ∧ ¬db.throttles c.nowMs then 
        { db with lastSnapTime := c.nowMs }.throttles t 
      else 
        db.throttles t := by
  cases does db c
  case nothing hs hr           => rw [hr, if_neg fun h => h.right <| hs h.left]
  case insert snap hs ht ho hr => 
    rw [hr, if_pos ⟨by rw [hs, Option.isSome_some], ht⟩]
    simp [DB.throttles, DB.insertSnapshot]
  case fail e hs ht ho hr      => rw [hr, if_pos ⟨hs, ht⟩]

theorem skipped_congr (h : ∀ t, db.throttles t = db'.throttles t) : skipped db cs = skipped db' cs := by
  induction cs generalizing db db'
  case nil          => rfl
  case cons c cs hi =>
    have hs : skips db c = skips db' c := by
      rw [Bool.eq_iff_iff, skips_iff, skips_iff, h]
    rw [skipped, skipped, hs]
    refine congrArg _ <| hi fun t => ?_
    rw [throttles_record, throttles_record, h, h]
    rfl

-- A failure is noticed by a call at the same moment, unless nothing has been remembered.
theorem skipped_eq_iff (h : ¬db.throttles nowMs) : 
    (∀ cs, skipped { db with lastSnapTime := nowMs } cs = skipped db cs) ↔ nowMs ≤ 0 := by
  constructor
  case mp =>
    intro hc
    by_contra hn
    have hs := hc [⟨nowMs, {}, some Agg.emptySnapshot⟩]
    simp only [skipped, List.cons.injEq, and_true] at hs
    rw [Bool.eq_iff_iff, skips_iff, skips_iff] at hs
    have ht := (hs.mp ⟨rfl, by simp [DB.throttles]; omega⟩).right
    exact h ht
  case mpr =>
    intro hn cs
    apply skipped_congr
    intro t
    simp only [DB.throttles, decide_eq_true_eq] at h
    simp only [DB.throttles, decide_eq_decide]
    omega

-- The time that is remembered is the one of the last insertion, as long as it throttles anything.
def Remembers (s : State) : Prop :=
  ∀ t, 0 < t → (s.db.lastSnapTime = t ↔ t ∈ s.inserted.head?)

theorem Remembers.start : Remembers (start file) := by
  intro t ht
  simp only [Throttle.start, openDB, List.head?_nil, Option.not_mem_none, iff_false]
  omega

theorem Remembers.throttles_iff (h : Remembers s) : 
    s.db.throttles nowMs ↔ ∃ t ∈ s.inserted.head?, 0 < t ∧ nowMs < t + 1500 := by
  simp only [DB.throttles, decide_eq_true_eq]
  constructor
  case mp  => exact fun ht => ⟨_, h _ ht.left |>.mp rfl, ht.left, by omega⟩
  case mpr =>
    intro ⟨t, hm, h0, hl⟩
    have he := h t h0 |>.mpr hm
    omega

theorem recent_iff (h : Remembers s) : 
    (skips s.db c → Recent s.inserted c.nowMs) ↔ 
      (c.snap.isSome → ∀ t ∈ s.inserted.head?, 0 < t → c.nowMs < t → Recent s.inserted c.nowMs) := by
  rw [skips_iff, h.throttles_iff]
  constructor
  case mp  => exact fun hr hs t ht h0 hl => hr ⟨hs, t, ht, h0, by omega⟩
  case mpr =>
    intro hr ⟨hs, t, ht, h0, hl⟩
    by_cases hb : c.nowMs < t
    case pos => exact hr hs t ht h0 hb
    case neg => exact ⟨t, List.mem_of_head? ht, not_lt.mp hb, hl⟩

theorem failed_iff (h : Remembers s) : 
    (fails s.db c → ∀ cs, skipped (record s.db c).fst cs = skipped s.db cs) ↔ 
      (c.snap.isSome → 0 < c.nowMs → (∀ t ∈ s.inserted.head?, 0 < t → t + 1500 ≤ c.nowMs) → 
        c.out.encodes ∧ c.out.executes) := by
  have ht : (∀ t ∈ s.inserted.head?, 0 < t → t + 1500 ≤ c.nowMs) ↔ ¬s.db.throttles c.nowMs := by
    rw [h.throttles_iff]
    simp
  rw [fails_iff, ht]
  cases does s.db c
  case nothing hs hr            => 
    refine iff_of_true (fun hf => ?_) fun hn _ ht => absurd (hs hn) ht
    exact absurd (hs hf.left) hf.right.left
  case insert snap hs ht ho hr  => exact iff_of_true (fun hf => absurd ho hf.right.right) fun _ _ _ => ho
  case fail e hs ht ho hr       => 
    simp only [hr, hs, ht, ho, skipped_eq_iff ht]
    simp

theorem lawful_iff (h : Remembers s) : Lawful s c ↔ Careful s c where
  mp hl  := ⟨recent_iff h |>.mp hl.recent, failed_iff h |>.mp hl.failed⟩
  mpr hc := ⟨recent_iff h |>.mpr hc.clock, failed_iff h |>.mpr hc.succeeds⟩

theorem Remembers.step (h : Remembers s) (hc : Careful s c) : Remembers (step s c) := by
  cases does s.db c
  case nothing hs hr           => simpa [Throttle.step, inserts, hr] using h
  case insert snap hs ht ho hr => simp [Remembers, Throttle.step, inserts, hr, DB.insertSnapshot]
  case fail e hs ht ho hr      =>
    -- The reading is not positive, and neither was the one that was remembered.
    have hn : c.nowMs ≤ 0 := by
      by_contra hn
      refine ho <| hc.succeeds hs (not_le.mp hn) fun t hm h0 => ?_
      by_contra hl
      exact ht <| h.throttles_iff.mpr ⟨t, hm, h0, not_le.mp hl⟩
    intro t h0
    simp only [Throttle.step, inserts, hr, ne_eq, not_true_eq_false, decide_false, Bool.false_eq_true, if_false]
    simp only [DB.throttles, decide_eq_true_eq] at ht
    refine iff_of_false (by omega) ?_
    rw [← h t h0]
    omega

-- Only recent duplicates are skipped, and failures go unnoticed, if and only if the clock does not go back
-- behind an insertion and no write fails that is attempted.
theorem lawful_iff_careful : 
    Execution.Always step Lawful (start file) cs ↔ Execution.Always step Careful (start file) cs := by
  apply Execution.Always.congr Remembers.start
  case hk  => exact fun s c h hl => h.step <| lawful_iff h |>.mp hl
  case hpq => exact fun s c h => lawful_iff h

-- The database is locked for the first snapshot, and the one after it is skipped.
def locked : List Call :=
  [⟨1_700_000_000_000, { executes := false }, some Agg.emptySnapshot⟩, 
   ⟨1_700_000_000_001, {}, some Agg.emptySnapshot⟩]

theorem not_lawful_locked : ¬∀ file cs, Execution.Always step Lawful (start file) cs := by
  intro h
  have ⟨_, hs, _⟩ := h .empty locked
  have ⟨_, hm, _⟩ := hs.recent rfl
  exact absurd hm List.not_mem_nil

end Storage.Throttle
