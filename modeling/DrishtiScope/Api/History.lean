import DrishtiScope.Api.Noninterference

open Go Storage

-- What GET /api/history answers, for any stored history.
namespace Api.History

-- The rows of the store, the newest first.
def stored : Store → List SnapshotRecord
  | .nop       => []
  | .sqlite db => db.file.snapshots

-- The daemon has written what is stored.
def Written : Store → Prop
  | .nop       => True
  | .sqlite db => db.file.Written

def commParam (r : Request) : Bytes :=
  r.query.get (str "comm")

-- The number of points that a request asks for, with the limits of the server and of the database.
def asked (cfg : Config) (r : Request) : Nat :=
  let limit := if queryLimit r ≤ 0 then 100 else queryLimit r
  (min (min limit cfg.maxHistory) 1000).toNat

section

variable [Unicode]

-- A row matches if there is no filter, or if its comm is the one of the filter.
def matching (s : Server) (r : Request) : List SnapshotRecord :=
  (stored s.db).filter fun row => 
    commParam r = [] || row.targetComm = Config.sanitizeComm (commParam r)

structure Right (s : Server) (r : Request) (points : List SnapshotHistoryPoint) : Prop where
  cap    : points.length ≤ s.cfg.maxHistory
  comm   : commParam r ≠ [] → ∀ p ∈ points, p.comm = Config.sanitizeComm (commParam r)
  newest : points = ((matching s r).take (asked s.cfg r)).reverse.map (·.point)

-- The number of rows that are queried.
def queried (cfg : Config) (r : Request) : Nat :=
  (Config.clampLimit (Config.clampLimit (queryLimit r) 100 cfg.maxHistory) 100 1000).toNat

-- The filter is left out, or it is what the rows are compared with. If it is not valid, the newest rows are
-- those without a comm, and if it has been cut within a rune, there are neither rows with it nor rows
-- without a comm.
def Filterable (s : Server) (r : Request) : Prop :=
  let comm := Config.sanitizeComm (commParam r)
  commParam r = [] ∨ 
    (comm = [] ∧ ∀ row ∈ (stored s.db).take (queried s.cfg r), row.targetComm = []) ∨
    (comm ≠ [] ∧ Config.sanitizeComm comm = comm) ∨
    (comm ≠ [] ∧ Config.sanitizeComm comm ≠ comm ∧ 
      ∀ row ∈ stored s.db, row.targetComm ≠ [] ∧ row.targetComm ≠ comm)

-- Without a limit, the server does not list more than 100 points, unless it stores less than that.
structure Answerable (s : Server) (r : Request) : Prop where
  limit  : queryLimit r ≤ 0 → s.cfg.maxHistory < 100 → (matching s r).length ≤ s.cfg.maxHistory
  filter : Filterable s r

end

section Rows

variable [Unicode] {s : Server} {x : Exchange} {env : Env} {r : Request} {points : List SnapshotHistoryPoint}

-- The rows that the query finds.
def found (s : Server) (r : Request) : List SnapshotRecord :=
  let comm := Config.sanitizeComm (commParam r)
  if comm = [] then 
    stored s.db 
  else 
    (stored s.db).filter (·.targetComm = Config.sanitizeComm comm)

def listed (rows : List SnapshotRecord) (n : Nat) : List SnapshotHistoryPoint :=
  (rows.take n).reverse.map (·.point)

theorem queryHistory_eq {limit : Int} (hw : Written s.db) (h : s.db = .nop ∨ env.query.executes) : 
    s.db.queryHistory env.query limit (Config.sanitizeComm <| commParam r) = 
      .ok (listed (found s r) (Config.clampLimit limit 100 1000).toNat) := by
  simp only [Store.queryHistory, found, listed]
  cases hs : s.db
  case nop       => simp [stored]
  case sqlite db =>
    have hq : env.query.executes := h.resolve_left <| by simp [hs]
    rw [hs] at hw
    have ho := Database.Written.ordered hw
    have hd (p : SnapshotRecord → Bool) : 
        (db.file.snapshots.filter p).mergeSort (fun a b => b.id ≤ a.id) = db.file.snapshots.filter p :=
      List.mergeSort_of_pairwise <| 
        (ho.ids.sublist List.filter_sublist).imp fun h => decide_eq_true (le_of_lt h)
    simp only [hq, if_true, DB.queryHistory, stored]
    split
    case isTrue  => rw [← List.filter_true db.file.snapshots, hd]
    case isFalse => rw [hd]

omit [Unicode] in
theorem writeJSON_inj {st st' : Nat} {v v' : Payload} (h : x.writeJSON st v = x.writeJSON st' v') : 
    v = v' := by
  have hb := congrArg (·.writer.body) h
  simpa [Exchange.writeJSON, Exchange.write, Exchange.writeHeader, Exchange.set, ResponseWriter.write, 
    ResponseWriter.writeHeader, ResponseWriter.set] using hb

-- The response lists what is found, unless the query fails.
theorem handleHistory_eq_iff (hw : Written x.server.db) : 
    handleHistory env r x = .ok (x.writeJSON 200 <| .history points) ↔ 
      (x.server.db = .nop ∨ env.query.executes) ∧ 
        points = listed (found x.server r) (queried x.server.cfg r) := by
  by_cases h : x.server.db = .nop ∨ env.query.executes
  case pos =>
    have hr : handleHistory env r x = 
        .ok (x.writeJSON 200 <| .history <| listed (found x.server r) (queried x.server.cfg r)) := by
      have hq := @queryHistory_eq _ x.server env r 
        (Config.clampLimit (queryLimit r) 100 x.server.cfg.maxHistory) hw h
      rw [commParam] at hq
      simp only [handleHistory, hq]
      rfl
    rw [hr, Except.ok.injEq, and_iff_right h]
    constructor
    case mp  => exact fun he => Payload.history.inj (writeJSON_inj he) |>.symm
    case mpr => exact fun he => he ▸ rfl
  case neg =>
    have hr : handleHistory env r x = .ok (x.writeError 500 <| str "query failed") := by
      cases hs : x.server.db
      case nop       => exact absurd (.inl hs) h
      case sqlite db =>
        have hq : env.query.executes = false := by simpa using (not_or.mp h).right
        simp [handleHistory, Store.queryHistory, hs, hq]
    rw [hr, Except.ok.injEq]
    refine iff_of_false (fun he => ?_) fun hn => h hn.left
    have he := writeJSON_inj he
    contradiction

end Rows

section Limits

variable [Unicode] {s : Server} {r : Request} {cfg : Config}

omit [Unicode] in
theorem queried_of_pos (h : 0 < queryLimit r) (hm : 0 < cfg.maxHistory) : 
    queried cfg r = asked cfg r := by
  simp only [queried, asked, Config.clampLimit]
  grind

omit [Unicode] in
theorem queried_of_not_pos (h : queryLimit r ≤ 0) : 
    queried cfg r = 100 ∧ asked cfg r = (min 100 cfg.maxHistory).toNat := by
  simp only [queried, asked, Config.clampLimit]
  grind

omit [Unicode] in
theorem queried_pos (hm : 0 < cfg.maxHistory) : 0 < queried cfg r := by
  simp only [queried, Config.clampLimit]
  grind

-- The matching rows are as many as they should be.
theorem right_listed_iff (hm : 0 < s.cfg.maxHistory) : 
    Right s r (listed (matching s r) (queried s.cfg r)) ↔ 
      (queryLimit r ≤ 0 → s.cfg.maxHistory < 100 → (matching s r).length ≤ s.cfg.maxHistory) := by
  have hlen : (listed (matching s r) (queried s.cfg r)).length = 
      min (queried s.cfg r) (matching s r).length := by
    simp [listed]
  have hc : commParam r ≠ [] → ∀ p ∈ listed (matching s r) (queried s.cfg r), 
      p.comm = Config.sanitizeComm (commParam r) := by
    intro hn p hp
    have ⟨row, hr, he⟩ := List.mem_map.mp hp
    have hr := List.mem_of_mem_take <| List.mem_reverse.mp hr
    have hf := List.of_mem_filter hr
    simp only [hn, decide_false, Bool.false_or, decide_eq_true_eq] at hf
    exact he ▸ hf
  constructor
  case mp =>
    intro h hl hm'
    have hcap := h.cap
    rw [hlen, (queried_of_not_pos hl).left] at hcap
    omega
  case mpr =>
    intro h
    have he : (matching s r).take (queried s.cfg r) = (matching s r).take (asked s.cfg r) := by
      rw [List.take_eq_take_iff]
      by_cases hl : 0 < queryLimit r
      case pos => rw [queried_of_pos hl hm]
      case neg =>
        have ⟨hq, ha⟩ := @queried_of_not_pos r s.cfg (not_lt.mp hl)
        have := h (not_lt.mp hl)
        rw [hq, ha]
        omega
    have ha : (asked s.cfg r : Int) ≤ s.cfg.maxHistory := by
      simp only [asked]
      omega
    constructor
    case cap    =>
      rw [listed, he]
      simp only [List.length_map, List.length_reverse, List.length_take]
      omega
    case comm   => exact hc
    case newest => rw [listed, he]

end Limits

section Filters

variable [Unicode] {s : Server} {r : Request} {x : Exchange} {env : Env}

theorem sanitizeComm_twice {comm : Bytes} 
    (h : Config.sanitizeComm (Config.sanitizeComm comm) ≠ Config.sanitizeComm comm) : 
    Config.sanitizeComm (Config.sanitizeComm comm) = [] :=
  (Config.sanitizeComm_sanitized comm).sanitizeComm_eq.resolve_left h

theorem found_take (h : Filterable s r) : 
    (found s r).take (queried s.cfg r) = (matching s r).take (queried s.cfg r) := by
  simp only [found, matching]
  by_cases hp : commParam r = []
  case pos => simp [hp, Config.sanitizeComm_nil]
  case neg =>
    simp only [hp, decide_false, Bool.false_or]
    obtain h | ⟨hc, h⟩ | ⟨hc, h⟩ | ⟨hc, hs, h⟩ := h
    · exact absurd h hp
    · rw [if_pos hc, Retention.take_filter]
      intro row hr
      simpa [hc] using h row hr
    · rw [if_neg hc, h]
    · have hn : (stored s.db).filter (·.targetComm = []) = [] := 
        List.filter_eq_nil_iff.mpr fun row hr => by simpa using (h row hr).left
      have hm : (stored s.db).filter (·.targetComm = Config.sanitizeComm (commParam r)) = [] := 
        List.filter_eq_nil_iff.mpr fun row hr => by simpa using (h row hr).right
      rw [if_neg hc, sanitizeComm_twice hs, hn, hm]

-- If the filter is lost on the way to the query, what it finds would not have the comm.
theorem found_eq_nil (hm : 0 < s.cfg.maxHistory) (h : Right s r <| listed (found s r) (queried s.cfg r)) 
    (hp : commParam r ≠ []) (hc : Config.sanitizeComm (commParam r) ≠ []) 
    (hf : found s r = (stored s.db).filter (·.targetComm = [])) : found s r = [] := by
  by_contra hn
  have ⟨row, l, he⟩ := List.exists_cons_of_ne_nil hn
  have hr : row ∈ (found s r).take (queried s.cfg r) := by
    rw [he, ← Nat.succ_pred_eq_of_pos (queried_pos hm), List.take_succ_cons]
    exact List.mem_cons_self
  have hr' : row ∈ (stored s.db).filter (·.targetComm = []) := hf ▸ List.mem_of_mem_take hr
  have hb : row.targetComm = [] := by simpa using List.of_mem_filter hr'
  have hl := h.comm hp row.point <| List.mem_map_of_mem <| List.mem_reverse.mpr hr
  exact hc <| hl.symm.trans hb

theorem matching_eq_nil (hm : 0 < s.cfg.maxHistory) (h : Right s r <| listed (found s r) (queried s.cfg r)) 
    (hn : found s r = []) : matching s r = [] := by
  have ha : 0 < asked s.cfg r := by
    simp only [asked]
    grind
  have he := h.newest
  rw [hn, listed, List.take_nil, List.reverse_nil, List.map_nil, eq_comm, List.map_eq_nil_iff, 
    List.reverse_eq_nil_iff, List.take_eq_nil_iff] at he
  exact he.resolve_left ha.ne'

theorem filterable_of_right (hm : 0 < s.cfg.maxHistory) 
    (h : Right s r <| listed (found s r) (queried s.cfg r)) : Filterable s r := by
  by_cases hp : commParam r = []
  case pos => exact .inl hp
  case neg =>
    by_cases hc : Config.sanitizeComm (commParam r) = []
    case pos => 
      refine .inr <| .inl ⟨hc, fun row hr => ?_⟩
      have hf : found s r = stored s.db := by rw [found, if_pos hc]
      have hl := h.comm hp row.point <| List.mem_map_of_mem <| List.mem_reverse.mpr (hf ▸ hr)
      exact hl.trans hc
    case neg =>
      by_cases hs : Config.sanitizeComm (Config.sanitizeComm <| commParam r) = 
          Config.sanitizeComm (commParam r)
      case pos => exact .inr <| .inr <| .inl ⟨hc, hs⟩
      case neg =>
        have hf : found s r = (stored s.db).filter (·.targetComm = []) := by
          rw [found, if_neg hc, sanitizeComm_twice hs]
        have hn := found_eq_nil hm h hp hc hf
        have hmatch := matching_eq_nil hm h hn
        refine .inr <| .inr <| .inr ⟨hc, hs, fun row hr => ⟨fun hb => ?_, fun hb => ?_⟩⟩
        case refine_1 =>
          rw [hf] at hn
          simpa [hb] using List.filter_eq_nil_iff.mp hn row hr
        case refine_2 =>
          simpa [hb] using List.filter_eq_nil_iff.mp hmatch row hr

theorem right_found_iff (hm : 0 < s.cfg.maxHistory) : 
    Right s r (listed (found s r) (queried s.cfg r)) ↔ Answerable s r := by
  constructor
  case mp =>
    intro h
    have hf := filterable_of_right hm h
    rw [listed, found_take hf] at h
    exact ⟨right_listed_iff hm |>.mp h, hf⟩
  case mpr =>
    intro h
    rw [listed, found_take h.filter]
    exact right_listed_iff hm |>.mpr h.limit

-- A query that succeeds is answered as it should if and only if it sets a limit or the server allows 100
-- points, and its filter is one that `SanitizeComm` keeps.
theorem right_iff_answerable (hw : Written x.server.db) (hm : 0 < x.server.cfg.maxHistory) : 
    (∀ points, handleHistory env r x = .ok (x.writeJSON 200 <| .history points) → Right x.server r points) ↔ 
      (x.server.db = .nop ∨ env.query.executes → Answerable x.server r) := by
  simp only [handleHistory_eq_iff hw, and_imp, ← right_found_iff hm]
  exact ⟨fun h hq => h _ hq rfl, fun h points hq he => he ▸ h hq⟩

end Filters

section Invalid

attribute [local instance] Unicode.ascii

def agySnapshot : Agg.Snapshot :=
  { Agg.emptySnapshot with info := { Agg.emptySnapshot.info with target := ⟨81, str "agy"⟩ } }

-- The server has stored one snapshot.
def recorded : Exchange where
  server := { observing 0 <| str "agy" with 
    db := .sqlite (DB.recordSnapshot (openDB .empty) 1_700_000_000_000 {} (some agySnapshot)).fst 
  }

-- GET /api/history?comm=a/b
def invalidFilter : Request := 
  { remoteRequest with 
    path        := str "/api/history"
    escapedPath := str "/api/history"
    rawQuery    := str "comm=a%2Fb"
  }

theorem written_recorded : Written recorded.server.db :=
  Database.Written.recordSnapshot _ _ _ .empty

theorem right_iff_answerable_recorded : 
    (∀ points, handleHistory oneSecondLater invalidFilter recorded = 
      .ok (recorded.writeJSON 200 <| .history points) → Right recorded.server invalidFilter points) ↔ 
      (recorded.server.db = .nop ∨ oneSecondLater.query.executes → 
        Answerable recorded.server invalidFilter) :=
  right_iff_answerable written_recorded (by decide)

-- The snapshot is listed, as if there were no filter.
theorem not_right_recorded : 
    ¬∀ env r (x : Exchange), Written x.server.db → 0 < x.server.cfg.maxHistory → 
      ∀ points, handleHistory env r x = .ok (x.writeJSON 200 <| .history points) → 
        Right x.server r points := by
  intro h
  have hr := h oneSecondLater invalidFilter recorded written_recorded (by decide) _ <| 
    handleHistory_eq_iff written_recorded |>.mpr ⟨.inr rfl, rfl⟩
  have hp := hr.comm (by decide) (DB.snapshotRecord 1 1_700_000_000_000 agySnapshot).point (by decide +kernel)
  exact absurd hp (by decide)

end Invalid
end Api.History
