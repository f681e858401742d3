import DrishtiScope.Config.Config
import DrishtiScope.Lib.Separated

open Go

-- The configurations that the environment of the daemon can ask for.
namespace Config

variable [Unicode]

abbrev IsInt (n : Int) : Prop :=
  -2 ^ 63 ≤ n ∧ n < 2 ^ 63

-- The configurations that some environment asks for.
structure Loadable (c : Config) : Prop where
  httpAddr        : c.httpAddr ≠ [] ∧ 0 ∉ c.httpAddr
  mode            : ∃ v : Bytes, v ≠ [] ∧ 0 ∉ v ∧ v.toLower = c.mode
  snapshotMs      : 50 ≤ c.snapshotMs ∧ c.snapshotMs ≤ 10_000
  targetPid       : 0 ≤ c.targetPid ∧ c.targetPid ≤ maxPID
  targetComm      : ∃ v, v ≠ [] ∧ 0 ∉ v ∧ sanitizeComm v = c.targetComm
  staticDir       : 0 ∉ c.staticDir
  dbPath          : c.dbPath ≠ [] ∧ 0 ∉ c.dbPath
  authToken       : 0 ∉ c.authToken
  corsOrigins     : ∀ o ∈ c.corsOrigins, o ≠ [] ∧ 0 ∉ o ∧ 44 ∉ o ∧ o.trimSpace = o
  maxBodyBytes    : 0 < c.maxBodyBytes ∧ IsInt c.maxBodyBytes
  maxWSClients    : 0 < c.maxWSClients ∧ IsInt c.maxWSClients
  maxHistory      : 0 < c.maxHistory ∧ c.maxHistory ≤ 5000
  shutdownTimeout : 0 < c.shutdownTimeout ∧ ∃ n, IsInt n ∧ int64 (n * 1000000000) = c.shutdownTimeout
  rateLimitRPS    : ∃ n : Int, 0 < n ∧ IsInt n ∧ float64 n = c.rateLimitRPS
  rateLimitBurst  : 0 < c.rateLimitBurst ∧ IsInt c.rateLimitBurst

variable {env : Environment} {c : Config} {key fallback raw : Bytes} {n : Int} {b : Bool}

section Image

omit [Unicode]

theorem envOr_ne_nil (h : fallback ≠ []) : env.envOr key fallback ≠ [] := by
  simp only [Environment.envOr]
  split
  case isTrue he => exact he
  case isFalse   => exact h

theorem not_mem_envOr (h : 0 ∉ fallback) : 0 ∉ env.envOr key fallback := by
  simp only [Environment.envOr]
  split
  case isTrue  => exact env.not_mem_0 key
  case isFalse => exact h

theorem isInt_atoi {s : Bytes} (h : s.atoi = (n, none)) : IsInt n := by
  have hs {neg : Bool} {t : Bytes} (h : Bytes.parseInt.signed 10 64 neg t = (n, none)) : IsInt n := by
    simp only [Bytes.parseInt.signed] at h
    split at h
    case h_1 => cases h
    case h_2 =>
      split at h
      case isTrue  => cases h
      case isFalse =>
        split at h
        case isTrue  => cases h
        case isFalse =>
          injection h with h
          cases neg <;> simp_all [IsInt] <;> omega
  simp only [Bytes.atoi, Bytes.parseInt] at h
  split at h
  case h_1 => cases h
  all_goals exact hs h

theorem isInt_envInt (h : IsInt n) : IsInt (env.envInt key n) := by
  simp only [Environment.envInt]
  split
  case isFalse => exact h
  case isTrue  =>
    split
    case h_1 he => exact isInt_atoi he
    case h_2    => exact h

theorem mem_parseOrigins {o : Bytes} (hz : 0 ∉ raw) (h : o ∈ parseOrigins raw) : 
    o ≠ [] ∧ 0 ∉ o ∧ 44 ∉ o ∧ o.trimSpace = o := by
  have ⟨hm, hn⟩ := List.mem_filter.mp h
  have ⟨p, hp, he⟩ := List.mem_map.mp hm
  have ⟨ws, us, _, hs, _⟩ := Bytes.exists_trimSpace p
  have hsub : o ⊆ p := by
    rw [hs, ← he]
    exact List.subset_append_of_subset_right _ <| List.subset_append_left ..
  have hraw : p ⊆ raw := by
    have hi := (Separated.isInfix_intercalate hp : p <:+: [44].intercalate (raw.splitOn 44)).subset
    rwa [List.intercalate_splitOn] at hi
  exact ⟨by simpa using hn, fun ho => hz <| hraw <| hsub ho, 
    fun ho => Separated.not_mem_of_mem_splitOn hp <| hsub ho, by rw [← he, Bytes.trimSpace_trimSpace]⟩

-- The origins with a comma between them, and a comma if there are none.
def renderOrigins (os : List Bytes) : Bytes :=
  if os = [] then [44] else [44].intercalate os

theorem parseOrigins_renderOrigins {os : List Bytes} (h : ∀ o ∈ os, o ≠ [] ∧ 0 ∉ o ∧ 44 ∉ o ∧ o.trimSpace = o) : 
    parseOrigins (renderOrigins os) = os := by
  simp only [renderOrigins]
  split
  case isTrue he  => rw [he]; decide
  case isFalse hn =>
    rw [parseOrigins, Bytes.splitByte, List.splitOn_intercalate _ (fun o ho => (h o ho).right.right.left) hn, 
      List.map_congr_left (fun o ho => (h o ho).right.right.right), List.map_id']
    exact List.filter_eq_self.mpr fun o ho => by simpa using (h o ho).left

theorem renderOrigins_ne_nil {os : List Bytes} (h : ∀ o ∈ os, o ≠ []) : renderOrigins os ≠ [] := by
  simp only [renderOrigins]
  split
  case isTrue     => simp
  case isFalse hn =>
    cases os
    case nil       => contradiction
    case cons o os => 
      have ⟨u, v, he⟩ : o <:+: [44].intercalate (o :: os) := Separated.isInfix_intercalate List.mem_cons_self
      intro hi
      rw [hi] at he
      simp_all

theorem not_mem_renderOrigins {os : List Bytes} (h : ∀ o ∈ os, 0 ∉ o) : 0 ∉ renderOrigins os := by
  rw [renderOrigins]
  split
  case isTrue  => simp
  case isFalse =>
    intro hz
    rcases Separated.mem_intercalate hz with hz | ⟨o, ho, hz⟩
    case inl => simp at hz
    case inr => exact h o ho hz

theorem getenv_ofList {vars : List (Bytes × Bytes)} {v : Bytes} (hn : (vars.map (·.fst)).Nodup) 
    (hc : ∀ p ∈ vars, 0 ∉ p.snd) (h : (key, v) ∈ vars) : (Environment.ofList vars).getenv key = v := by
  have hv : v.takeWhile (· ≠ 0) = v := 
    List.takeWhile_eq_self_iff.mpr fun b hb => decide_eq_true fun hz => hc _ h <| hz ▸ hb
  have hl : vars.lookup key = some v := by
    clear hc hv
    induction vars
    case nil => contradiction
    case cons p vars hi =>
      have ⟨k, u⟩ := p
      rw [List.map_cons, List.nodup_cons] at hn
      rw [List.lookup_cons]
      cases List.mem_cons.mp h
      case inl he => cases he; simp
      case inr hm =>
        have hk : (key == k) = false := by
          rw [beq_eq_false_iff_ne]
          exact fun he => hn.left <| List.mem_map.mpr ⟨_, hm, he⟩
        simp only [hk]
        exact hi hn.right hm
  simp only [Environment.ofList, hl, Option.getD_some, hv]

theorem envOr_eq {v : Bytes} (he : env.getenv key = v) (hv : v ≠ []) : env.envOr key fallback = v := by
  rw [Environment.envOr, he, if_pos hv]

theorem envInt_eq (he : env.getenv key = itoa n) (hn : IsInt n) {m : Int} : env.envInt key m = n := by
  have hi : itoa n ≠ [] := Bytes.word_itoa.ne_nil
  simp only [Environment.envInt, he, if_pos hi, Bytes.atoi_itoa hn.left hn.right]

theorem not_mem_itoa : 0 ∉ itoa n := by
  intro h
  rcases mem_itoa h with h | ⟨h, _⟩ <;> contradiction

theorem float64_pos_iff : 0 < float64 n ↔ 0 < n :=
  FloatFormat.round_intCast_pos_iff (by decide)

theorem float64_40 : float64 40 = 40 :=
  FloatFormat.round_of_isFloat <| FloatFormat.isFloat_intCast (n := 40) (by decide) (by decide)

end Image

theorem toLower_bit : Bytes.toLower (if b then str "1" else str "0") = if b then str "1" else str "0" := by
  have hr : (if b then str "1" else str "0").runes = [if b then '1' else '0'] := by cases b <;> decide
  have hl : Unicode.toLower (if b then '1' else '0') = if b then '1' else '0' := by
    rw [Unicode.toLower_ascii _ (by cases b <;> decide)]
    cases b <;> decide
  rw [Bytes.toLower, hr, List.map_singleton, hl]
  cases b <;> decide

theorem envBool_eq (he : env.getenv key = if b then str "1" else str "0") {d : Bool} : env.envBool key d = b := by
  have ht : Bytes.trimSpace (if b then str "1" else str "0") = if b then str "1" else str "0" := by 
    cases b <;> decide
  simp only [Environment.envBool, he, toLower_bit, ht]
  cases b
  case true  => exact if_pos (by decide)
  case false => exact (if_neg (by decide)).trans <| if_pos (by decide)

-- A limit that is not positive is replaced by its default.
omit [Unicode] in
theorem limit_pos {d : Int} (hd : 0 < d ∧ IsInt d) (h : IsInt n) : 
    0 < (if n ≤ 0 then d else n) ∧ IsInt (if n ≤ 0 then d else n) := by
  split
  case isTrue     => exact hd
  case isFalse hn => exact ⟨by omega, h⟩

theorem loadable_load (env : Environment) : Loadable (load env) where
  httpAddr        := ⟨envOr_ne_nil (by decide), not_mem_envOr (by decide)⟩
  mode            := ⟨_, envOr_ne_nil (by decide), not_mem_envOr (by decide), rfl⟩
  targetPid       := (WellFormed.normalize _).pid
  targetComm      := ⟨_, envOr_ne_nil (by decide), not_mem_envOr (by decide), rfl⟩
  staticDir       := not_mem_envOr List.not_mem_nil
  dbPath          := ⟨envOr_ne_nil (by decide), not_mem_envOr (by decide)⟩
  authToken       := env.not_mem_0 _
  corsOrigins o h := mem_parseOrigins (not_mem_envOr (by decide)) h
  maxBodyBytes    := limit_pos (by decide) (isInt_envInt (by decide))
  maxWSClients    := limit_pos (by decide) (isInt_envInt (by decide))
  rateLimitBurst  := limit_pos (by decide) (isInt_envInt (by decide))
  snapshotMs      := by
    simp only [load, normalize]
    split <;> split <;> simp_all [defaultSnapshotMs]
  maxHistory      := by
    simp only [load, normalize]
    split <;> simp_all [defaultMaxHistory]
  shutdownTimeout := by
    simp only [load, normalize]
    split
    case isTrue     => exact ⟨by decide, 10, by decide, by decide⟩
    case isFalse hn => exact ⟨by omega, _, isInt_envInt (by decide), rfl⟩
  rateLimitRPS    := by
    simp only [load, normalize]
    split
    case isTrue     => exact ⟨40, by decide, by decide, float64_40⟩
    case isFalse hn => exact ⟨_, float64_pos_iff.mp <| not_le.mp hn, isInt_envInt (by decide), rfl⟩

-- An environment that asks for `c`, where `mode` and `comm` are normalized to those of `c`.
def entries (c : Config) (mode comm : Bytes) (shutdownSec rps : Int) : List (Bytes × Bytes) :=
  let bit (b : Bool) := if b then str "1" else str "0"
  [
    (str "HTTP_ADDR", c.httpAddr),
    (str "MODE", mode),
    (str "SNAPSHOT_MS", itoa c.snapshotMs),
    (str "TARGET_PID", itoa c.targetPid),
    (str "TARGET_COMM", comm),
    (str "STATIC_DIR", c.staticDir),
    (str "DB_PATH", c.dbPath),
    (str "CORS_ORIGINS", renderOrigins c.corsOrigins),
    (str "WS_INSECURE", bit c.allowInsecureWS),
    (str "MAX_BODY_BYTES", itoa c.maxBodyBytes),
    (str "MAX_WS_CLIENTS", itoa c.maxWSClients),
    (str "MAX_HISTORY", itoa c.maxHistory),
    (str "SHUTDOWN_TIMEOUT_SEC", itoa shutdownSec),
    (str "AUTH_TOKEN", c.authToken),
    (str "TRUST_PROXY", bit c.trustProxy),
    (str "RATE_LIMIT_RPS", itoa rps),
    (str "RATE_LIMIT_BURST", itoa c.rateLimitBurst)
  ]

omit [Unicode] in
theorem nodup_entries {mode comm : Bytes} {shutdownSec rps : Int} : 
    ((entries c mode comm shutdownSec rps).map (·.fst)).Nodup := by
  simp only [entries, List.map_cons, List.map_nil]
  decide

-- What is in range stays as it is.
theorem Loadable.normalize_eq {comm : Bytes} (h : Loadable c) (hc : sanitizeComm comm = c.targetComm) : 
    normalize { c with targetComm := comm } = c := by
  have hsnap := h.snapshotMs
  have hpid := h.targetPid
  have hhist := h.maxHistory
  have ⟨rps, hrps, _, hr⟩ := h.rateLimitRPS
  have hq : ¬c.rateLimitRPS ≤ 0 := not_le.mpr <| hr ▸ float64_pos_iff.mpr hrps
  have h₁ : ¬c.snapshotMs < 50 := by omega
  have h₂ : ¬10_000 < c.snapshotMs := by omega
  have h₃ : ¬(c.targetPid < 0 ∨ maxPID < c.targetPid) := by omega
  have h₄ : ¬(c.maxHistory ≤ 0 ∨ 5000 < c.maxHistory) := by omega
  have h₅ := not_le.mpr h.maxBodyBytes.left
  have h₆ := not_le.mpr h.maxWSClients.left
  have h₇ := not_le.mpr h.rateLimitBurst.left
  have h₈ := not_le.mpr h.shutdownTimeout.left
  simp only [normalize, h₁, h₂, h₃, h₄, h₅, h₆, h₇, h₈, hq, hc, if_false]

-- All of these values can be values of variables.
theorem Loadable.not_mem_entries {mode comm : Bytes} {shutdownSec rps : Int} (h : Loadable c) (hm : 0 ∉ mode) 
    (hc : 0 ∉ comm) : ∀ p ∈ entries c mode comm shutdownSec rps, 0 ∉ p.snd := by
  have hb {b : Bool} : 0 ∉ if b then str "1" else str "0" := by cases b <;> decide
  have ho := not_mem_renderOrigins fun o ho => (h.corsOrigins o ho).right.left
  simp only [entries, List.forall_mem_cons]
  exact ⟨h.httpAddr.right, hm, not_mem_itoa, not_mem_itoa, hc, h.staticDir, h.dbPath.right, ho, hb, not_mem_itoa, 
    not_mem_itoa, not_mem_itoa, not_mem_itoa, h.authToken, hb, not_mem_itoa, not_mem_itoa, nofun⟩

theorem Loadable.exists_load (h : Loadable c) : ∃ env, load env = c := by
  have ⟨mode, hmode, hmz, hm⟩ := h.mode
  have ⟨comm, hcomm, hcz, hc⟩ := h.targetComm
  have ⟨_, sec, hsec, hd⟩ := h.shutdownTimeout
  have ⟨rps, hrps, hi, hr⟩ := h.rateLimitRPS
  let env : Environment := .ofList <| entries c mode comm sec rps
  have hv (i : Nat) {key v : Bytes} (hm : (entries c mode comm sec rps)[i]? = some (key, v)) : env.getenv key = v := 
    getenv_ofList nodup_entries (h.not_mem_entries hmz hcz) (List.mem_of_getElem? hm)
  have hsnap : IsInt c.snapshotMs := ⟨by linarith [h.snapshotMs.left], by linarith [h.snapshotMs.right]⟩
  have hpid : IsInt c.targetPid := by
    have := h.targetPid
    simp only [maxPID] at this
    exact ⟨by omega, by omega⟩
  have hhist : IsInt c.maxHistory := ⟨by linarith [h.maxHistory.left], by linarith [h.maxHistory.right]⟩
  have hos := renderOrigins_ne_nil fun o ho => (h.corsOrigins o ho).left
  have hstatic : env.envOr (str "STATIC_DIR") [] = c.staticDir := by
    rw [Environment.envOr, hv 5 rfl]
    split
    case isTrue     => rfl
    case isFalse hn => exact (not_not.mp hn).symm
  refine ⟨env, .trans ?_ (h.normalize_eq hc)⟩
  simp only [load, hstatic, envOr_eq (hv 0 rfl) h.httpAddr.left, envOr_eq (hv 1 rfl) hmode, envInt_eq (hv 2 rfl) hsnap, 
    envInt_eq (hv 3 rfl) hpid, envOr_eq (hv 4 rfl) hcomm, envOr_eq (hv 6 rfl) h.dbPath.left, 
    envOr_eq (hv 7 rfl) hos, parseOrigins_renderOrigins h.corsOrigins, envBool_eq (hv 8 rfl), 
    envInt_eq (hv 9 rfl) h.maxBodyBytes.right, envInt_eq (hv 10 rfl) h.maxWSClients.right, 
    envInt_eq (hv 11 rfl) hhist, envInt_eq (hv 12 rfl) hsec, hv 13 rfl, envBool_eq (hv 14 rfl), 
    envInt_eq (hv 15 rfl) hi, envInt_eq (hv 16 rfl) h.rateLimitBurst.right, hm, hd, hr]

-- The environments ask for these configurations, and for no others.
theorem exists_load_iff : (∃ env, load env = c) ↔ Loadable c where
  mp  := fun ⟨env, he⟩ => he ▸ loadable_load env
  mpr := Loadable.exists_load

end Config
